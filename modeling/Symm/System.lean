import Mathlib.Data.Rat.Defs

/-!
# Configuration read by the desk and the model

The members of `system.Cfg.Risk`, `system.Cfg.Learning` and
`system.Cfg.Market` that the modelled functions read. A dashboard patch may
change the risk floors between two calls, so configuration is an argument of
each step and never part of a state.
-/

namespace Symm.System

/-- `system.Risk`. Percentages are in percent, as in the source. -/
structure Risk where
  maxFraction : ℚ
  touchDivisor : ℚ
  maxEntrySpreadPct : ℚ
  maxEntryOpenDragPct : ℚ
  minTouchBidCash : ℚ
  maxAllowedLossPct : ℚ
  backingBandFrac : ℚ
  minBackingRatio : ℚ

/-- `system.Learning`. -/
structure Learning where
  maxPathLength : Nat
  minPathLength : Nat
  paperEligibleResistance : ℚ
  minSupportedHorizon : Int
  minTaskRelativePrecision : ℚ
  minSurprise : ℚ
  resonanceBypass : Bool
  minEnterZ : ℚ

/-- `system.Market`: the quote currency and the bankroll a simulated wallet is
seeded with. -/
structure Market where
  quoteCurrency : String
  balance : ℚ

/-- `system.Cfg`. -/
structure Cfg where
  risk : Risk
  learning : Learning
  market : Market

/-- The values `NewRisk` and `NewLearning` install when nothing is configured. -/
def Cfg.defaults : Cfg where
  risk := {
    maxFraction := 1 / 5, touchDivisor := 3, maxEntrySpreadPct := 2
    maxEntryOpenDragPct := 5 / 2, minTouchBidCash := 100
    maxAllowedLossPct := 5 / 2, backingBandFrac := 1 / 100
    minBackingRatio := 3 / 5 }
  learning := {
    maxPathLength := 8, minPathLength := 2, paperEligibleResistance := 1 / 5
    minSupportedHorizon := 2, minTaskRelativePrecision := 1 / 2
    minSurprise := 1 / 2, resonanceBypass := false, minEnterZ := 7 / 20 }
  market := { quoteCurrency := "USD", balance := 200 }

end Symm.System
