import Symm.System
import Mathlib.Algebra.Order.Field.Rat

/-!
# The stop of a lot (`broker/stoploss.go`)

`markPace` compares the wall clock with a `TimeElastic` tempo baseline of
another package, so the pace of a mark is an argument of the update. The two
timestamps of the source only feed `markPace` and are not part of the state.

- `mark`: the return is recorded, and the floor breathes: a move up widens it, a move
  down tightens it, by as much as the pace of the mark allows, up to the rail;
- `update`: the mark, the test against the floor, and the lock once the target is
  reached.

The order of the three is that of the source, and the lock is tried at every mark: a
floor that was locked at zero breathes at the next mark like any other. What holds of
the floor along a run is in `Broker.StoplossSpec`.
-/

namespace Symm.Broker

/-- `StoplossState`; `locked` is `StoplossProtected`. -/
inductive StoplossState
  | init | healthy | dangerous | critical | locked | triggered
  deriving DecidableEq, Repr

/-- `Stoploss`. -/
structure Stoploss where
  state : StoplossState
  initialPnLPct : ℚ
  maxLossPct : ℚ
  profitTargetPct : ℚ
  previousPnLPct : ℚ
  currentPnLPct : ℚ
  peakPnLPct : ℚ
  floorPnLPct : ℚ
  deriving DecidableEq

namespace Stoploss

/-- `NewStoploss`: the rails are the allowed loss and its mirror. -/
def new (maxLoss pnlPct : ℚ) : Stoploss where
  state := .init
  initialPnLPct := pnlPct
  maxLossPct := -maxLoss
  profitTargetPct := maxLoss
  previousPnLPct := pnlPct
  currentPnLPct := pnlPct
  peakPnLPct := pnlPct
  floorPnLPct := -maxLoss

/-- `Stoploss.Triggered`: it hit the active floor. -/
def triggered (stoploss : Stoploss) : Bool := stoploss.state = .triggered

/-- `breathe`: an up-move widens the floor, a down-move tightens it. -/
def breathe (stoploss : Stoploss) (pnl pace : ℚ) : Stoploss :=
  let delta := pnl - stoploss.previousPnLPct
  if delta = 0 then stoploss
  else
    let span := stoploss.profitTargetPct - stoploss.maxLossPct
    if span ≤ 0 then stoploss
    else
      let nearFloor := 1 - max 0 (min 1 ((pnl - stoploss.floorPnLPct) / span))
      let nearProfit := 1 - max 0 (min 1 ((stoploss.profitTargetPct - pnl) / span))
      let move := |delta| * pace
      if 0 < delta then
        { stoploss with floorPnLPct := stoploss.floorPnLPct - move * (1 - nearFloor) }
      else
        { stoploss with floorPnLPct := stoploss.floorPnLPct + move * max nearFloor nearProfit }

/-- `health`: which rail the mark is closer to. -/
def health (stoploss : Stoploss) (pnl : ℚ) : StoplossState :=
  let roomToFloor := pnl - stoploss.floorPnLPct
  let roomToProfit := stoploss.profitTargetPct - pnl
  if roomToFloor < roomToProfit then
    let entryDrag := |stoploss.initialPnLPct|
    if 0 < entryDrag ∧ roomToFloor < entryDrag then .critical else .dangerous
  else .healthy

/-- The first half of `Update`: record the mark, breathe, clamp to the rail. -/
def mark (stoploss : Stoploss) (pnlPct pace : ℚ) : Stoploss :=
  let stoploss := { stoploss with
    previousPnLPct := stoploss.currentPnLPct
    currentPnLPct := pnlPct
    peakPnLPct := max stoploss.peakPnLPct pnlPct }
  let stoploss := stoploss.breathe pnlPct pace
  if stoploss.floorPnLPct < stoploss.maxLossPct then
    { stoploss with floorPnLPct := stoploss.maxLossPct }
  else stoploss

/-- `Stoploss.Update`. -/
def update (stoploss : Stoploss) (pnlPct pace : ℚ) : Stoploss :=
  if stoploss.state = .triggered then stoploss
  else
    let stoploss := stoploss.mark pnlPct pace
    if pnlPct ≤ stoploss.floorPnLPct then { stoploss with state := .triggered }
    else if stoploss.profitTargetPct ≤ pnlPct then
      { stoploss with
        state := .locked
        floorPnLPct := if stoploss.floorPnLPct < 0 then 0 else stoploss.floorPnLPct }
    else { stoploss with state := stoploss.health pnlPct }

end Stoploss

end Symm.Broker
