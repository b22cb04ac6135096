import Symm.Broker.Allocation

/-!
# The venue's minimum

Once `sizeBuy` has produced a fill, `Allocate` refuses it below the pair's
minimum quantity and minimum cost. The cost it compares is not the exact gross
of the walk but the rounded average price times the quantity, so it accepts from
`leastCost` on, which lies at most half a unit of the sixteenth price digit off.
The callback's test for an explicit wallet reads the variable that the desk
balance has replaced, so a learning lot is held to the same minimum.

- `Sizing`: what `Allocate` has read when it comes to the minimum, as a structure, with
  the fill that it then tests;
- `leastCost`: the least exact cost that the rounded test accepts;
- `refused_iff`: what is refused, for a wallet that was given;
- `refused_exactly_iff`: when the test is that of the exact cost: the gross is not
  between the two;
- `learning_lot_iff`: when a sizing without a wallet is treated as one.

Both theorems are about every sizing, so about every market, wallet and fill that
`Allocate` comes to the test with. Their two conditions share the interval of the
rounding and nothing else.
-/

namespace Symm.Broker

open Symm.System Symm.Lib

namespace Price

variable {price : Price} {risk : Risk} {symbol : String} {desk wallet : Balance}

/-- A sizing that came to the minimum: what `Allocate` read of a wallet and of the
market on its way there, and the fill that `sizeBuy` produced. -/
structure Sizing (price : Price) (risk : Risk) (symbol : String) (desk : Balance) where
  cash : Decimal
  qtyMin : Decimal
  costMin : Decimal
  fee : Decimal
  managed : ManagedBook
  touchBid : Decimal
  filled : Decimal
  gross : Decimal
  cash_eq : desk.cashFor (price.pair symbol).quote = some cash
  qtyMin_eq : (price.pair symbol).qtyMin = some qtyMin
  costMin_eq : (price.pair symbol).costMin = some costMin
  funded : 0 < cash * risk.maxFraction
  fee_eq : price.fee symbol = some fee
  rate_ne : 1 + fee * (1 / 100) ≠ 0
  book_eq : price.books symbol = some managed
  ready : bookReady managed = true
  touch_eq : managed.bids.head?.bind Level.quantity = some touchBid
  touched : 0 < touchBid
  divisor_ne : risk.touchDivisor ≠ 0
  sized : price.sizeBuy managed symbol (price.pair symbol) (some fee) (cash * risk.maxFraction)
    (Decimal.div (cash * risk.maxFraction) (1 + fee * (1 / 100)))
    (Decimal.div touchBid risk.touchDivisor) = .ok (filled, gross)

namespace Sizing

/-- Another wallet with the same cash is sized alike. -/
def withWallet (s : price.Sizing risk symbol desk)
    (hcash : wallet.cashFor (price.pair symbol).quote = desk.cashFor (price.pair symbol).quote) :
    price.Sizing risk symbol wallet :=
  { s with cash_eq := hcash.trans s.cash_eq }

/-- A fill that fits a budget has a positive cost. -/
theorem pos_of_fits {fee : Option Decimal} {budget gross : Decimal} (h : Fits fee budget gross) :
    0 < gross := by
  obtain ⟨total, htotal, -⟩ := h
  cases fee with
  | none => cases htotal
  | some fee =>
    by_contra hneg
    simp [afterFee, not_lt.mp hneg] at htotal

/-- A fill that was sized is of something, for something. -/
theorem fill_pos (s : price.Sizing risk symbol desk) : 0 < s.filled ∧ 0 < s.gross := by
  obtain ⟨cap, filled, gross, -, -, -, hpos, -, htrim⟩ := sizeBuy_ok s.sized
  obtain ⟨hfits, heq | ⟨-, hcut⟩⟩ := trim_ok 8 htrim
  · cases heq
    exact ⟨hpos, pos_of_fits hfits⟩
  · exact ⟨hcut.pos, pos_of_fits hfits⟩

/-- The least cost that passes for the minimum: half a unit of the sixteenth digit
under the least average price that reaches it, times the quantity. -/
def leastCost (filled costMin : Decimal) : Decimal :=
  filled * (((⌈costMin / filled * 10 ^ 16⌉ : ℚ) - 1 / 2) / 10 ^ 16)

theorem cost_lt_iff (s : price.Sizing risk symbol desk) :
    Decimal.div s.gross s.filled * s.filled < s.costMin ↔
      s.gross < leastCost s.filled s.costMin :=
  Decimal.div_mul_lt_iff s.fill_pos.2.le s.fill_pos.1 s.costMin

/-- The fill is below what the code takes for the minimum. -/
def Under (s : price.Sizing risk symbol desk) : Prop :=
  s.filled < s.qtyMin ∨ s.gross < leastCost s.filled s.costMin

/-- What `Allocate` makes of the fill: a refusal below the minimum, and else the
fill itself. -/
theorem allocate_cases (s : price.Sizing risk symbol desk) {given : Option Balance}
    (hgiven : (given.orElse fun _ => price.balance) = some desk) :
    (s.Under ∧ price.allocate risk symbol given = .ok (.error (.belowVenueMinimum s.filled
      s.qtyMin s.costMin (Decimal.div s.touchBid risk.touchDivisor)))) ∨
    (¬ s.Under ∧ price.allocate risk symbol given = .ok (.ok s.filled)) := by
  have hallocate : price.allocate risk symbol given =
      if s.filled < s.qtyMin ∨ Decimal.div s.gross s.filled * s.filled < s.costMin then
        .ok (.error (.belowVenueMinimum s.filled s.qtyMin s.costMin
          (Decimal.div s.touchBid risk.touchDivisor)))
      else .ok (.ok s.filled) := by
    rw [allocate_eq_sizeOn hgiven s.cash_eq s.qtyMin_eq s.costMin_eq s.funded s.fee_eq s.rate_ne
      s.book_eq]
    simp only [sizeOn, checkedDiv, s.ready, not_true_eq_false, if_false, s.touch_eq,
      if_neg (not_le.mpr s.touched), if_neg s.divisor_ne, s.sized]
  rw [hallocate]
  split
  · rename_i hmin
    rw [s.cost_lt_iff] at hmin
    exact .inl ⟨hmin, rfl⟩
  · rename_i hmin
    rw [s.cost_lt_iff] at hmin
    exact .inr ⟨hmin, rfl⟩

/-- The refusal is "below venue minimum". -/
def Refused (price : Price) (risk : Risk) (symbol : String) (given : Option Balance) : Prop :=
  ∃ filled qtyMin costMin touchCap, price.allocate risk symbol given =
    .ok (.error (.belowVenueMinimum filled qtyMin costMin touchCap))

/-- A wallet that is given is refused exactly under the minimum. -/
theorem refused_iff (s : price.Sizing risk symbol desk) {given : Option Balance}
    (hgiven : (given.orElse fun _ => price.balance) = some desk) :
    Refused price risk symbol given ↔ s.Under := by
  rcases s.allocate_cases hgiven with ⟨hunder, hrefused⟩ | ⟨hmeets, hgives⟩
  · exact iff_of_true ⟨_, _, _, _, hrefused⟩ hunder
  · refine iff_of_false ?_ hmeets
    rintro ⟨_, _, _, _, hrefused⟩
    rw [hgives] at hrefused
    cases hrefused

theorem given_iff (s : price.Sizing risk symbol desk) {given : Option Balance}
    (hgiven : (given.orElse fun _ => price.balance) = some desk) :
    price.allocate risk symbol given = .ok (.ok s.filled) ↔ ¬ s.Under := by
  rcases s.allocate_cases hgiven with ⟨hunder, hrefused⟩ | ⟨hmeets, hgives⟩
  · rw [hrefused]
    exact iff_of_false (by rintro ⟨⟩) (not_not.mpr hunder)
  · exact iff_of_true hgives hmeets

/-- The test is exact unless the gross lies between the minimum and the least cost
that passes for it. -/
theorem refused_exactly_iff (s : price.Sizing risk symbol wallet) :
    (Refused price risk symbol (some wallet) ↔ s.filled < s.qtyMin ∨ s.gross < s.costMin) ↔
      s.filled < s.qtyMin ∨
        ¬ (min s.costMin (leastCost s.filled s.costMin) ≤ s.gross ∧
          s.gross < max s.costMin (leastCost s.filled s.costMin)) := by
  rw [s.refused_iff rfl, Under]
  generalize leastCost s.filled s.costMin = least
  by_cases hqty : s.filled < s.qtyMin
  · simp [hqty]
  · simp only [hqty, false_or, min_le_iff, lt_max_iff]
    grind

/-- A learning lot is given, and an explicit wallet held to the minimum, exactly
when the fill meets it by either cost. -/
theorem learning_lot_iff (s : price.Sizing risk symbol desk) (hdesk : price.balance = some desk)
    (hcash : wallet.cashFor (price.pair symbol).quote = desk.cashFor (price.pair symbol).quote) :
    (price.allocate risk symbol none = .ok (.ok s.filled) ∧
      (price.allocate risk symbol (some wallet) = .ok (.ok s.filled) ↔
        s.qtyMin ≤ s.filled ∧ s.costMin ≤ s.gross)) ↔
      s.qtyMin ≤ s.filled ∧ max s.costMin (leastCost s.filled s.costMin) ≤ s.gross := by
  have hnone : price.allocate risk symbol none = .ok (.ok s.filled) ↔ ¬ s.Under :=
    s.given_iff hdesk
  have hsome : price.allocate risk symbol (some wallet) = .ok (.ok s.filled) ↔ ¬ s.Under :=
    (s.withWallet hcash).given_iff rfl
  rw [hnone, hsome, Under, max_le_iff]
  grind

end Sizing

end Price

/-- Two levels whose average price is ten thirds, and a minimum cost of what three
units of them cost. -/
def thirdsPrice : Price where
  books := fun _ => some ⟨[⟨some 1, some 9⟩], [⟨some 3, some 2⟩, ⟨some 4, some 1⟩], none, none⟩
  blockReason := fun _ => ""
  fee := fun _ => some (2 / 5)
  pair := fun _ => ⟨"USD", some 1, some 10, some (1 / 100)⟩
  balance := some ⟨"USD", fun _ => some 1000⟩
  formatSize := fun _ size => some (Decimal.truncate size 2)

/-- Three units of them. -/
def thirdsSizing : thirdsPrice.Sizing Cfg.defaults.risk "AAA/USD" ⟨"USD", fun _ => some 1000⟩ where
  cash := 1000
  qtyMin := 1
  costMin := 10
  fee := 2 / 5
  managed := ⟨[⟨some 1, some 9⟩], [⟨some 3, some 2⟩, ⟨some 4, some 1⟩], none, none⟩
  touchBid := 9
  filled := 3
  gross := 10
  cash_eq := rfl
  qtyMin_eq := rfl
  costMin_eq := rfl
  funded := by decide +kernel
  fee_eq := rfl
  rate_ne := by decide +kernel
  book_eq := rfl
  ready := by decide +kernel
  touch_eq := rfl
  touched := by decide +kernel
  divisor_ne := by decide +kernel
  sized := by decide +kernel

/-- A lot whose walk costs exactly the minimum is refused. -/
theorem Price.Sizing.exact_cost_refused :
    ¬ (Price.Sizing.Refused thirdsPrice Cfg.defaults.risk "AAA/USD"
        (some ⟨"USD", fun _ => some 1000⟩) ↔
      thirdsSizing.filled < thirdsSizing.qtyMin ∨ thirdsSizing.gross < thirdsSizing.costMin) := by
  have hrefused : Price.Sizing.Refused thirdsPrice Cfg.defaults.risk "AAA/USD"
      (some ⟨"USD", fun _ => some 1000⟩) := ⟨3, 1, 10, 3, by decide +kernel⟩
  have hmin : ¬ ((3 : ℚ) < 1 ∨ (10 : ℚ) < 10) := by norm_num
  exact fun h => hmin (h.mp hrefused)

/-- The market of `TestAllocateVirtualAllowsUnderVenueMin`. -/
def thinPrice : Price where
  books := fun _ => some ⟨[⟨some 99, some 30⟩], [⟨some 100, some 10000⟩], none, none⟩
  blockReason := fun _ => ""
  fee := fun _ => some (2 / 5)
  pair := fun _ => ⟨"USD", some 50, some 1, some 1⟩
  balance := some ⟨"USD", fun _ => some 100000⟩
  formatSize := fun _ size => some (Decimal.truncate size 0)

/-- Its touch cap is ten units. -/
def thinSizing : thinPrice.Sizing Cfg.defaults.risk "DDD/USD" ⟨"USD", fun _ => some 100000⟩ where
  cash := 100000
  qtyMin := 50
  costMin := 1
  fee := 2 / 5
  managed := ⟨[⟨some 99, some 30⟩], [⟨some 100, some 10000⟩], none, none⟩
  touchBid := 30
  filled := 10
  gross := 1000
  cash_eq := rfl
  qtyMin_eq := rfl
  costMin_eq := rfl
  funded := by decide +kernel
  fee_eq := rfl
  rate_ne := by decide +kernel
  book_eq := rfl
  ready := by decide +kernel
  touch_eq := rfl
  touched := by decide +kernel
  divisor_ne := by decide +kernel
  sized := by decide +kernel

theorem Price.Sizing.learning_lot_sample :
    (thinPrice.allocate Cfg.defaults.risk "DDD/USD" none = .ok (.ok thinSizing.filled) ∧
      (thinPrice.allocate Cfg.defaults.risk "DDD/USD" (some ⟨"EUR", fun _ => some 100000⟩) =
        .ok (.ok thinSizing.filled) ↔
        thinSizing.qtyMin ≤ thinSizing.filled ∧ thinSizing.costMin ≤ thinSizing.gross)) ↔
      thinSizing.qtyMin ≤ thinSizing.filled ∧
        max thinSizing.costMin (leastCost thinSizing.filled thinSizing.costMin) ≤
          thinSizing.gross :=
  Price.Sizing.learning_lot_iff thinSizing rfl rfl

/-- The desk's learning lot of ten units is refused below fifty. -/
theorem Price.Sizing.learning_lot_refused :
    thinSizing.filled = 10 ∧ thinPrice.allocate Cfg.defaults.risk "DDD/USD" none =
      .ok (.error (.belowVenueMinimum 10 50 1 10)) := by
  refine ⟨rfl, by decide +kernel⟩

end Symm.Broker
