import Symm.Broker.Allocation

/-!
# Which vettings panic

`Price.Fee` is nil for a symbol that the account's fee schedule leaves out.
`afterFee` and `roundTrip` test for that; `Allocate`, `Friction` and
`openDragCapPct` call a method on it. Which of them comes to the fee first depends
on the wallet and on the book, and so does whether `Allocate` comes to a divisor
of zero.

A panic is an outcome of its own here, and `Returns` says that a call has none. For a
sequence of calls `returns_bind` reduces it to the first one and to what follows its
result, so each entry point has one lemma that says under which readings it comes to the
fee or to the divisor:

- `returns_allocate`: behind a positive budget (`Funded`), the fee; behind a touch
  (`Touched`), the divisor;
- `returns_friction`: the fee behind a known spread;
- `returns_checkBookPhysical`: whatever `Allocate` does, on a book that is deep enough
  (`Deep`);
- `vetting_returns_iff`: the four together, with the fees that are read on the way.
-/

namespace Symm.Broker

open Symm.System Symm.Lib

/-- A call that comes to an end without a panic. -/
def Returns {α : Type} (call : Except Fault α) : Prop := ∃ result, call = .ok result

@[simp] theorem returns_ok {α : Type} (a : α) : Returns (.ok a : Except Fault α) := ⟨a, rfl⟩

@[simp] theorem not_returns_error {α : Type} (fault : Fault) :
    ¬ Returns (.error fault : Except Fault α) := by
  rintro ⟨result, ⟨⟩⟩

/-- A sequence of calls returns when the first does and what it is followed by. -/
theorem returns_bind {α β : Type} {call : Except Fault α} {next : α → Except Fault β} :
    Returns (call >>= next) ↔ Returns call ∧ ∀ a, call = .ok a → Returns (next a) := by
  cases call with
  | error fault => exact iff_of_false (not_returns_error fault) fun h => not_returns_error fault h.1
  | ok a =>
    constructor
    · intro h
      refine ⟨returns_ok a, ?_⟩
      rintro _ ⟨⟩
      exact h
    · rintro ⟨-, h⟩
      exact h a rfl

namespace Price

variable (price : Price) (risk : Risk) (symbol : String)

/-- `Allocate` comes to the fee: a wallet with known cash, both limits set, and a
positive budget. -/
def Funded (wallet : Option Balance) : Prop :=
  ∃ desk cash qtyMin costMin, (wallet.orElse fun _ => price.balance) = some desk ∧
    desk.cashFor (price.pair symbol).quote = some cash ∧
    (price.pair symbol).qtyMin = some qtyMin ∧ (price.pair symbol).costMin = some costMin ∧
    0 < cash * risk.maxFraction

/-- `Allocate` comes to the touch cap: a readable book that is ready, with a
positive best bid. -/
def Touched : Prop :=
  ∃ managed touchBid, price.books symbol = some managed ∧ bookReady managed = true ∧
    managed.bids.head?.bind Level.quantity = some touchBid ∧ 0 < touchBid

/-- Nothing that a funded `Allocate` does with the fee and the divisor panics. -/
def Sizable : Prop :=
  ∃ fee, price.fee symbol = some fee ∧ 1 + fee * (1 / 100) ≠ 0 ∧
    (price.Touched symbol → risk.touchDivisor ≠ 0)

/-- The book passes the depth checks that come before the close-now price. -/
def Deep : Prop :=
  (price.touchBidCash symbol).all (· < risk.minTouchBidCash) = false ∧
    (price.backingRatio risk symbol).all (· < risk.minBackingRatio) = false

variable {price risk symbol}

section Sizing

variable {managed : ManagedBook} {pair : InstrumentPair}
  {fee budget grossBudget qtyMin costMin : Decimal}

/-- Without a touch nothing is divided by the divisor. -/
theorem returns_sizeOn_of_untouched (hbook : price.books symbol = some managed)
    (h : ¬ price.Touched symbol) :
    Returns (price.sizeOn risk managed symbol pair fee budget grossBudget qtyMin costMin) := by
  rw [sizeOn]
  split
  · exact returns_ok _
  · rename_i hready
    split
    · exact returns_ok _
    · rename_i touchBid htouch
      split
      · exact returns_ok _
      · rename_i hpos
        exact absurd ⟨managed, touchBid, hbook, not_not.mp hready, htouch, not_le.mp hpos⟩ h

/-- Where the book has a touch, the sizing divides by the divisor of the touch. -/
theorem returns_sizeOn_of_touched (hbook : price.books symbol = some managed)
    (h : price.Touched symbol) :
    Returns (price.sizeOn risk managed symbol pair fee budget grossBudget qtyMin costMin) ↔
      risk.touchDivisor ≠ 0 := by
  obtain ⟨managed', touchBid, hbook', hready, htouch, hpos⟩ := h
  obtain rfl : managed = managed' := Option.some.inj (hbook.symm.trans hbook')
  simp only [sizeOn, hready, not_true_eq_false, if_false, htouch, if_neg (not_le.mpr hpos)]
  by_cases hdivisor : risk.touchDivisor = 0
  · simp [checkedDiv, hdivisor]
  · rw [checkedDiv, if_neg hdivisor]
    refine iff_of_true ?_ hdivisor
    dsimp only
    split
    · exact returns_ok _
    · split
      · exact returns_ok _
      · exact returns_ok _

/-- Sizing returns unless it divides by a zero divisor at a touch. -/
theorem returns_sizeOn (hbook : price.books symbol = some managed) :
    Returns (price.sizeOn risk managed symbol pair fee budget grossBudget qtyMin costMin) ↔
      (price.Touched symbol → risk.touchDivisor ≠ 0) := by
  by_cases htouched : price.Touched symbol
  · simp only [htouched, forall_const]
    exact returns_sizeOn_of_touched hbook htouched
  · exact iff_of_true (returns_sizeOn_of_untouched hbook htouched) fun h => absurd h htouched

end Sizing

section Allocate

variable {wallet : Option Balance}

/-- Without a budget `Allocate` does not come to the fee. -/
theorem returns_allocate_of_unfunded (h : ¬ price.Funded risk symbol wallet) :
    Returns (price.allocate risk symbol wallet) := by
  rw [allocate]
  split
  · exact returns_ok _
  · rename_i desk hdesk
    dsimp only
    split
    · exact returns_ok _
    · rename_i cash hcash
      split
      · rename_i qtyMin costMin hqtyMin hcostMin
        split
        · exact returns_ok _
        · rename_i hbudget
          exact absurd ⟨desk, cash, qtyMin, costMin, hdesk, hcash, hqtyMin, hcostMin,
            not_le.mp hbudget⟩ h
      · exact returns_ok _

/-- With one it returns exactly when it can do with the fee and the divisor what it
does. -/
theorem returns_allocate_of_funded (h : price.Funded risk symbol wallet) :
    Returns (price.allocate risk symbol wallet) ↔ price.Sizable risk symbol := by
  obtain ⟨desk, cash, qtyMin, costMin, hdesk, hcash, hqtyMin, hcostMin, hpos⟩ := h
  simp only [Balance.cashFor] at hcash
  simp only [allocate, hdesk, hcash, hqtyMin, hcostMin, if_neg (not_le.mpr hpos)]
  -- a pair without a fee has no fee to multiply with
  cases hfee : price.fee symbol with
  | none =>
    refine iff_of_false (not_returns_error _) ?_
    rintro ⟨fee, hsome, -⟩
    rw [hfee] at hsome
    cases hsome
  | some fee =>
    have hsizable : price.Sizable risk symbol ↔
        1 + fee * (1 / 100) ≠ 0 ∧ (price.Touched symbol → risk.touchDivisor ≠ 0) := by
      simp [Sizable, hfee]
    rw [hsizable]
    by_cases hrate : 1 + fee * (1 / 100) = 0
    · simp only [checkedDiv, if_pos hrate]
      exact iff_of_false (not_returns_error _) fun h => h.1 hrate
    · rw [and_iff_right hrate]
      simp only [checkedDiv, if_neg hrate]
      split
      · rename_i managed hbook
        exact returns_sizeOn hbook
      -- without a book the touch is never divided
      · rename_i hbook
        have huntouched : ¬ price.Touched symbol := by
          rintro ⟨managed, _, hsome, -⟩
          rw [hbook] at hsome
          cases hsome
        refine iff_of_true ?_ fun h => absurd h huntouched
        split
        · exact returns_ok _
        · exact returns_ok _

/-- `Allocate` returns exactly when it does not come to the fee, or can do with
it and the divisor what it does. -/
theorem returns_allocate :
    Returns (price.allocate risk symbol wallet) ↔
      (price.Funded risk symbol wallet → price.Sizable risk symbol) := by
  by_cases hfunded : price.Funded risk symbol wallet
  · simp only [hfunded, forall_const]
    exact returns_allocate_of_funded hfunded
  · exact iff_of_true (returns_allocate_of_unfunded hfunded) fun h => absurd h hfunded

end Allocate

/-- `Friction` comes to the fee behind a known spread. -/
theorem returns_friction :
    Returns (price.friction symbol) ↔
      ((price.spreadPct symbol).isSome → (price.fee symbol).isSome) := by
  rw [friction]
  split
  · rename_i hspread
    simp [hspread]
  · rename_i spread hspread
    split
    · rename_i hfee
      simp [hspread, hfee]
    · rename_i fee hfee
      dsimp only
      split
      · simp [hfee]
      · simp [hfee]

/-- With a known fee the drag cap is found. -/
theorem returns_openDragCapPct {fee : Decimal} (hfee : price.fee symbol = some fee) :
    Returns (openDragCapPct price risk symbol) := by
  have hfriction : Returns (price.friction symbol) := returns_friction.mpr (by simp [hfee])
  rw [openDragCapPct, returns_bind, openDragBudgetPct, returns_bind]
  refine ⟨⟨hfriction, fun _ _ => returns_ok _⟩, fun _ _ => ?_⟩
  simp only [hfee]
  exact returns_ok _

/-- The close-now price is as safe as the allocation it starts from. -/
theorem returns_entryCloseNowPnLPct :
    Returns (price.entryCloseNowPnLPct risk symbol) ↔
      Returns (price.allocate risk symbol none) := by
  rw [entryCloseNowPnLPct, returns_bind]
  refine and_iff_left_of_imp fun _ result _ => ?_
  cases result with
  | error why => exact returns_ok _
  | ok qty =>
    dsimp only
    split
    · exact returns_ok _
    · split
      · exact returns_ok _
      · split
        · exact returns_ok _
        · exact returns_ok _

/-- A close-now price is only found with a known fee. -/
theorem fee_of_closeNow {closeNow : Decimal}
    (h : price.entryCloseNowPnLPct risk symbol = .ok (some closeNow)) :
    ∃ fee, price.fee symbol = some fee := by
  rw [entryCloseNowPnLPct] at h
  cases hallocate : price.allocate risk symbol none with
  | error fault =>
    rw [hallocate] at h
    cases h
  | ok result =>
    rw [hallocate] at h
    cases result with
    | error why => cases h
    | ok qty =>
      obtain ⟨_, _, _, _, fee, _, -, -, -, -, hfee, -⟩ := allocate_ok hallocate
      exact ⟨fee, hfee⟩

/-- The check of a book allocates only where the book is deep enough. -/
theorem returns_checkBookPhysical :
    Returns (checkBookPhysical price risk symbol) ↔
      (price.Deep risk symbol → Returns (price.allocate risk symbol none)) := by
  rw [checkBookPhysical]
  split
  · rename_i hcash
    exact iff_of_true (returns_ok _) fun h => absurd hcash (by simp [h.1])
  · rename_i hcash
    dsimp only
    split
    · rename_i hratio
      exact iff_of_true (returns_ok _) fun h => absurd hratio (by simp [h.2])
    · rename_i hratio
      have hdeep : price.Deep risk symbol :=
        ⟨Bool.eq_false_iff.mpr hcash, Bool.eq_false_iff.mpr hratio⟩
      simp only [hdeep, forall_const]
      rw [returns_bind, returns_entryCloseNowPnLPct]
      refine and_iff_left_of_imp fun _ closeNow hclose => ?_
      cases closeNow with
      | none => exact returns_ok _
      | some closeNow =>
        obtain ⟨fee, hfee⟩ := fee_of_closeNow hclose
        exact returns_bind.mpr ⟨returns_openDragCapPct hfee, fun _ _ => returns_ok _⟩

/-- Asking whether a book is intact returns exactly where its check does. -/
theorem returns_bookIntact :
    Returns (price.bookIntact risk symbol) ↔ Returns (checkBookPhysical price risk symbol) := by
  rw [bookIntact, returns_bind]
  exact and_iff_left_of_imp fun _ _ _ => returns_ok _

/-- The spread ceiling only spares checks. -/
theorem returns_checkEntryPhysical (h : Returns (checkBookPhysical price risk symbol)) :
    Returns (checkEntryPhysical (some price) risk symbol) := by
  rw [checkEntryPhysical]
  split
  · exact returns_ok _
  · exact h

/-- Vetting an entry never panics exactly when the symbol has a fee wherever one is
read: behind a known spread, behind a positive budget of the wallet, and behind a
positive budget of the desk once the book is deep; and behind these two the fee is
not a full rebate, nor the touch divisor zero where the touch is divided. -/
theorem vetting_returns_iff (price : Price) (risk : Risk) (symbol : String)
    (wallet : Option Balance) :
    (Returns (checkEntryPhysical (some price) risk symbol) ∧
      Returns (price.bookIntact risk symbol) ∧ Returns (price.friction symbol) ∧
      Returns (price.allocate risk symbol wallet)) ↔
    ((price.spreadPct symbol).isSome → (price.fee symbol).isSome) ∧
      (price.Funded risk symbol wallet ∨
        price.Deep risk symbol ∧ price.Funded risk symbol none → price.Sizable risk symbol) := by
  rw [returns_bookIntact, returns_friction, returns_allocate, or_imp, and_imp]
  have hbook : Returns (checkBookPhysical price risk symbol) ↔
      (price.Deep risk symbol → Returns (price.allocate risk symbol none)) :=
    returns_checkBookPhysical
  rw [returns_allocate] at hbook
  constructor
  · rintro ⟨-, hvet, hfriction, hwallet⟩
    exact ⟨hfriction, hwallet, hbook.mp hvet⟩
  · rintro ⟨hfriction, hwallet, hdesk⟩
    have hvet := hbook.mpr hdesk
    exact ⟨returns_checkEntryPhysical hvet, hvet, hfriction, hwallet⟩

end Price

/-- The market of `TestAllocateRespectsCashBudget` beside a symbol that the fee
schedule leaves out. -/
def partlyPricedPrice : Price where
  books := fun _ => some ⟨[⟨some 99, some 100000⟩], [⟨some 100, some 100000⟩], some 1,
    some (199 / 2)⟩
  blockReason := fun _ => ""
  fee := fun symbol => if symbol = "BBB/USD" then some (4 / 5) else none
  pair := fun _ => ⟨"USD", some (1 / 100), some 1, some (1 / 100)⟩
  balance := some ⟨"USD", fun _ => some 1000⟩
  formatSize := fun _ size => some (Decimal.truncate size 2)

/-- All four panic on it. -/
theorem Price.vetting_panics :
    checkEntryPhysical (some partlyPricedPrice) Cfg.defaults.risk "CCC/USD" =
        .error .nilDereference ∧
      partlyPricedPrice.bookIntact Cfg.defaults.risk "CCC/USD" = .error .nilDereference ∧
      partlyPricedPrice.friction "CCC/USD" = .error .nilDereference ∧
      partlyPricedPrice.allocate Cfg.defaults.risk "CCC/USD" (some ⟨"USD", fun _ => some 1000⟩) =
        .error .nilDereference := by
  refine ⟨by decide +kernel, by decide +kernel, by decide +kernel, by decide +kernel⟩

end Symm.Broker
