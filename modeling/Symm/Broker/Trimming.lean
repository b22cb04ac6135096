import Symm.Broker.Allocation

/-!
# The trim loop needs two cuts

The first walk of `sizeBuy` may cost more than the budget: each level rounds the
quotient of the cash and its price, and so does the gross budget. The loop cuts
the fill by the rounded quotient of the excess and the best ask, and never by
less than the quantity increment. A unit cut off saves at least the best ask, so
what one cut leaves over the budget is the error of one rounded quotient, half a
unit of the sixteenth digit; an increment of one unit of the fifteenth is worth
more than that, so the second cut ends the loop.

- `Trims k`: the loop makes `k` cuts and ends for one of three reasons, none of
  which is that it ran out of iterations;
- `Trims.trim_eq`: then any larger number of iterations gives that answer;
- `Excess.turn`: what one cut leaves;
- `two_trims`: at most two cuts.
-/

namespace Symm.Broker

open Symm.Lib

/-- The quotient is rounded by at most half a unit of the sixteenth digit. -/
theorem Decimal.div_ge {a b : ℚ} (ha : 0 ≤ a) (hb : 0 < b) :
    a / b - 1 / (2 * 10 ^ 16) ≤ Decimal.div a b := by
  have hfloor := Int.lt_floor_add_one (a / b * 10 ^ 16 + 1 / 2)
  rw [Decimal.div_eq ha hb, le_div_iff₀ (by positivity)]
  linarith

/-- Every ask has a positive price, and the prices do not fall. -/
structure AscendingAsks (managed : ManagedBook) : Prop where
  priced : ∀ level ∈ managed.asks, ∃ px, level.price = some px ∧ 0 < px
  ascending : managed.asks.Pairwise fun a b =>
    ∀ px, a.price = some px → ∀ px', b.price = some px' → px ≤ px'

namespace AscendingAsks

variable {managed : ManagedBook}

theorem offers (h : AscendingAsks managed) : Ascending (offers managed.asks) := by
  refine List.pairwise_filterMap.mpr (h.ascending.imp ?_)
  rintro a b hab ⟨px, qty⟩ ha ⟨px', qty'⟩ hb
  exact hab px (Level.offer_eq_some ha).1 px' (Level.offer_eq_some hb).1

/-- The best ask undercuts every offer. -/
theorem best (h : AscendingAsks managed) {offer : Decimal × Decimal}
    (hmem : offer ∈ Broker.offers managed.asks) :
    ∃ ask, managed.asks.head?.bind Level.price = some ask ∧ 0 < ask ∧
      ∀ o ∈ Broker.offers managed.asks, ask ≤ o.1 := by
  obtain ⟨hpriced, hasc⟩ := h
  cases hasks : managed.asks with
  | nil =>
    rw [hasks] at hmem
    cases hmem
  | cons level rest =>
    rw [hasks] at hpriced hasc
    obtain ⟨ask, hask, hpos⟩ := hpriced level List.mem_cons_self
    refine ⟨ask, hask, hpos, ?_⟩
    rintro ⟨px, qty⟩ ho
    obtain ⟨l, hl, hoffer⟩ := List.mem_filterMap.mp ho
    have hpx := (Level.offer_eq_some hoffer).1
    rcases List.mem_cons.mp hl with rfl | hl
    · rw [hask] at hpx
      exact (Option.some.inj hpx).le
    · exact (List.pairwise_cons.mp hasc).1 l hl ask hask px hpx

end AscendingAsks

namespace Price

/-! ## The cuts -/

/-- How much an iteration cuts off a fill that costs `total`. -/
def cutOf (pair : InstrumentPair) (budget total ask : Decimal) : Decimal :=
  let cut := Decimal.div (total - budget) ask
  match pair.qtyIncrement with
  | some step => if 0 < step ∧ cut < step then step else cut
  | none => cut

/-- What is left of the fill, as the formatter leaves it. -/
def leftOf (price : Price) (symbol : String) (filled cut : Decimal) : Decimal :=
  (price.formatSize symbol (filled - cut)).getD (filled - cut)

section Loop

variable (price : Price) (managed : ManagedBook) (symbol : String) (pair : InstrumentPair)
  (fee : Option Decimal) (budget ask : Decimal) (fail : SizeRefusal)

/-- `Trims k filled gross r`: from the fill on, the loop makes `k` cuts and ends
with `r`, because the fill fits, or does not exceed the cut, or nothing is left
of it. -/
inductive Trims : ℕ → Decimal → Decimal → Except SizeRefusal (Decimal × Decimal) → Prop
  | fits {filled gross : Decimal} : Fits fee budget gross →
      Trims 0 filled gross (.ok (filled, gross))
  | beyond {filled gross total : Decimal} : afterFee gross fee .buy = some total →
      budget < total → filled ≤ cutOf pair budget total ask →
      Trims 0 filled gross (.error fail)
  | empty {filled gross total : Decimal} : afterFee gross fee .buy = some total →
      budget < total → 0 < cutOf pair budget total ask → cutOf pair budget total ask < filled →
      price.leftOf symbol filled (cutOf pair budget total ask) ≤ 0 →
      -- nothing but zero, unless the formatter turns a size into a debt
      ((∀ size sized, 0 < size → price.formatSize symbol size = some sized → 0 ≤ sized) →
        price.leftOf symbol filled (cutOf pair budget total ask) = 0) →
      Trims 0 filled gross (.error (.trimWalkFailed (some .invalid)))
  | cut {k : ℕ} {filled gross total gross' : Decimal}
      {r : Except SizeRefusal (Decimal × Decimal)} : afterFee gross fee .buy = some total →
      budget < total → 0 < cutOf pair budget total ask → cutOf pair budget total ask < filled →
      0 < price.leftOf symbol filled (cutOf pair budget total ask) →
      price.leftOf symbol filled (cutOf pair budget total ask) < filled →
      consume managed (some (price.leftOf symbol filled (cutOf pair budget total ask))) none
        .buy = .ok (price.leftOf symbol filled (cutOf pair budget total ask), gross') →
      Trims k (price.leftOf symbol filled (cutOf pair budget total ask)) gross' r →
      Trims (k + 1) filled gross r

end Loop

variable {price : Price} {managed : ManagedBook} {symbol : String} {pair : InstrumentPair}
  {fee : Option Decimal} {budget ask : Decimal} {fail : SizeRefusal}

/-- One iteration on a fill beyond the budget. -/
theorem trim_over (hask : 0 < ask) {filled gross total : Decimal}
    (htotal : afterFee gross fee .buy = some total) (hover : budget < total) (fuel : ℕ) :
    price.trim managed symbol pair fee budget (some ask) fail (fuel + 1) filled gross =
      if cutOf pair budget total ask ≤ 0 ∨ filled ≤ cutOf pair budget total ask then .error fail
      else if filled ≤ price.leftOf symbol filled (cutOf pair budget total ask) then .error fail
      else match consume managed
          (some (price.leftOf symbol filled (cutOf pair budget total ask))) none .buy with
        | .error err => .error (.trimWalkFailed (some err))
        | .ok (filled, gross) =>
          if filled ≤ 0 then .error (.trimWalkFailed none)
          else price.trim managed symbol pair fee budget (some ask) fail fuel filled gross := by
  rw [trim, htotal]
  dsimp only
  rw [if_neg (not_le.mpr hover), if_neg (not_le.mpr hask)]
  rfl

/-- The answer does not depend on the number of iterations, if it exceeds that of
the cuts. -/
theorem Trims.trim_eq (hask : 0 < ask) {k : ℕ} {filled gross : Decimal}
    {r : Except SizeRefusal (Decimal × Decimal)}
    (h : Trims price managed symbol pair fee budget ask fail k filled gross r) {fuel : ℕ}
    (hk : k < fuel) :
    price.trim managed symbol pair fee budget (some ask) fail fuel filled gross = r := by
  induction h generalizing fuel with
  | fits hfits =>
    obtain ⟨fuel, rfl⟩ := Nat.exists_eq_succ_of_ne_zero hk.ne_bot
    obtain ⟨total, htotal, hle⟩ := hfits
    rw [Nat.succ_eq_add_one, trim, htotal]
    exact if_pos hle
  | beyond htotal hover hbeyond =>
    obtain ⟨fuel, rfl⟩ := Nat.exists_eq_succ_of_ne_zero hk.ne_bot
    rw [Nat.succ_eq_add_one, trim_over hask htotal hover, if_pos (.inr hbeyond)]
  | empty htotal hover hcut hlt hempty _ =>
    obtain ⟨fuel, rfl⟩ := Nat.exists_eq_succ_of_ne_zero hk.ne_bot
    have hgo : ¬ (_ ∨ _) := not_or.mpr ⟨not_le.mpr hcut, not_le.mpr hlt⟩
    have hless := not_le.mpr (hempty.trans_lt (hcut.trans hlt))
    rw [Nat.succ_eq_add_one, trim_over hask htotal hover, if_neg hgo, if_neg hless]
    simp only [consume, if_pos hempty]
  | cut htotal hover hcut hlt hpos hless hwalk _ ih =>
    obtain ⟨fuel, rfl⟩ := Nat.exists_eq_succ_of_ne_zero hk.ne_bot
    have hgo : ¬ (_ ∨ _) := not_or.mpr ⟨not_le.mpr hcut, not_le.mpr hlt⟩
    rw [Nat.succ_eq_add_one, trim_over hask htotal hover, if_neg hgo, if_neg (not_le.mpr hless),
      hwalk]
    dsimp only
    rw [if_neg (not_le.mpr hpos)]
    exact ih (Nat.lt_of_succ_lt_succ hk)

/-! ## What one cut leaves -/

/-- The cut pays for the excess up to the rounding, and is no less than the
increment. -/
theorem cutOf_ge {total step : Decimal} (hover : budget < total) (hask : 0 < ask)
    (hstep : pair.qtyIncrement = some step) (hpos : 0 < step) :
    (total - budget) / ask - 1 / (2 * 10 ^ 16) ≤ cutOf pair budget total ask ∧
      step ≤ cutOf pair budget total ask := by
  have hdiv := Decimal.div_ge (sub_nonneg.mpr hover.le) hask
  rw [cutOf, hstep]
  dsimp only
  split
  · rename_i hless
    exact ⟨hdiv.trans hless.2.le, le_refl step⟩
  · rename_i hmore
    rw [not_and, not_lt] at hmore
    exact ⟨hdiv, hmore hpos⟩

/-- The cost of a fill with the fee is known. -/
theorem Lifted.afterFee {offers : List (Decimal × Decimal)} (hs : Positive offers)
    {filled gross : Decimal} (h : Lifted offers filled gross) (fee : Decimal) :
    Broker.afterFee gross (some fee) .buy = some (gross * (1 + 1 / 100 * fee)) := by
  have hgross : 0 < gross := (lift_pos hs h.pos (h.pos.trans_le h.held)).trans_le h.cost
  unfold Broker.afterFee
  dsimp only
  rw [if_neg (not_le.mpr hgross)]

/-- A cut by the rounded quotient of the excess leaves less over the budget than
one unit of the fifteenth digit is worth. -/
theorem near_of_cut {gross gross' cut rate : Decimal} (hask : 0 < ask) (hrate : 1 ≤ rate)
    (hover : budget < gross * rate)
    (hcut : (gross * rate - budget) / ask - 1 / (2 * 10 ^ 16) ≤ cut)
    (hgross : gross' ≤ gross - ask * cut) : (gross' - ask * (1 / 10 ^ 15)) * rate ≤ budget := by
  have hsaved : gross * rate - budget - ask * (1 / (2 * 10 ^ 16)) ≤ ask * cut := by
    have := mul_le_mul_of_nonneg_left hcut hask.le
    rwa [mul_sub, mul_div_cancel₀ _ hask.ne'] at this
  have hexcess : 0 ≤ (gross * rate - budget) * (rate - 1) :=
    mul_nonneg (sub_nonneg.mpr hover.le) (sub_nonneg.mpr hrate)
  have hunits : 0 ≤ ask * rate * (1 / 10 ^ 15 - 1 / (2 * 10 ^ 16)) :=
    mul_nonneg (mul_nonneg hask.le (zero_le_one.trans hrate)) (by norm_num)
  calc (gross' - ask * (1 / 10 ^ 15)) * rate
      ≤ (gross - (gross * rate - budget - ask * (1 / (2 * 10 ^ 16))) - ask * (1 / 10 ^ 15)) *
          rate := mul_le_mul_of_nonneg_right (by linarith) (zero_le_one.trans hrate)
    _ = budget - (gross * rate - budget) * (rate - 1) -
          ask * rate * (1 / 10 ^ 15 - 1 / (2 * 10 ^ 16)) := by ring
    _ ≤ budget := by linarith

/-- A fill that costs no more than the budget, fee included, fits. -/
theorem Lifted.trims {filled gross rate : Decimal} (h : Lifted (offers managed.asks) filled gross)
    (hle : gross * (1 + 1 / 100 * rate) ≤ budget) :
    Trims price managed symbol pair (some rate) budget ask fail 0 filled gross
      (.ok (filled, gross)) :=
  .fits ⟨_, h.afterFee (positive_offers _) rate, hle⟩

/-- What a trim rests on: the market, and the quantities the venue gives. -/
structure Trimmable (price : Price) (managed : ManagedBook) (symbol : String)
    (pair : InstrumentPair) (fee ask : Decimal) : Prop where
  best : ∀ offer ∈ offers managed.asks, ask ≤ offer.1
  ask_pos : 0 < ask
  fee_nonneg : 0 ≤ fee
  step : ∃ step, pair.qtyIncrement = some step ∧ 1 / 10 ^ 15 ≤ step
  format : ∀ size sized, 0 < size → price.formatSize symbol size = some sized → sized ≤ size

section Turn

variable {rate : Decimal} (ht : Trimmable price managed symbol pair rate ask)
include ht

/-- One iteration on a fill beyond the budget: the loop ends, or it goes on with
a fill that costs less by the best ask for each unit cut off. -/
theorem Trimmable.turn {filled gross : Decimal} (h : Lifted (offers managed.asks) filled gross)
    (hover : budget < gross * (1 + 1 / 100 * rate)) :
    (∃ r, Trims price managed symbol pair (some rate) budget ask fail 0 filled gross r) ∨
    ∃ next gross', Lifted (offers managed.asks) next gross' ∧
      gross' ≤ gross - ask * cutOf pair budget (gross * (1 + 1 / 100 * rate)) ask ∧
      ∀ k r, Trims price managed symbol pair (some rate) budget ask fail k next gross' r →
        Trims price managed symbol pair (some rate) budget ask fail (k + 1) filled gross r := by
  have htotal := h.afterFee (positive_offers _) rate
  obtain ⟨step, hstep, hunit⟩ := ht.step
  have hpos : 0 < step := lt_of_lt_of_le (by norm_num) hunit
  have hcut : 0 < cutOf pair budget (gross * (1 + 1 / 100 * rate)) ask :=
    hpos.trans_le (cutOf_ge hover ht.ask_pos hstep hpos).2
  generalize hc : cutOf pair budget (gross * (1 + 1 / 100 * rate)) ask = cut at hcut ⊢
  rcases le_or_gt filled cut with hle | hlt
  · exact .inl ⟨_, .beyond htotal hover (hc.symm ▸ hle)⟩
  -- what the formatter leaves is no more than what it is given
  have hpart : 0 < filled - cut := sub_pos.mpr hlt
  have hleft : price.leftOf symbol filled cut ≤ filled - cut := by
    unfold leftOf
    cases hsized : price.formatSize symbol (filled - cut) with
    | none => exact le_refl _
    | some sized => exact ht.format _ sized hpart hsized
  rcases le_or_gt (price.leftOf symbol filled cut) 0 with hempty | hsome
  · refine .inl ⟨_, .empty htotal hover (hc.symm ▸ hcut) (hc.symm ▸ hlt) (hc.symm ▸ hempty) ?_⟩
    intro hdebt
    rw [hc]
    refine le_antisymm hempty ?_
    unfold leftOf
    cases hsized : price.formatSize symbol (filled - cut) with
    | none => exact hpart.le
    | some sized => exact hdebt _ sized hpart hsized
  · have hless : price.leftOf symbol filled cut < filled :=
      hleft.trans_lt (sub_lt_self filled hcut)
    have hheld := hless.le.trans h.held
    have hwalk := (consume_uncapped managed hsome .buy).1 hheld
    have hslope := lift_slope (stocked_offers managed.asks) ht.best hsome.le hless.le h.held
    have hsaved : ask * cut ≤ ask * (filled - price.leftOf symbol filled cut) :=
      mul_le_mul_of_nonneg_left (by linarith) ht.ask_pos.le
    refine .inr ⟨_, _, ⟨hsome, hheld, le_refl _⟩, ?_, fun k r hk => ?_⟩
    · have hcost := h.cost
      linarith
    · exact .cut htotal hover (hc.symm ▸ hcut) (hc.symm ▸ hlt) (hc.symm ▸ hsome)
        (hc.symm ▸ hless) (hc.symm ▸ hwalk) (hc.symm ▸ hk)

/-- From a fill that one increment brings within the budget, one cut is enough. -/
theorem Trimmable.one_cut {filled gross : Decimal}
    (h : Lifted (offers managed.asks) filled gross)
    (hnear : (gross - ask * (1 / 10 ^ 15)) * (1 + 1 / 100 * rate) ≤ budget) :
    ∃ k ≤ 1, ∃ r, Trims price managed symbol pair (some rate) budget ask fail k filled gross r := by
  rcases le_or_gt (gross * (1 + 1 / 100 * rate)) budget with hle | hover
  · exact ⟨0, zero_le_one, _, h.trims hle⟩
  rcases ht.turn h hover with ⟨r, hend⟩ | ⟨next, gross', hnext, hgross, hgo⟩
  · exact ⟨0, zero_le_one, r, hend⟩
  · obtain ⟨step, hstep, hunit⟩ := ht.step
    have hcut := (cutOf_ge hover ht.ask_pos hstep (lt_of_lt_of_le (by norm_num) hunit)).2
    have hsaved : ask * (1 / 10 ^ 15) ≤
        ask * cutOf pair budget (gross * (1 + 1 / 100 * rate)) ask :=
      mul_le_mul_of_nonneg_left (hunit.trans hcut) ht.ask_pos.le
    have hrate : 0 ≤ 1 + 1 / 100 * rate := by
      have := ht.fee_nonneg
      positivity
    have hfit : gross' * (1 + 1 / 100 * rate) ≤ budget :=
      (mul_le_mul_of_nonneg_right (by linarith) hrate).trans hnear
    exact ⟨1, le_refl 1, _, hgo 0 _ (hnext.trims hfit)⟩

/-- From any fill, two cuts are enough. -/
theorem Trimmable.two_cuts (budget : Decimal) (fail : SizeRefusal) {filled gross : Decimal}
    (h : Lifted (offers managed.asks) filled gross) :
    ∃ k ≤ 2, ∃ r, Trims price managed symbol pair (some rate) budget ask fail k filled gross r := by
  rcases le_or_gt (gross * (1 + 1 / 100 * rate)) budget with hle | hover
  · exact ⟨0, zero_le_two, _, h.trims hle⟩
  rcases ht.turn h hover with ⟨r, hend⟩ | ⟨next, gross', hnext, hgross, hgo⟩
  · exact ⟨0, zero_le_two, r, hend⟩
  · obtain ⟨step, hstep, hunit⟩ := ht.step
    have hcut := (cutOf_ge hover ht.ask_pos hstep (lt_of_lt_of_le (by norm_num) hunit)).1
    have hrate : 1 ≤ 1 + 1 / 100 * rate := by
      have := ht.fee_nonneg
      linarith
    obtain ⟨k, hk, r, hend⟩ :=
      ht.one_cut hnext (near_of_cut ht.ask_pos hrate hover hcut hgross)
    exact ⟨k + 1, Nat.succ_le_succ hk, r, hgo k r hend⟩

end Turn

/-! ## sizeBuy -/

/-- A capped walk that succeeds was asked for something. -/
theorem walk_of_consume {need cash : Decimal} {fill : Decimal × Decimal}
    (h : consume managed (some need) (some cash) .buy = .ok fill) :
    0 < need ∧ walk managed.asks need (some cash) 0 0 = fill := by
  unfold consume at h
  dsimp only at h
  split at h
  · cases h
  · rename_i hneed
    exact ⟨not_le.mp hneed, by simpa using h⟩

/-- A first walk that costs something fills something. -/
theorem filled_pos {levels : List Level} {need cash filled gross : Decimal} (hn : 0 < need)
    (h : walk levels need (some cash) 0 0 = (filled, gross)) (hg : 0 < gross) : 0 < filled := by
  obtain ⟨hfill, hcost⟩ := walk_capped levels hn.le cash 0 0
  rw [h, zero_add] at hfill
  by_contra hnot
  have hnone : (bought (offers levels) cash).1 ≤ 0 := by
    have hmin : min need (bought (offers levels) cash).1 ≤ 0 := hfill ▸ not_lt.mp hnot
    exact (min_le_iff.mp hmin).resolve_left (not_le.mpr hn)
  have hgross := hcost (hnone.trans hn.le)
  rw [h, bought_nothing hnone, add_zero] at hgross
  exact hg.ne' hgross

/-- Where the first walk costs more than the budget with the fee, `sizeBuy` makes
at most two cuts and then returns a fill that fits, or refuses because the fill
does not exceed the cut or because nothing is left of it; any larger number of
iterations than three would do as well as eight. -/
theorem two_trims {budget rate filled gross : Decimal} (grossBudget touchCap : Decimal)
    (hasks : AscendingAsks managed) (hfee : 0 ≤ rate)
    (hstep : ∃ step, pair.qtyIncrement = some step ∧ 1 / 10 ^ 15 ≤ step)
    (hformat : ∀ size sized, 0 < size → price.formatSize symbol size = some sized → sized ≤ size)
    (htouch : 0 < touchCap)
    (hwalk : consume managed (some ((price.formatSize symbol touchCap).getD touchCap))
      (some grossBudget) .buy = .ok (filled, gross))
    (hover : Over (some rate) budget gross) :
    ∃ ask, managed.asks.head?.bind Level.price = some ask ∧ ∃ k ≤ 2,
      Trims price managed symbol pair (some rate) budget ask (.cannotTrim budget filled) k
        filled gross
        (price.sizeBuy managed symbol pair (some rate) budget grossBudget touchCap) ∧
      ∀ fuel, 3 ≤ fuel →
        price.trim managed symbol pair (some rate) budget (some ask) (.cannotTrim budget filled)
          fuel filled gross =
          price.sizeBuy managed symbol pair (some rate) budget grossBudget touchCap := by
  obtain ⟨total, htotal, hbudget⟩ := hover
  have hgross : 0 < gross := by
    by_contra hnot
    rw [afterFee, if_pos (not_lt.mp hnot)] at htotal
    cases htotal
  -- the first walk fills something that the asks hold
  generalize hcap : (price.formatSize symbol touchCap).getD touchCap = cap at hwalk
  obtain ⟨hq, hfirst⟩ := walk_of_consume hwalk
  have hpos := filled_pos hq hfirst hgross
  have hlifted : Lifted (offers managed.asks) filled gross :=
    lifted_of_walk hasks.offers hq hpos hfirst
  obtain ⟨offer, hmem⟩ : ∃ offer, offer ∈ offers managed.asks := by
    refine List.exists_mem_of_ne_nil _ fun hnil => ?_
    have hheld := hlifted.held
    rw [hnil, depth_nil] at hheld
    exact absurd hpos (not_lt.mpr hheld)
  obtain ⟨ask, hask, haskpos, hbest⟩ := hasks.best hmem
  have ht : Trimmable price managed symbol pair rate ask :=
    ⟨hbest, haskpos, hfee, hstep, hformat⟩
  obtain ⟨k, hk, r, htrims⟩ :=
    ht.two_cuts budget (.cannotTrim budget filled) hlifted
  have hsize : price.sizeBuy managed symbol pair (some rate) budget grossBudget touchCap = r := by
    unfold sizeBuy
    rw [if_neg (not_le.mpr htouch), hcap]
    dsimp only
    rw [hwalk]
    dsimp only
    rw [if_neg (not_le.mpr hpos), hask]
    exact htrims.trim_eq haskpos (by omega)
  rw [hsize]
  exact ⟨ask, hask, k, hk, htrims, fun fuel hfuel => htrims.trim_eq haskpos (by omega)⟩

end Price

/-- A best ask that does not divide the budget, and one above it. -/
def overrunBook : ManagedBook := ⟨[], [⟨some 3, some 10⟩, ⟨some 4, some 10⟩], none, none⟩

/-- A venue that takes sizes of two fraction digits. -/
def overrunPrice : Price where
  books := fun _ => some overrunBook
  blockReason := fun _ => ""
  fee := fun _ => some 0
  pair := fun _ => ⟨"USD", some (1 / 100), some 1, some (1 / 100)⟩
  balance := none
  formatSize := fun _ size => some (Decimal.truncate size 2)

/-- The first walk overruns the budget of two by its rounding, and one increment
is cut off. -/
theorem Price.two_trims_overrun : ∃ k ≤ 2,
    Price.Trims overrunPrice overrunBook "BBB/USD" (overrunPrice.pair "BBB/USD") (some 0) 2 3
      (.cannotTrim 2 (6666666666666667 / 10 ^ 16)) k (6666666666666667 / 10 ^ 16)
      (20000000000000001 / 10 ^ 16) (.ok (65 / 100, 195 / 100)) := by
  have hasks : AscendingAsks overrunBook := by
    refine ⟨?_, ?_⟩
    · intro level hlevel
      simp only [overrunBook, List.mem_cons, List.not_mem_nil, or_false] at hlevel
      rcases hlevel with rfl | rfl
      · exact ⟨3, rfl, by norm_num⟩
      · exact ⟨4, rfl, by norm_num⟩
    · refine List.pairwise_pair.mpr ?_
      rintro px ⟨⟩ px' ⟨⟩
      norm_num
  have hstep : ∃ step, (overrunPrice.pair "BBB/USD").qtyIncrement = some step ∧
      1 / 10 ^ 15 ≤ step := ⟨1 / 100, rfl, by norm_num⟩
  have hformat : ∀ size sized, 0 < size → overrunPrice.formatSize "BBB/USD" size = some sized →
      sized ≤ size := by
    rintro size sized hsize ⟨⟩
    exact Decimal.truncate_le hsize.le 2
  -- the walk has taken the rounded quotient, which costs a little more than the cash
  have hover : Price.Over (some 0) 2 (20000000000000001 / 10 ^ 16) :=
    ⟨20000000000000001 / 10 ^ 16, by decide +kernel, by norm_num⟩
  have hwalk : consume overrunBook (some ((overrunPrice.formatSize "BBB/USD" 5).getD 5)) (some 2)
      .buy = .ok (6666666666666667 / 10 ^ 16, 20000000000000001 / 10 ^ 16) := by decide +kernel
  obtain ⟨ask, hask, k, hk, htrims, -⟩ :=
    Price.two_trims 2 5 hasks (le_refl 0) hstep hformat (by norm_num) hwalk hover
  obtain rfl : (3 : Decimal) = ask := Option.some.inj hask
  have hsize : overrunPrice.sizeBuy overrunBook "BBB/USD" (overrunPrice.pair "BBB/USD") (some 0)
      2 2 5 = .ok (65 / 100, 195 / 100) := by decide +kernel
  rw [hsize] at htrims
  exact ⟨k, hk, htrims⟩

end Symm.Broker
