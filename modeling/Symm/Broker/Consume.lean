import Symm.Broker.Walk

/-!
# What `consume` promises

Without a cash cap the walk is exact: it fills the quantity it was asked for, or
the whole side and says so, and in the order of the levels nothing is cheaper to
buy nor dearer to sell. With a cap it may take the rounded quotient of the cash
and a price, and a quotient rounded up costs more than the cash; `Covered` says
of a side, a need and the cash when no level does that.

- `consume_exact`: success exactly at sufficient depth, and the optimal gross, from the
  exchange argument of `Lib.Offers` on the valid levels of the side;
- `walk_take_covered_iff`: one offer of a capped walk: what is taken of it is within the
  cash, and what is left of the cash covers the rest;
- `consume_capped_iff`: the whole walk, by induction on the offers with the cash left.

A rounding error does not cancel along the walk: the cash that an offer has overspent is
not there for the next one, so the condition is asked of each offer that the walk
reaches, and not of the sum.
-/

namespace Symm.Broker

open Symm.Lib

/-! ## Without a cap -/

/-- An uncapped walk succeeds exactly when the valid levels of the side hold the
quantity, and then it fills that for the least cost of buying it or the greatest
proceeds of selling it; otherwise it reports the whole valid side. -/
theorem consume_exact (managed : ManagedBook) {maxQty : Decimal} (h : 0 < maxQty)
    (side : Direction) :
    ((∃ fill, consume managed (some maxQty) none side = .ok fill) ↔
      maxQty ≤ depth (managed.offers side)) ∧
    (∀ filled gross, consume managed (some maxQty) none side = .ok (filled, gross) →
      filled = maxQty ∧
      (side = .buy → Ascending (managed.offers side) →
        IsLeast (costs (managed.offers side) maxQty) gross) ∧
      (side = .sell → Descending (managed.offers side) →
        IsGreatest (costs (managed.offers side) maxQty) gross)) ∧
    (∀ err, consume managed (some maxQty) none side = .error err →
      err = .insufficientDepth (depth (managed.offers side))
        (costOf (managed.offers side) ((managed.offers side).map Prod.snd))) := by
  have hstock := managed.stocked side
  obtain ⟨hok, herr⟩ := consume_uncapped managed h side
  rcases le_or_gt maxQty (depth (managed.offers side)) with hd | hd
  · rw [hok hd]
    refine ⟨iff_of_true ⟨_, rfl⟩ hd, ?_, ?_⟩
    · rintro filled gross ⟨⟩
      exact ⟨rfl, fun _ hasc => isLeast_lift hstock hasc h.le hd,
        fun _ hdesc => isGreatest_lift hstock hdesc h.le hd⟩
    · rintro err ⟨⟩
  · rw [herr hd]
    refine ⟨iff_of_false ?_ (not_le.mpr hd), ?_, ?_⟩
    · rintro ⟨fill, ⟨⟩⟩
    · rintro filled gross ⟨⟩
    · rintro err ⟨⟩
      rw [lift_depth hstock]

/-- A book with a level that is no offer between two that are. -/
def sampleWalkBook : ManagedBook where
  bids := [⟨some 99, some 2⟩, ⟨some 98, none⟩, ⟨some 97, some 4⟩]
  asks := [⟨some 100, some 2⟩, ⟨some 101, some 0⟩, ⟨some 102, some 4⟩]
  spread := none
  midpoint := none

/-- Three units of the book cost 302 at least. -/
theorem consume_exact_sample :
    IsLeast (costs (sampleWalkBook.offers .buy) 3) 302 := by
  obtain ⟨-, hok, -⟩ := consume_exact sampleWalkBook (show (0 : Decimal) < 3 by norm_num) .buy
  have hfill : consume sampleWalkBook (some 3) none .buy = .ok (3, 302) := by decide +kernel
  have hasc : Ascending (sampleWalkBook.offers .buy) := by
    have hoffers : sampleWalkBook.offers .buy = [(100, 2), (102, 4)] := by decide +kernel
    rw [hoffers]
    norm_num [Ascending]
  exact (hok 3 302 hfill).2.1 rfl hasc

/-! ## Under a cap -/

/-- The cash covers the walk: at each offer it reaches, what is left of the cash
pays for all that the offer and the need leave to take, or the quotient of the
cash and the price is not rounded up. -/
def Covered : List (Decimal × Decimal) → Decimal → Decimal → Prop
  | [], _, _ => True
  | (px, qty) :: rest, need, cash =>
    0 < need → 0 < cash →
      (min qty need ≤ cash / px ∨ Int.fract (cash / px * 10 ^ 16) < 1 / 2) ∧
      let take := min (min qty need) (Decimal.div cash px)
      0 < take → Covered rest (need - take) (cash - px * take)

/-- What is taken of one offer costs no more than the cash exactly when the offer
and the need end it in time, or its quotient is not rounded up. -/
theorem cost_le_iff {px cash : Decimal} (hpx : 0 < px) (hcash : 0 < cash) (most : Decimal) :
    px * min most (Decimal.div cash px) ≤ cash ↔
      most ≤ cash / px ∨ Int.fract (cash / px * 10 ^ 16) < 1 / 2 := by
  rw [← Decimal.div_le_iff hcash.le hpx, ← min_le_iff, le_div_iff₀ hpx, mul_comm]

/-- Where nothing is needed or no cash is left, nothing has to be covered. -/
theorem covered_idle {need cash : Decimal} (h : ¬ (0 < need ∧ 0 < cash))
    (offers : List (Decimal × Decimal)) : Covered offers need cash := by
  cases offers with
  | nil => trivial
  | cons offer rest => exact fun hn hpos => absurd ⟨hn, hpos⟩ h

/-- The step of `walk_covered_iff`: what one offer costs, and then the rest of the
walk with the rest of the cash. -/
theorem walk_take_covered_iff {level : Level} {px qty : Decimal}
    (hoffer : level.offer = some (px, qty)) {rest : List Level} {need cash : Decimal}
    (hn : 0 < need) (hpos : 0 < cash)
    (hrest : ∀ need {cash}, 0 ≤ cash → ∀ filled gross,
      (walk rest need (some cash) filled gross).2 ≤ gross + cash ↔
        Covered (offers rest) need cash) (filled gross : Decimal) :
    (walk (level :: rest) need (some cash) filled gross).2 ≤ gross + cash ↔
      Covered (offers (level :: rest)) need cash := by
  have hpx : 0 < px := (Level.offer_eq_some hoffer).2.2.1
  have hcap : (some cash).all (0 < ·) = true := decide_eq_true hpos
  have hcost := cost_le_iff hpx hpos (min qty need)
  rw [walk_take hoffer rest hn, if_pos hcap, offers_take hoffer]
  simp only [Covered, forall_const, hn, hpos, ← hcost]
  generalize min (min qty need) (Decimal.div cash px) = take
  by_cases htake : take ≤ 0
  · -- the quotient is rounded to nothing
    have hfree : px * take ≤ cash :=
      (mul_nonpos_of_nonneg_of_nonpos hpx.le htake).trans hpos.le
    rw [if_pos htake]
    exact iff_of_true (le_add_of_nonneg_right hpos.le)
      ⟨hfree, fun h => absurd h (not_lt.mpr htake)⟩
  · rw [if_neg htake]
    show (walk rest (need - take) (some (cash - px * take)) (filled + take)
      (gross + px * take)).2 ≤ gross + cash ↔ _
    simp only [not_le.mp htake, forall_const]
    rcases le_or_gt (px * take) cash with hle | hlt
    · have hstep := hrest (need - take) (sub_nonneg.mpr hle) (filled + take) (gross + px * take)
      have hsum : gross + px * take + (cash - px * take) = gross + cash := by ring
      rw [hsum] at hstep
      rw [hstep]
      exact (and_iff_right hle).symm
    · -- nothing is bought after the cash is overrun
      have hover : ¬ (some (cash - px * take)).all (0 < ·) = true := by
        simp [hlt.le]
      rw [walk_spent _ _ hover]
      exact iff_of_false (not_le.mpr (by linarith)) fun h => absurd h.1 (not_le.mpr hlt)

/-- The cost of a walk is within the cash exactly when the cash covers it. -/
theorem walk_covered_iff (levels : List Level) (need : Decimal) {cash : Decimal} (hc : 0 ≤ cash)
    (filled gross : Decimal) :
    (walk levels need (some cash) filled gross).2 ≤ gross + cash ↔
      Covered (offers levels) need cash := by
  induction levels generalizing need cash filled gross with
  | nil => exact iff_of_true (le_add_of_nonneg_right hc) trivial
  | cons level rest ih =>
    by_cases hgo : 0 < need ∧ 0 < cash
    · obtain ⟨hn, hpos⟩ := hgo
      cases hoffer : level.offer with
      | none =>
        rw [walk_skip hoffer, if_pos ⟨hn, decide_eq_true hpos⟩, offers_skip hoffer]
        exact ih need hc filled gross
      | some offer => exact walk_take_covered_iff hoffer hn hpos ih filled gross
    · rw [walk_idle (level :: rest) (by simpa using hgo)]
      exact iff_of_true (le_add_of_nonneg_right hc) (covered_idle hgo _)

/-- A walk under a cap fills at most the quantity, and its cost is within the cap
exactly when the cap covers it. -/
theorem consume_capped_iff (managed : ManagedBook) {maxQty maxGross : Decimal} (hq : 0 < maxQty)
    (hg : 0 < maxGross) (side : Direction) :
    ∃ filled gross, consume managed (some maxQty) (some maxGross) side = .ok (filled, gross) ∧
      (filled ≤ maxQty ∧ gross ≤ maxGross ↔
        Covered (managed.offers side) maxQty maxGross) := by
  have hconsume : consume managed (some maxQty) (some maxGross) side =
      .ok (walk (managed.side side) maxQty (some maxGross) 0 0) := by
    cases side <;> simp [consume, ManagedBook.side, not_le.mpr hq]
  have hfill := (walk_capped (managed.side side) hq.le maxGross 0 0).1
  have hcost := walk_covered_iff (managed.side side) maxQty hg.le 0 0
  rw [zero_add] at hfill hcost
  refine ⟨_, _, hconsume, ?_⟩
  rw [hcost]
  exact and_iff_right (hfill.trans_le (min_le_left _ _))

/-- A walk for three units with 250 to spend. -/
theorem consume_capped_sample :
    ∃ filled gross, consume sampleWalkBook (some 3) (some 250) .buy = .ok (filled, gross) ∧
      (filled ≤ 3 ∧ gross ≤ 250 ↔ Covered (sampleWalkBook.offers .buy) 3 250) :=
  consume_capped_iff sampleWalkBook (by norm_num) (by norm_num) .buy

/-- One offer at a price that does not divide the cash. -/
def thirdsBook : ManagedBook := ⟨[], [⟨some 3, some 10⟩], none, none⟩

/-- Two thirds are rounded up, and cost more than the two that there are. -/
theorem consume_overspends :
    ¬ ∀ filled gross, consume thirdsBook (some 5) (some 2) .buy = .ok (filled, gross) →
      filled ≤ 5 ∧ gross ≤ 2 := by
  intro h
  have hwalk : consume thirdsBook (some 5) (some 2) .buy =
      .ok (6666666666666667 / 10 ^ 16, 20000000000000001 / 10 ^ 16) := by decide +kernel
  have hgross := (h _ _ hwalk).2
  norm_num at hgross

end Symm.Broker
