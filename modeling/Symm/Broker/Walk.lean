import Symm.Lib.Offers
import Symm.Broker.Price

/-!
# What a walk of the book takes

The levels that `consume` can use are offers: those with a positive price and
quantity. Without a cash cap the walk lifts them in order, so what it fills and
what that costs are `depth` and `lift`; with a cap it may stop short of a level
and still go on to the next, and then it pays at least as much. What a cap alone
lets through is `bought`.

- `walk_uncapped`: without a cap, what is filled and what it costs;
- `paid_walk`: over ascending prices a walk pays at least what the cheapest way costs;
- `walk_capped`: it fills the smaller of the need and of what the cash buys;
- `consume_uncapped`: `consume` over it, with the error of a side that is too thin.

With a cap each offer may be cut short by the cash and the walk goes on to the next,
since a rounded quotient may leave some cash behind. So what a capped walk has taken is
not what `lift` takes, and `Paid` and `Bought` describe it by two bounds, each kept by
one offer and by stopping. A quotient is a parameter to neither: they hold for any
rounding that the walk does.
-/

namespace Symm.Broker

open Symm.Lib

/-- A level that can be traded against, as an offer. -/
def Level.offer (level : Level) : Option (Decimal × Decimal) :=
  match level.price, level.quantity with
  | some px, some qty => if px ≤ 0 ∨ qty ≤ 0 then none else some (px, qty)
  | _, _ => none

/-- The offers of a side. -/
def offers (levels : List Level) : List (Decimal × Decimal) := levels.filterMap Level.offer

/-- An offer has a price and a quantity, both positive. -/
theorem Level.offer_eq_some {level : Level} {px qty : Decimal}
    (h : level.offer = some (px, qty)) :
    level.price = some px ∧ level.quantity = some qty ∧ 0 < px ∧ 0 < qty := by
  unfold offer at h
  split at h
  · rename_i px' qty' hpx hqty
    split at h
    · cases h
    · rename_i hpos
      cases h
      push Not at hpos
      exact ⟨hpx, hqty, hpos.1, hpos.2⟩
  · cases h

theorem positive_offers (levels : List Level) : Positive (offers levels) := by
  rintro ⟨px, qty⟩ hmem
  obtain ⟨level, -, hlevel⟩ := List.mem_filterMap.mp hmem
  exact (Level.offer_eq_some hlevel).2.2

theorem stocked_offers (levels : List Level) : Stocked (offers levels) :=
  (positive_offers levels).stocked

/-- The levels that are no offer are skipped. -/
theorem walk_skip {level : Level} (h : level.offer = none) (rest : List Level) (need : Decimal)
    (cash : Option Decimal) (filled gross : Decimal) :
    walk (level :: rest) need cash filled gross =
      if 0 < need ∧ cash.all (0 < ·) then walk rest need cash filled gross
      else (filled, gross) := by
  unfold Level.offer at h
  rw [walk]
  split
  · split
    · rename_i px qty hpx hqty
      simp only [hpx, hqty] at h
      split at h
      · rename_i hskip
        rw [if_pos hskip]
      · cases h
    · rfl
  · rfl

/-- A walk that needs nothing, or has no cash, takes nothing. -/
theorem walk_idle (levels : List Level) {need : Decimal} {cash : Option Decimal}
    (h : ¬ (0 < need ∧ cash.all (0 < ·) = true)) (filled gross : Decimal) :
    walk levels need cash filled gross = (filled, gross) := by
  cases levels with
  | nil => rfl
  | cons level rest => rw [walk, if_neg h]

theorem walk_done (levels : List Level) (cash : Option Decimal) (filled gross : Decimal)
    {need : Decimal} (h : need ≤ 0) : walk levels need cash filled gross = (filled, gross) :=
  walk_idle levels (fun hgo => absurd hgo.1 (not_lt.mpr h)) filled gross

theorem walk_spent (levels : List Level) (need : Decimal) {cash : Option Decimal}
    (h : ¬ cash.all (0 < ·) = true) (filled gross : Decimal) :
    walk levels need cash filled gross = (filled, gross) :=
  walk_idle levels (fun hgo => h hgo.2) filled gross

theorem offers_skip {level : Level} (h : level.offer = none) (rest : List Level) :
    offers (level :: rest) = offers rest := List.filterMap_cons_none h

theorem offers_take {level : Level} {offer : Decimal × Decimal} (h : level.offer = some offer)
    (rest : List Level) : offers (level :: rest) = offer :: offers rest :=
  List.filterMap_cons_some h

/-- One offer of a walk, and the rest. -/
theorem walk_take {level : Level} {px qty : Decimal} (h : level.offer = some (px, qty))
    (rest : List Level) {need : Decimal} (hn : 0 < need) (cash : Option Decimal)
    (filled gross : Decimal) :
    walk (level :: rest) need cash filled gross =
      if cash.all (0 < ·) then
        let take := match cash with
          | none => min qty need
          | some c => min (min qty need) (Decimal.div c px)
        if take ≤ 0 then (filled, gross)
        else walk rest (need - take) (cash.map (· - px * take)) (filled + take)
          (gross + px * take)
      else (filled, gross) := by
  obtain ⟨hpx, hqty, hp, hq⟩ := Level.offer_eq_some h
  have hoffer : ¬ (px ≤ 0 ∨ qty ≤ 0) := not_or.mpr ⟨not_le.mpr hp, not_le.mpr hq⟩
  rw [walk, hpx, hqty]
  dsimp only
  rw [if_neg hoffer]
  exact if_congr (and_iff_right hn) rfl rfl

/-- Taking from the first offer and then from `d` further units. -/
theorem min_take (qty need : Decimal) {d : Decimal} (hd : 0 ≤ d) :
    min qty need + min (need - min qty need) d = min need (qty + d) := by
  rcases le_total qty need with hle | hle
  · rw [min_eq_left hle]
    rcases le_total (need - qty) d with h | h
    · rw [min_eq_left h, min_eq_left (by linarith)]
      ring
    · rw [min_eq_right h, min_eq_right (by linarith)]
  · rw [min_eq_right hle, sub_self, min_eq_left hd, min_eq_left (by linarith), add_zero]

/-- Without a cap the walk lifts the offers in order. -/
theorem walk_uncapped (levels : List Level) {need : Decimal} (hn : 0 ≤ need)
    (filled gross : Decimal) :
    walk levels need none filled gross =
      (filled + min need (depth (offers levels)), gross + lift (offers levels) need) := by
  induction levels generalizing need filled gross with
  | nil =>
    show (filled, gross) = (filled + min need 0, gross + 0)
    rw [min_eq_right hn, add_zero, add_zero]
  | cons level rest ih =>
    rcases hn.eq_or_lt with rfl | hpos
    · rw [walk_done _ _ _ _ (le_refl 0), lift_zero (stocked_offers _),
        min_eq_left (depth_nonneg (stocked_offers _)), add_zero, add_zero]
    · cases hoffer : level.offer with
      | none => rw [walk_skip hoffer, if_pos ⟨hpos, rfl⟩, ih hn, offers_skip hoffer]
      | some offer =>
        obtain ⟨px, qty⟩ := offer
        have hq : 0 < qty := (Level.offer_eq_some hoffer).2.2.2
        have htake : 0 < min qty need := lt_min hq hpos
        have hrest : 0 ≤ need - min qty need := sub_nonneg.mpr (min_le_right qty need)
        have hd := depth_nonneg (stocked_offers rest)
        have hcap : (none : Option Decimal).all (0 < ·) = true := rfl
        rw [walk_take hoffer rest hpos, if_pos hcap]
        dsimp only
        rw [if_neg (not_le.mpr htake), Option.map_none, ih hrest, offers_take hoffer, depth_cons,
          lift_cons, add_assoc, min_take qty need hd, add_assoc]

/-- A walk from `(filled, gross)` to `fill` took some of the offers, and paid at
least what lifting as much in order costs. -/
def Paid (offers : List (Decimal × Decimal)) (filled gross : Decimal)
    (fill : Decimal × Decimal) : Prop :=
  ∃ r, fill.1 = filled + r ∧ 0 ≤ r ∧ r ≤ depth offers ∧ gross + lift offers r ≤ fill.2

/-- A walk that stops pays nothing more. -/
theorem paid_stop (levels : List Level) (filled gross : Decimal) :
    Paid (offers levels) filled gross (filled, gross) :=
  ⟨0, (add_zero _).symm, le_refl 0, depth_nonneg (stocked_offers levels), by
    rw [lift_zero (stocked_offers levels), add_zero]⟩

/-- With or without a cap, a walk up ascending prices pays at least what lifting
the quantity it filled costs. -/
theorem paid_walk (levels : List Level) (hasc : Ascending (offers levels)) {need : Decimal}
    (hn : 0 ≤ need) (cash : Option Decimal) (filled gross : Decimal) :
    Paid (offers levels) filled gross (walk levels need cash filled gross) := by
  induction levels generalizing need cash filled gross with
  | nil => exact paid_stop [] filled gross
  | cons level rest ih =>
    rcases hn.eq_or_lt with rfl | hpos
    · rw [walk_done _ _ _ _ (le_refl 0)]
      exact paid_stop _ filled gross
    · cases hoffer : level.offer with
      | none =>
        rw [offers_skip hoffer] at hasc
        rw [walk_skip hoffer]
        split
        · rw [offers_skip hoffer]
          exact ih hasc hn cash filled gross
        · exact paid_stop _ filled gross
      | some offer =>
        obtain ⟨px, qty⟩ := offer
        rw [walk_take hoffer rest hpos]
        split
        · dsimp only
          -- with or without a cap the walk takes no more than the offer and the need
          generalize htake : (match cash with
            | none => min qty need
            | some c => min (min qty need) (Decimal.div c px)) = take
          have hle : take ≤ min qty need := by
            rw [← htake]
            cases cash with
            | none => exact le_refl _
            | some c => exact min_le_left _ _
          split
          · exact paid_stop _ filled gross
          · -- the price of this level is the lowest of what is left
            rename_i hpay
            rw [offers_take hoffer] at hasc ⊢
            have hrest : 0 ≤ need - take :=
              sub_nonneg.mpr (hle.trans (min_le_right qty need))
            obtain ⟨r, hfill, hr, hd, hgross⟩ := ih (List.pairwise_cons.mp hasc).2 hrest
              (cash.map (· - px * take)) (filled + take) (gross + px * take)
            have hqty : take ≤ qty := hle.trans (min_le_left qty need)
            have hstock : Stocked ((px, qty) :: offers rest) := by
              rw [← offers_take hoffer]
              exact stocked_offers _
            have hlift := lift_cons_le hstock hasc hqty hr hd
            refine ⟨take + r, by rw [hfill, add_assoc], ?_, ?_, ?_⟩
            · exact add_nonneg (not_le.mp hpay).le hr
            · rw [depth_cons]
              exact add_le_add hqty hd
            · linarith
        · exact paid_stop _ filled gross

/-- What an amount of cash buys of the offers, and for how much, when nothing but
the cash limits it: of each offer as much as the rounded quotient of the cash and
the price, up to the first of which that is nothing. -/
def bought : List (Decimal × Decimal) → Decimal → Decimal × Decimal
  | [], _ => (0, 0)
  | (px, qty) :: rest, cash =>
    if 0 < cash then
      let take := min qty (Decimal.div cash px)
      if take ≤ 0 then (0, 0)
      else
        let more := bought rest (cash - px * take)
        (take + more.1, px * take + more.2)
    else (0, 0)

/-- Without cash nothing is bought. -/
theorem bought_broke (offers : List (Decimal × Decimal)) {cash : Decimal} (h : cash ≤ 0) :
    bought offers cash = (0, 0) := by
  cases offers with
  | nil => rfl
  | cons offer rest => exact if_neg (not_lt.mpr h)

/-- One offer of what the cash buys, and the rest. -/
theorem bought_cons (px qty : Decimal) (rest : List (Decimal × Decimal)) {cash : Decimal}
    (h : 0 < cash) :
    bought ((px, qty) :: rest) cash =
      if min qty (Decimal.div cash px) ≤ 0 then (0, 0)
      else (min qty (Decimal.div cash px) +
          (bought rest (cash - px * min qty (Decimal.div cash px))).1,
        px * min qty (Decimal.div cash px) +
          (bought rest (cash - px * min qty (Decimal.div cash px))).2) :=
  if_pos h

theorem bought_nonneg (offers : List (Decimal × Decimal)) (cash : Decimal) :
    0 ≤ (bought offers cash).1 := by
  induction offers generalizing cash with
  | nil => exact le_refl 0
  | cons offer rest ih =>
    obtain ⟨px, qty⟩ := offer
    rcases le_or_gt cash 0 with hc | hc
    · rw [bought_broke _ hc]
    · rw [bought_cons px qty rest hc]
      split
      · exact le_refl 0
      · rename_i htake
        exact add_nonneg (not_le.mp htake).le (ih _)

/-- Cash that buys nothing spends nothing. -/
theorem bought_nothing {offers : List (Decimal × Decimal)} {cash : Decimal}
    (h : (bought offers cash).1 ≤ 0) : bought offers cash = (0, 0) := by
  cases offers with
  | nil => rfl
  | cons offer rest =>
    obtain ⟨px, qty⟩ := offer
    rcases le_or_gt cash 0 with hc | hc
    · exact bought_broke _ hc
    · rw [bought_cons px qty rest hc] at h ⊢
      split
      · rfl
      · rename_i htake
        rw [if_neg htake] at h
        have hrest := bought_nonneg rest (cash - px * min qty (Decimal.div cash px))
        exact absurd h (not_le.mpr (add_pos_of_pos_of_nonneg (not_le.mp htake) hrest))

/-- A walk from `(filled, gross)` under a cap filled what it needs or what the
cash buys, whichever is less; when that is what the cash buys, it cost as much. -/
def Bought (offers : List (Decimal × Decimal)) (need cash filled gross : Decimal)
    (fill : Decimal × Decimal) : Prop :=
  fill.1 = filled + min need (bought offers cash).1 ∧
    ((bought offers cash).1 ≤ need → fill.2 = gross + (bought offers cash).2)

/-- What a walk that stops has bought is what it had. -/
theorem bought_stop {offers : List (Decimal × Decimal)} {need cash : Decimal} (hn : 0 ≤ need)
    (h : bought offers cash = (0, 0)) (filled gross : Decimal) :
    Bought offers need cash filled gross (filled, gross) := by
  unfold Bought
  rw [h]
  exact ⟨by rw [min_eq_right hn, add_zero], fun _ => (add_zero gross).symm⟩

/-- Nothing is needed, so nothing is bought. -/
theorem bought_done (offers : List (Decimal × Decimal)) (cash filled gross : Decimal) :
    Bought offers 0 cash filled gross (filled, gross) := by
  refine ⟨by rw [min_eq_left (bought_nonneg offers cash), add_zero], fun h => ?_⟩
  rw [bought_nothing h, add_zero]

/-- A walk with cash buys what the offers give for it, level by level. -/
theorem walk_capped (levels : List Level) {need : Decimal} (hn : 0 ≤ need)
    (cash filled gross : Decimal) :
    Bought (offers levels) need cash filled gross
      (walk levels need (some cash) filled gross) := by
  induction levels generalizing need cash filled gross with
  | nil => exact bought_stop hn rfl filled gross
  | cons level rest ih =>
    rcases hn.eq_or_lt with rfl | hpos
    · rw [walk_done _ _ _ _ (le_refl 0)]
      exact bought_done _ _ _ _
    · rcases le_or_gt cash 0 with hc | hc
      · -- the cash is spent
        have hspent : ¬ (some cash).all (0 < ·) = true := by
          simp [not_lt.mpr hc]
        rw [walk_spent _ _ hspent]
        exact bought_stop hn (bought_broke _ hc) filled gross
      · have hcap : (some cash).all (0 < ·) = true := decide_eq_true hc
        cases hoffer : level.offer with
        | none =>
          rw [walk_skip hoffer, if_pos ⟨hpos, hcap⟩, offers_skip hoffer]
          exact ih hn cash filled gross
        | some offer =>
          obtain ⟨px, qty⟩ := offer
          have hb := bought_cons px qty (offers rest) hc
          rw [walk_take hoffer rest hpos, if_pos hcap, offers_take hoffer]
          dsimp only
          rw [min_right_comm]
          -- what the cash buys of this offer
          generalize min qty (Decimal.div cash px) = give at hb ⊢
          by_cases hgive : give ≤ 0
          · rw [if_pos ((min_le_left give need).trans hgive)]
            rw [if_pos hgive] at hb
            exact bought_stop hn hb filled gross
          · rw [if_neg hgive] at hb
            have htake : 0 < min give need := lt_min (not_le.mp hgive) hpos
            rw [if_neg (not_le.mpr htake), Option.map_some]
            have hrest : 0 ≤ need - min give need := sub_nonneg.mpr (min_le_right give need)
            have hmore := bought_nonneg (offers rest) (cash - px * give)
            unfold Bought
            rw [hb]
            rcases le_total give need with hle | hle
            · -- the offer gives all that the cash buys of it
              rw [min_eq_left hle] at hrest ⊢
              obtain ⟨hfill, hgross⟩ := ih hrest (cash - px * give) (filled + give)
                (gross + px * give)
              have hsum := min_take give need hmore
              rw [min_eq_left hle] at hsum
              refine ⟨by rw [hfill, add_assoc, hsum], fun hall => ?_⟩
              rw [hgross (by linarith), add_assoc]
            · -- the need ends inside the offer
              rw [min_eq_right hle, sub_self, walk_done _ _ _ _ (le_refl 0)]
              refine ⟨by rw [min_eq_left (hle.trans (le_add_of_nonneg_right hmore))],
                fun hall => ?_⟩
              have hgive : give = need := le_antisymm (by linarith) hle
              rw [hgive] at hall ⊢
              rw [bought_nothing (by linarith)]
              exact congrArg (gross + ·) (add_zero _).symm

/-- The side that a direction walks. -/
def ManagedBook.side (managed : ManagedBook) : Direction → List Level
  | .buy => managed.asks
  | .sell => managed.bids

/-- Its offers. -/
def ManagedBook.offers (managed : ManagedBook) (side : Direction) : List (Decimal × Decimal) :=
  Broker.offers (managed.side side)

theorem ManagedBook.stocked (managed : ManagedBook) (side : Direction) :
    Stocked (managed.offers side) := stocked_offers (managed.side side)

/-- `consume` without a cap fills a positive quantity that the side holds, for
what lifting it costs, and reports the whole side on any other. -/
theorem consume_uncapped (managed : ManagedBook) {qty : Decimal} (hq : 0 < qty)
    (side : Direction) :
    (qty ≤ depth (managed.offers side) →
      consume managed (some qty) none side = .ok (qty, lift (managed.offers side) qty)) ∧
    (depth (managed.offers side) < qty → consume managed (some qty) none side =
      .error (.insufficientDepth (depth (managed.offers side))
        (lift (managed.offers side) (depth (managed.offers side))))) := by
  have hwalk := walk_uncapped (managed.side side) hq.le 0 0
  rw [zero_add, zero_add] at hwalk
  -- without a cap on the cash the depth alone decides
  have hconsume : consume managed (some qty) none side =
      if (walk (managed.side side) qty none 0 0).1 < qty then
        .error (.insufficientDepth (walk (managed.side side) qty none 0 0).1
          (walk (managed.side side) qty none 0 0).2)
      else .ok (walk (managed.side side) qty none 0 0) := by
    unfold consume
    dsimp only
    rw [if_neg (not_le.mpr hq)]
    simp only [Option.isNone_none, true_and]
    rfl
  rw [hconsume, hwalk]
  constructor
  · intro h
    have hfill : min qty (depth (offers (managed.side side))) = qty := min_eq_left h
    rw [hfill, if_neg (lt_irrefl qty)]
    rfl
  · intro h
    have hfill : min qty (depth (offers (managed.side side))) = depth (managed.offers side) :=
      min_eq_right h.le
    -- asking for more than there is buys what there is
    have hall : lift (offers (managed.side side)) qty =
        lift (managed.offers side) (depth (managed.offers side)) :=
      lift_beyond (managed.stocked side) h.le
    rw [hfill, hall, if_pos h]

/-! ## Opening and closing -/

namespace Price

variable {price : Price} {symbol : String} {managed : ManagedBook}

/-- A quantity that the bids hold, bought at `entry`, is sold for what lifting the
bids brings in. -/
theorem roundTrip_of_ready {qty entry : Decimal} (fee : Decimal)
    (hbook : price.books symbol = some managed) (hready : bookReady managed = true) (hq : 0 < qty)
    (hdepth : qty ≤ depth (offers managed.bids)) (he : 0 < entry) :
    price.roundTrip symbol (some qty) (some entry) (some fee) (some fee) =
      some (lift (offers managed.bids) qty * (1 + 1 / 100 * fee * -1) -
        entry * qty * (1 + 1 / 100 * fee), entry * qty * (1 + 1 / 100 * fee)) := by
  have hconsume : consume managed (some qty) none .sell =
      .ok (qty, lift (offers managed.bids) qty) := (consume_uncapped managed hq .sell).1 hdepth
  have hgross : 0 < lift (offers managed.bids) qty :=
    lift_pos (positive_offers _) hq (hq.trans_le hdepth)
  unfold roundTrip
  simp only [hbook, hready, hconsume, hq, he, afterFee, not_le.mpr hgross,
    not_le.mpr (mul_pos he hq), Option.bind_eq_bind, Option.bind_some, and_self, guard_true,
    Except.toOption, if_false]
  rfl

/-- A quantity that the asks hold is bought at the rounded average of lifting
them. -/
theorem entryCost_of_ready {qty fee : Decimal} (hbook : price.books symbol = some managed)
    (hready : bookReady managed = true) (hfee : price.fee symbol = some fee) (hq : 0 < qty)
    (hdepth : qty ≤ depth (offers managed.asks)) :
    price.entryCost symbol qty = some (Decimal.div (lift (offers managed.asks) qty) qty,
      lift (offers managed.asks) qty * (1 + 1 / 100 * fee) - lift (offers managed.asks) qty) := by
  have hconsume : consume managed (some qty) none .buy =
      .ok (qty, lift (offers managed.asks) qty) := (consume_uncapped managed hq .buy).1 hdepth
  have hgross : 0 < lift (offers managed.asks) qty :=
    lift_pos (positive_offers _) hq (hq.trans_le hdepth)
  unfold entryCost
  simp only [hbook, hready, hconsume, hfee, hq, afterFee, not_le.mpr hgross, Option.bind_eq_bind,
    Option.bind_some, guard_true, Except.toOption, if_false]
  rfl

end Price

end Symm.Broker
