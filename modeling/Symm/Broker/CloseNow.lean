import Symm.Broker.Allocation

/-!
# Opening and closing at once

The rounded average price of an ask walk is at least the best ask, because the
best ask has no more digits than the rounding keeps, and the bids bring in at
most the best bid a unit. A book that is ready therefore never pays for opening
a lot and closing it at once, whatever the fees.

The two roundings work against the desk. The average price of an ask walk is rounded,
and it stays at least the best ask since `SixteenDigits` keeps the best ask a value of
the rounding; the proceeds of the bids are at most the best bid a unit. Between the two
lies the spread of a book that is not crossed, which `bookReady_iff` gives in strict
form. The fees only add to the loss, and the rounding of the return moves it to zero at
most.

- `Ordered`: the market in which all this holds, as the walks assume it;
- `roundTrip_loses`: the loss for a given entry price;
- `closing_loses`: for every quantity that both sides absorb, and for the desk's own
  lot.
-/

namespace Symm.Broker

open Symm.System Symm.Lib

/-- Along a side, prices do not fall. -/
def PricesAscend (levels : List Level) : Prop :=
  levels.Pairwise fun a b => ∀ px px', a.price = some px → b.price = some px' → px ≤ px'

/-- Along a side, prices do not rise. -/
def PricesDescend (levels : List Level) : Prop :=
  levels.Pairwise fun a b => ∀ px px', a.price = some px → b.price = some px' → px' ≤ px

/-- Every price has at most sixteen decimals. -/
def SixteenDigits (levels : List Level) : Prop :=
  ∀ level ∈ levels, ∀ px, level.price = some px → ∃ n : ℤ, px = n / 10 ^ 16

/-- The prices of the offers are prices of the side. -/
theorem exists_level {levels : List Level} {offer : Decimal × Decimal}
    (h : offer ∈ offers levels) : ∃ level ∈ levels, level.price = some offer.1 := by
  obtain ⟨level, hmem, hoffer⟩ := List.mem_filterMap.mp h
  exact ⟨level, hmem, (Level.offer_eq_some hoffer).1⟩

/-- The head of a side is its best price. -/
theorem PricesAscend.best_le {levels : List Level} {best : Level} {px : Decimal}
    (h : PricesAscend levels) (hhead : levels.head? = some best) (hbest : best.price = some px) :
    ∀ offer ∈ offers levels, px ≤ offer.1 := by
  intro offer hmem
  obtain ⟨level, hlevel, hprice⟩ := exists_level hmem
  obtain ⟨rest, rfl⟩ : ∃ rest, levels = best :: rest := List.head?_eq_some_iff.mp hhead
  rcases List.mem_cons.mp hlevel with rfl | hrest
  · rw [hbest] at hprice
    exact (Option.some.inj hprice).le
  · exact (List.pairwise_cons.mp h).1 level hrest px offer.1 hbest hprice

/-- In a book whose bids descend, no offer is above the first one. -/
theorem PricesDescend.le_best {levels : List Level} {best : Level} {px : Decimal}
    (h : PricesDescend levels) (hhead : levels.head? = some best) (hbest : best.price = some px) :
    ∀ offer ∈ offers levels, offer.1 ≤ px := by
  intro offer hmem
  obtain ⟨level, hlevel, hprice⟩ := exists_level hmem
  obtain ⟨rest, rfl⟩ : ∃ rest, levels = best :: rest := List.head?_eq_some_iff.mp hhead
  rcases List.mem_cons.mp hlevel with rfl | hrest
  · rw [hbest] at hprice
    exact (Option.some.inj hprice).ge
  · exact (List.pairwise_cons.mp h).1 level hrest px offer.1 hbest hprice

/-- A book whose asks ascend offers them in that order, the unusable ones left out. -/
theorem PricesAscend.offers {levels : List Level} (h : PricesAscend levels) :
    Ascending (offers levels) := by
  refine List.Pairwise.filterMap Level.offer ?_ h
  rintro a b hab ⟨px, qty⟩ ha ⟨px', qty'⟩ hb
  exact hab px px' (Level.offer_eq_some ha).1 (Level.offer_eq_some hb).1

/-- A ready book quotes both sides, uncrossed. -/
theorem bookReady_iff {managed : ManagedBook} :
    bookReady managed = true ↔ ∃ bid ask bidPx askPx, managed.bids.head? = some bid ∧
      managed.asks.head? = some ask ∧ bid.price = some bidPx ∧ ask.price = some askPx ∧
      bidPx < askPx := by
  constructor
  · intro h
    rw [bookReady] at h
    split at h
    · rename_i bid ask hbid hask
      split at h
      · rename_i bidPx askPx hbidPx haskPx
        exact ⟨bid, ask, bidPx, askPx, hbid, hask, hbidPx, haskPx, of_decide_eq_true h⟩
      · cases h
    · cases h
  · rintro ⟨bid, ask, bidPx, askPx, hbid, hask, hbidPx, haskPx, hlt⟩
    simp [bookReady, hbid, hask, hbidPx, haskPx, hlt]

/-- A ready book whose sides are in order, with prices that no rounding passes. -/
structure Ordered (managed : ManagedBook) : Prop where
  ready : bookReady managed = true
  asks : PricesAscend managed.asks
  bids : PricesDescend managed.bids
  digits : SixteenDigits (managed.asks ++ managed.bids)

/-- What a quantity brings in at once is less than its rounded average price
costs. -/
theorem Ordered.proceeds_lt {managed : ManagedBook} (h : Ordered managed) {qty : Decimal}
    (hq : 0 < qty) (hasks : qty ≤ depth (offers managed.asks))
    (hbids : qty ≤ depth (offers managed.bids)) :
    lift (offers managed.bids) qty <
      Decimal.div (lift (offers managed.asks) qty) qty * qty := by
  obtain ⟨bid, ask, bidPx, askPx, hbid, hask, hbidPx, haskPx, hlt⟩ := bookReady_iff.mp h.ready
  have hsold : lift (offers managed.bids) qty ≤ bidPx * qty :=
    lift_le (stocked_offers _) (h.bids.le_best hbid hbidPx) hq.le hbids
  have hbought : askPx * qty ≤ lift (offers managed.asks) qty :=
    le_lift (stocked_offers _) (h.asks.best_le hask haskPx) hq.le hasks
  have hcost : 0 ≤ lift (offers managed.asks) qty := lift_nonneg (positive_offers _) hq.le
  have hmem : ask ∈ managed.asks ++ managed.bids :=
    List.mem_append_left _ (List.mem_of_mem_head? hask)
  obtain ⟨n, rfl⟩ := h.digits ask hmem askPx haskPx
  -- the best ask has sixteen digits, so the average is not rounded below it
  have hentry := Decimal.le_div_of_le hcost hq ((le_div_iff₀ hq).mpr hbought)
  calc lift (offers managed.bids) qty ≤ bidPx * qty := hsold
    _ < (n / 10 ^ 16 : ℚ) * qty := mul_lt_mul_of_pos_right hlt hq
    _ ≤ _ := mul_le_mul_of_nonneg_right hentry hq.le

/-- A quantity that the book absorbs has a positive entry price. -/
theorem Ordered.entry_pos {managed : ManagedBook} (h : Ordered managed) {qty : Decimal}
    (hq : 0 < qty) (hasks : qty ≤ depth (offers managed.asks))
    (hbids : qty ≤ depth (offers managed.bids)) :
    0 < Decimal.div (lift (offers managed.asks) qty) qty := by
  have hsold : 0 < lift (offers managed.bids) qty :=
    lift_pos (positive_offers _) hq (hq.trans_le hbids)
  exact pos_of_mul_pos_left (hsold.trans (h.proceeds_lt hq hasks hbids)) hq.le

namespace Price

variable {price : Price} {risk : Risk} {symbol : String} {managed : ManagedBook}
  {qty fee : Decimal}

/-- The round trip at the entry price: a loss, of something that costs. -/
theorem roundTrip_loses (hbook : price.books symbol = some managed) (h : Ordered managed)
    (hfee : 0 ≤ fee) (hq : 0 < qty) (hasks : qty ≤ depth (offers managed.asks))
    (hbids : qty ≤ depth (offers managed.bids)) :
    ∃ profit cost, price.roundTrip symbol (some qty)
        (some (Decimal.div (lift (offers managed.asks) qty) qty)) (some fee) (some fee) =
        some (profit, cost) ∧ profit < 0 ∧ 0 < cost := by
  have hpos := h.entry_pos hq hasks hbids
  have hlt := h.proceeds_lt hq hasks hbids
  have hsold : 0 ≤ lift (offers managed.bids) qty := lift_nonneg (positive_offers _) hq.le
  refine ⟨_, _, roundTrip_of_ready fee hbook h.ready hq hbids hpos, ?_, by positivity⟩
  have hpaid : 0 ≤ Decimal.div (lift (offers managed.asks) qty) qty * qty * (1 / 100 * fee) := by
    positivity
  have hkept : 0 ≤ lift (offers managed.bids) qty * (1 / 100 * fee) := by positivity
  linarith

/-- A close-now price is that of a lot which both sides of the book absorb. -/
theorem closeNow_ok {closeNow : Decimal}
    (h : price.entryCloseNowPnLPct risk symbol = .ok (some closeNow)) :
    ∃ qty entry entryFee, price.allocate risk symbol none = .ok (.ok qty) ∧ 0 < qty ∧
      price.entryCost symbol qty = some (entry, entryFee) ∧
      price.pnlPct symbol (some qty) (some entry) (price.fee symbol) = some closeNow := by
  rw [entryCloseNowPnLPct] at h
  cases hallocate : price.allocate risk symbol none with
  | error fault =>
    rw [hallocate] at h
    cases h
  | ok result =>
    rw [hallocate] at h
    cases result with
    | error why => cases h
    | ok qty =>
      simp only [bind, Except.bind] at h
      split at h
      · cases h
      · rename_i hqty
        split at h
        · cases h
        · rename_i entry entryFee hentry
          split at h
          · cases h
          · exact ⟨qty, entry, entryFee, rfl, not_le.mp hqty, hentry, Except.ok.inj h⟩

/-- What the asks do not hold has no entry cost. -/
theorem held_of_entryCost {entry entryFee : Decimal} (hbook : price.books symbol = some managed)
    (hq : 0 < qty) (h : price.entryCost symbol qty = some (entry, entryFee)) :
    qty ≤ depth (offers managed.asks) := by
  by_contra hshort
  have hfail : consume managed (some qty) none .buy = .error _ :=
    (consume_uncapped managed hq .buy).2 (not_le.mp hshort)
  have hnone : price.entryCost symbol qty = none := by
    simp [entryCost, hbook, hfail, Except.toOption]
  rw [hnone] at h
  cases h

/-- What the bids do not hold has no return. -/
theorem held_of_pnlPct {entry pct : Decimal} {given : Option Decimal}
    (hbook : price.books symbol = some managed) (hq : 0 < qty)
    (h : price.pnlPct symbol (some qty) (some entry) given = some pct) :
    qty ≤ depth (offers managed.bids) := by
  by_contra hshort
  have hfail : consume managed (some qty) none .sell = .error _ :=
    (consume_uncapped managed hq .sell).2 (not_le.mp hshort)
  have hnone : price.pnlPct symbol (some qty) (some entry) given = none := by
    simp [pnlPct, roundTripPct, roundTrip, hbook, hfail, Except.toOption]
  rw [hnone] at h
  cases h

/-- The return of a round trip at the entry price is known, and not positive. -/
theorem pnlPct_nonpos (hbook : price.books symbol = some managed) (h : Ordered managed)
    (hfee : price.fee symbol = some fee) (hpos : 0 ≤ fee) (hq : 0 < qty)
    (hasks : qty ≤ depth (offers managed.asks)) (hbids : qty ≤ depth (offers managed.bids)) :
    ∃ pct, price.pnlPct symbol (some qty)
      (some (Decimal.div (lift (offers managed.asks) qty) qty)) (price.fee symbol) = some pct ∧
      pct ≤ 0 := by
  obtain ⟨profit, cost, hround, hloss, hcost⟩ := roundTrip_loses hbook h hpos hq hasks hbids
  have hpct : Decimal.div profit cost * 100 ≤ 0 :=
    mul_nonpos_of_nonpos_of_nonneg (Decimal.div_nonpos hloss.le hcost) (by norm_num)
  refine ⟨_, ?_, hpct⟩
  rw [hfee]
  show price.roundTripPct symbol (some qty) _ (some fee) (some fee) = _
  rw [roundTripPct, hround]
  simp [hcost]

/-- Opening a lot and closing it at once loses: whatever quantity both sides of the
book absorb, and so also the desk's own lot, whose close-now price is known where
the bids hold it and is never positive. -/
theorem closing_loses (hbook : price.books symbol = some managed) (h : Ordered managed)
    (hfee : price.fee symbol = some fee) (hpos : 0 ≤ fee) :
    (∀ qty, 0 < qty → qty ≤ depth (offers managed.asks) → qty ≤ depth (offers managed.bids) →
      ∃ entry entryFee profit cost, price.entryCost symbol qty = some (entry, entryFee) ∧
        price.roundTrip symbol (some qty) (some entry) (some fee) (some fee) =
          some (profit, cost) ∧ profit < 0) ∧
    (∀ qty, price.allocate risk symbol none = .ok (.ok qty) → qty ≤ depth (offers managed.bids) →
      ∃ closeNow, price.entryCloseNowPnLPct risk symbol = .ok (some closeNow)) ∧
    ∀ closeNow, price.entryCloseNowPnLPct risk symbol = .ok (some closeNow) → closeNow ≤ 0 := by
  refine ⟨?_, ?_, ?_⟩
  · intro qty hq hasks hbids
    obtain ⟨profit, cost, hround, hloss, -⟩ := roundTrip_loses hbook h hpos hq hasks hbids
    exact ⟨_, _, profit, cost, entryCost_of_ready hbook h.ready hfee hq hasks, hround, hloss⟩
  · intro qty hallocate hbids
    obtain ⟨desk, _, _, _, _, _, hdesk, -⟩ := allocate_ok hallocate
    have hasc : ∀ managed', price.books symbol = some managed' →
        Ascending (offers managed'.asks) := by
      intro managed' hbook'
      rw [hbook] at hbook'
      cases hbook'
      exact h.asks.offers
    -- an allocated size is a fill that the asks hold
    obtain ⟨_, managed', _, _, -, -, hbook', -, hfill⟩ :=
      affordable_of_allocate hdesk hasc hallocate
    rw [hbook] at hbook'
    cases hbook'
    have hentry := entryCost_of_ready hbook h.ready hfee hfill.pos hfill.held
    have hentryPos := h.entry_pos hfill.pos hfill.held hbids
    obtain ⟨pct, hpct, -⟩ := pnlPct_nonpos hbook h hfee hpos hfill.pos hfill.held hbids
    refine ⟨pct, ?_⟩
    rw [entryCloseNowPnLPct, hallocate]
    simp only [bind, Except.bind, if_neg (not_le.mpr hfill.pos), hentry,
      if_neg (not_le.mpr hentryPos), hpct]
    rfl
  · intro closeNow hclose
    obtain ⟨qty, entry, entryFee, -, hq, hentry, hpct⟩ := closeNow_ok hclose
    have hasks := held_of_entryCost hbook hq hentry
    have hbids := held_of_pnlPct hbook hq hpct
    rw [entryCost_of_ready hbook h.ready hfee hq hasks] at hentry
    cases hentry
    obtain ⟨pct, hpct', hle⟩ := pnlPct_nonpos hbook h hfee hpos hq hasks hbids
    rw [hpct] at hpct'
    cases hpct'
    exact hle

end Price

/-- An entry that could be made, and closed at once at no gain. -/
theorem Price.closing_loses_sample :
    ∃ closeNow, cashBoundPrice.entryCloseNowPnLPct Cfg.defaults.risk "BBB/USD" =
      .ok (some closeNow) ∧ closeNow ≤ 0 := by
  have hordered : Ordered
      ⟨[⟨some 99, some 100000⟩], [⟨some 100, some 100000⟩], none, none⟩ := by
    refine ⟨by decide +kernel, List.pairwise_singleton _ _, List.pairwise_singleton _ _, ?_⟩
    intro level hmem px hpx
    rcases List.mem_pair.mp hmem with rfl | rfl
    · cases hpx
      exact ⟨100 * 10 ^ 16, by norm_num⟩
    · cases hpx
      exact ⟨99 * 10 ^ 16, by norm_num⟩
  obtain ⟨-, hknown, hloss⟩ := @Price.closing_loses cashBoundPrice Cfg.defaults.risk "BBB/USD"
    _ _ rfl hordered rfl (by norm_num)
  have hallocate : cashBoundPrice.allocate Cfg.defaults.risk "BBB/USD" none =
      .ok (.ok (19841269841269841 / 10 ^ 16)) := by decide +kernel
  obtain ⟨closeNow, hclose⟩ := hknown _ hallocate (by decide +kernel)
  exact ⟨closeNow, hclose, hloss closeNow hclose⟩

end Symm.Broker
