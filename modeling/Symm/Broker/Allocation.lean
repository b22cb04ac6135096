import Symm.Broker.Walk

/-!
# What a sized entry rests on

`Allocate` sizes a long in three stages: a budget from a wallet's cash, a walk
of the asks under the touch cap and the gross budget, and a trim of the fill
until its fee-inclusive cost fits. Each stage is read back from its success, and
the last results bound the size by the touch cap and its cost by the budget.

- `allocate_ok`, `sizeOn_ok`, `sizeBuy_ok`, `trim_ok`: what a success says of each
  stage;
- `allocate_within_caps`: the size and its cost, from the stages.

A stage is read back from its success: each lemma assumes that the call returned a value
and gives all that must have been tested on the way, so the next one does not open it
again. `Lifted` and `Affordable` are what is handed on: a fill that the offers hold at
no less than their prices, and one whose cost with its fee fits the budget.

The formatter may leave less than it was given, and it may leave nothing: then the trim
walks a smaller fill, or none. The bounds hold whatever it does, since every fill that
is returned was walked and compared after it was formatted.
-/

namespace Symm.Broker

open Symm.System Symm.Lib

/-- The cash that `Allocate` reads of a wallet for a pair. -/
def Balance.cashFor (balance : Balance) (pairQuote : String) : Option Decimal :=
  (balance.cash pairQuote).orElse fun _ => balance.cash balance.quote

namespace Price

/-- The fee-inclusive cost of walking the asks for a quantity. -/
def walkCost (price : Price) (symbol : String) (qty : Decimal) : Option Decimal := do
  let managed ← price.books symbol
  let (_, gross) ← (consume managed (some qty) none .buy).toOption
  afterFee gross (price.fee symbol) .buy

/-! ## What a sized entry costs -/

/-- A fill that the offers hold and that was not bought below their prices. -/
structure Lifted (offers : List (Decimal × Decimal)) (filled gross : Decimal) : Prop where
  pos : 0 < filled
  held : filled ≤ depth offers
  cost : lift offers filled ≤ gross

/-- A fill whose fee-inclusive cost fits a budget. -/
structure Affordable (offers : List (Decimal × Decimal)) (fee : Option Decimal)
    (budget filled gross : Decimal) : Prop extends Lifted offers filled gross where
  fits : ∃ total, afterFee gross fee .buy = some total ∧ total ≤ budget

/-- An uncapped walk that succeeds lifts what it was asked for. -/
theorem lifted_of_consume {managed : ManagedBook} {qty filled gross : Decimal}
    (h : consume managed (some qty) none .buy = .ok (filled, gross)) :
    filled = qty ∧ Lifted (offers managed.asks) filled gross := by
  by_cases hq : 0 < qty
  · obtain ⟨hok, hfail⟩ := consume_uncapped managed hq .buy
    by_cases hd : qty ≤ depth (managed.offers .buy)
    · rw [hok hd] at h
      cases h
      exact ⟨rfl, hq, hd, le_refl _⟩
    · rw [hfail (not_le.mp hd)] at h
      cases h
  · unfold consume at h
    dsimp only at h
    rw [if_pos (not_lt.mp hq)] at h
    cases h

/-- The fee-inclusive cost of a gross amount is within a budget. -/
def Fits (fee : Option Decimal) (budget gross : Decimal) : Prop :=
  ∃ total, afterFee gross fee .buy = some total ∧ total ≤ budget

/-- It is known and beyond the budget. -/
def Over (fee : Option Decimal) (budget gross : Decimal) : Prop :=
  ∃ total, afterFee gross fee .buy = some total ∧ budget < total

/-- What fits the budget with its fee is not over it. -/
theorem Fits.not_over {fee : Option Decimal} {budget gross : Decimal}
    (h : Fits fee budget gross) : ¬ Over fee budget gross := by
  rintro ⟨total, htotal, hlt⟩
  obtain ⟨total', htotal', hle⟩ := h
  rw [htotal] at htotal'
  cases htotal'
  exact absurd hlt (not_lt.mpr hle)

/-! ## The trim -/

/-- One iteration of a trim that succeeds: the fill fits, or what the formatter
leaves of a part of it is walked and trimmed. -/
theorem trim_step {price : Price} {managed : ManagedBook} {symbol : String}
    {pair : InstrumentPair} {fee : Option Decimal} {budget : Decimal} {askPx : Option Decimal}
    {fail : SizeRefusal} {fuel : Nat} {filled gross : Decimal} {fill : Decimal × Decimal}
    (h : price.trim managed symbol pair fee budget askPx fail (fuel + 1) filled gross = .ok fill) :
    (Fits fee budget gross ∧ fill = (filled, gross)) ∨
    Over fee budget gross ∧ ∃ part next filled' gross',
      (price.formatSize symbol part).getD part = next ∧ next < filled ∧
      consume managed (some next) none .buy = .ok (filled', gross') ∧
      price.trim managed symbol pair fee budget askPx fail fuel filled' gross' = .ok fill := by
  unfold trim at h
  -- each test that fails ends the trim with a refusal, which is no size
  cases htotal : afterFee gross fee .buy with
  | none =>
    rw [htotal] at h
    cases h
  | some total =>
    rw [htotal] at h
    dsimp -zeta only at h
    by_cases hfits : total ≤ budget
    · rw [if_pos hfits] at h
      cases h
      exact .inl ⟨⟨total, htotal, hfits⟩, rfl⟩
    · rw [if_neg hfits] at h
      have hover : Over fee budget gross := ⟨total, htotal, not_le.mp hfits⟩
      cases askPx with
      | none => cases h
      | some ask =>
        dsimp -zeta only at h
        by_cases hask : ask ≤ 0
        · rw [if_pos hask] at h
          cases h
        · rw [if_neg hask] at h
          -- `part` goes to the formatter, and `next` is what it leaves
          extract_lets _ cut part next at h
          by_cases hcut : cut ≤ 0 ∨ filled ≤ cut
          · rw [if_pos hcut] at h
            cases h
          · rw [if_neg hcut] at h
            by_cases hnext : filled ≤ next
            · rw [if_pos hnext] at h
              cases h
            · rw [if_neg hnext] at h
              cases hconsume : consume managed (some next) none .buy with
              | error err =>
                rw [hconsume] at h
                cases h
              | ok walked =>
                obtain ⟨filled', gross'⟩ := walked
                rw [hconsume] at h
                dsimp only at h
                by_cases hpos : filled' ≤ 0
                · rw [if_pos hpos] at h
                  cases h
                · rw [if_neg hpos] at h
                  exact .inr ⟨hover, part, next, filled', gross', rfl, not_le.mp hnext,
                    hconsume, h⟩

/-- A fill that the trim walked: less than it started from, and as the formatter
left it. -/
structure Cut (price : Price) (symbol : String) (offers : List (Decimal × Decimal))
    (start : Decimal) (fill : Decimal × Decimal) : Prop
    extends Lifted offers fill.1 fill.2 where
  smaller : fill.1 < start
  formatted : ∃ part, fill.1 = (price.formatSize symbol part).getD part

/-- A trim that succeeds ends in a fill that fits: the one it was given if that
one does, and a cut one otherwise. -/
theorem trim_ok {price : Price} {managed : ManagedBook} {symbol : String}
    {pair : InstrumentPair} {fee : Option Decimal} {budget : Decimal} {askPx : Option Decimal}
    {fail : SizeRefusal} (fuel : Nat) {filled gross : Decimal} {fill : Decimal × Decimal}
    (h : price.trim managed symbol pair fee budget askPx fail fuel filled gross = .ok fill) :
    Fits fee budget fill.2 ∧
      (fill = (filled, gross) ∨
        Over fee budget gross ∧ Cut price symbol (offers managed.asks) filled fill) := by
  induction fuel generalizing filled gross with
  | zero => cases h
  | succ fuel ih =>
    rcases trim_step h with
      ⟨hfits, rfl⟩ | ⟨hover, part, next, filled', gross', hpart, hlt, hwalk, hrest⟩
    · exact ⟨hfits, .inl rfl⟩
    · obtain ⟨rfl, hlifted⟩ := lifted_of_consume hwalk
      obtain ⟨hfits, rfl | ⟨-, hcut⟩⟩ := ih hrest
      · exact ⟨hfits, .inr ⟨hover, hlifted, hlt, part, hpart.symm⟩⟩
      · exact ⟨hfits, .inr ⟨hover, hcut.toLifted, hcut.smaller.trans hlt, hcut.formatted⟩⟩

/-! ## The stages of an allocation -/

/-- `sizeBuy` walks the formatted touch cap under the gross budget, fills
something and trims it. -/
theorem sizeBuy_ok {price : Price} {managed : ManagedBook} {symbol : String}
    {pair : InstrumentPair} {fee : Option Decimal} {budget grossBudget touchCap : Decimal}
    {fill : Decimal × Decimal}
    (h : price.sizeBuy managed symbol pair fee budget grossBudget touchCap = .ok fill) :
    ∃ cap filled gross, (price.formatSize symbol touchCap).getD touchCap = cap ∧
      0 < touchCap ∧ 0 < cap ∧ 0 < filled ∧
      walk managed.asks cap (some grossBudget) 0 0 = (filled, gross) ∧
      price.trim managed symbol pair fee budget (managed.asks.head?.bind Level.price)
        (.cannotTrim budget filled) 8 filled gross = .ok fill := by
  unfold sizeBuy at h
  split at h
  · cases h
  · rename_i htouch
    dsimp only at h
    generalize hcap : (price.formatSize symbol touchCap).getD touchCap = cap at h
    cases hconsume : consume managed (some cap) (some grossBudget) .buy with
    -- every test that fails ends the call, so a success has passed them all
    | error err =>
      rw [hconsume] at h
      cases h
    | ok walked =>
      obtain ⟨filled, gross⟩ := walked
      rw [hconsume] at h
      dsimp only at h
      split at h
      · cases h
      · rename_i hpos
        unfold consume at hconsume
        dsimp only at hconsume
        split at hconsume
        · cases hconsume
        · rename_i hqty
          have hwalk : walk managed.asks cap (some grossBudget) 0 0 = (filled, gross) := by
            simpa using hconsume
          exact ⟨cap, filled, gross, rfl, not_le.mp htouch, not_le.mp hqty, not_le.mp hpos,
            hwalk, h⟩

/-- What `sizeOn` sizes is the fill of `sizeBuy` under the touch cap, and at
least the venue's minimum. -/
theorem sizeOn_ok {price : Price} {risk : Risk} {managed : ManagedBook}
    {symbol : String} {pair : InstrumentPair} {fee budget grossBudget qtyMin costMin qty : Decimal}
    (h : price.sizeOn risk managed symbol pair fee budget grossBudget qtyMin costMin =
      .ok (.ok qty)) :
    ∃ touchBid gross, managed.bids.head?.bind Level.quantity = some touchBid ∧
      price.sizeBuy managed symbol pair (some fee) budget grossBudget
        (Decimal.div touchBid risk.touchDivisor) = .ok (qty, gross) ∧ qtyMin ≤ qty := by
  unfold sizeOn checkedDiv at h
  -- the tests in their order: touch, its size, its division, the fill, the minima
  split at h
  · cases h
  · split at h
    · cases h
    · rename_i touchBid htouch
      split at h
      · cases h
      · split at h
        · cases h
        · rename_i touchCap hcap
          split at hcap
          · cases hcap
          · cases hcap
            split at h
            · cases h
            · rename_i filled gross hsized
              dsimp only at h
              split at h
              · cases h
              · rename_i hmin
                cases h
                exact ⟨touchBid, gross, htouch, hsized, not_lt.mp (not_or.mp hmin).1⟩

/-- With all that it reads at hand, `Allocate` sizes on the book. -/
theorem allocate_eq_sizeOn {price : Price} {risk : Risk} {symbol : String}
    {wallet : Option Balance} {desk : Balance} {cash qtyMin costMin fee : Decimal}
    {managed : ManagedBook} (hdesk : (wallet.orElse fun _ => price.balance) = some desk)
    (hcash : desk.cashFor (price.pair symbol).quote = some cash)
    (hqtyMin : (price.pair symbol).qtyMin = some qtyMin)
    (hcostMin : (price.pair symbol).costMin = some costMin)
    (hbudget : 0 < cash * risk.maxFraction) (hfee : price.fee symbol = some fee)
    (hrate : 1 + fee * (1 / 100) ≠ 0) (hbook : price.books symbol = some managed) :
    price.allocate risk symbol wallet =
      price.sizeOn risk managed symbol (price.pair symbol) fee (cash * risk.maxFraction)
        (Decimal.div (cash * risk.maxFraction) (1 + fee * (1 / 100))) qtyMin costMin := by
  simp only [Balance.cashFor] at hcash
  simp only [allocate, hdesk, hcash, hqtyMin, hcostMin, if_neg (not_le.mpr hbudget), hfee,
    checkedDiv, if_neg hrate, hbook]

/-- A size that `Allocate` gives: a positive budget from a wallet's cash, and a
book sized on. -/
theorem allocate_ok {price : Price} {risk : Risk} {symbol : String} {wallet : Option Balance}
    {qty : Decimal} (h : price.allocate risk symbol wallet = .ok (.ok qty)) :
    ∃ desk cash qtyMin costMin fee managed,
      (wallet.orElse fun _ => price.balance) = some desk ∧
      desk.cashFor (price.pair symbol).quote = some cash ∧
      (price.pair symbol).qtyMin = some qtyMin ∧
      0 < cash * risk.maxFraction ∧ price.fee symbol = some fee ∧
      price.books symbol = some managed ∧
      price.sizeOn risk managed symbol (price.pair symbol) fee (cash * risk.maxFraction)
        (Decimal.div (cash * risk.maxFraction) (1 + fee * (1 / 100))) qtyMin costMin =
        .ok (.ok qty) := by
  unfold allocate at h
  -- a way out before the book is a refusal or an error
  cases hdesk : wallet.orElse fun _ => price.balance with
  | none =>
    rw [hdesk] at h
    cases h
  | some desk =>
    rw [hdesk] at h
    dsimp only at h
    cases hcash : desk.cashFor (price.pair symbol).quote with
    | none =>
      unfold Balance.cashFor at hcash
      rw [hcash] at h
      cases h
    | some cash =>
      unfold Balance.cashFor at hcash
      rw [hcash] at h
      dsimp only at h
      split at h
      · rename_i qtyMin costMin hqtyMin hcostMin
        split at h
        · cases h
        · rename_i hbudget
          cases hfee : price.fee symbol with
          | none =>
            rw [hfee] at h
            cases h
          | some fee =>
            rw [hfee] at h
            dsimp only at h
            by_cases hrate : 1 + fee * (1 / 100) = 0
            · rw [checkedDiv, if_pos hrate] at h
              cases h
            · rw [checkedDiv, if_neg hrate] at h
              cases hbook : price.books symbol with
              | none =>
                rw [hbook] at h
                dsimp only at h
                split at h <;> cases h
              | some managed =>
                rw [hbook] at h
                exact ⟨desk, cash, qtyMin, costMin, fee, managed, rfl, hcash, hqtyMin,
                  not_le.mp hbudget, rfl, rfl, h⟩
      · cases h

/-! ## What it costs -/

/-- The first walk lifts what it fills at no less than its price. -/
theorem lifted_of_walk {levels : List Level} (hasc : Ascending (offers levels))
    {need : Decimal} (hn : 0 < need) {cash : Option Decimal} {filled gross : Decimal}
    (hpos : 0 < filled) (h : walk levels need cash 0 0 = (filled, gross)) :
    Lifted (offers levels) filled gross := by
  obtain ⟨r, hfill, hr, hd, hcost⟩ := paid_walk levels hasc hn.le cash 0 0
  rw [h, zero_add] at hfill hcost
  have hfilled : filled = r := hfill
  exact ⟨hpos, hfilled ▸ hd, hfilled ▸ hcost⟩

/-- Whatever branch the sizing took, the fill it returns can be paid. -/
theorem affordable_of_sizeBuy {price : Price} {managed : ManagedBook} {symbol : String}
    {pair : InstrumentPair} {fee : Option Decimal} {budget grossBudget touchCap : Decimal}
    {fill : Decimal × Decimal} (hasc : Ascending (offers managed.asks))
    (h : price.sizeBuy managed symbol pair fee budget grossBudget touchCap = .ok fill) :
    Affordable (offers managed.asks) fee budget fill.1 fill.2 := by
  obtain ⟨cap, filled, gross, -, -, hcap, hpos, hwalk, htrim⟩ := sizeBuy_ok h
  obtain ⟨hfits, rfl | ⟨-, hcut⟩⟩ := trim_ok 8 htrim
  · exact ⟨lifted_of_walk hasc hcap hpos hwalk, hfits⟩
  · exact ⟨hcut.toLifted, hfits⟩

/-- What a size that `Allocate` gives rests on: a positive budget from the
wallet's cash, and a fill of a ready book that fits it. -/
theorem affordable_of_allocate {price : Price} {risk : Risk} {symbol : String}
    {wallet : Option Balance} {desk : Balance} {qty : Decimal}
    (hdesk : (wallet.orElse fun _ => price.balance) = some desk)
    (hasc : ∀ managed, price.books symbol = some managed → Ascending (offers managed.asks))
    (h : price.allocate risk symbol wallet = .ok (.ok qty)) :
    ∃ cash managed fee gross, desk.cashFor (price.pair symbol).quote = some cash ∧
      0 < cash * risk.maxFraction ∧ price.books symbol = some managed ∧
      price.fee symbol = some fee ∧
      Affordable (offers managed.asks) (some fee) (cash * risk.maxFraction) qty gross := by
  obtain ⟨desk', cash, _, _, fee, managed, hdesk', hcash, -, hbudget, hfee, hbook, hsized⟩ :=
    allocate_ok h
  rw [hdesk] at hdesk'
  cases hdesk'
  obtain ⟨_, gross, -, hbuy, -⟩ := sizeOn_ok hsized
  exact ⟨cash, managed, fee, gross, hcash, hbudget, hbook, hfee,
    affordable_of_sizeBuy (hasc managed hbook) hbuy⟩

/-- Lifting an affordable fill costs no more than the budget. -/
theorem Affordable.walkCost {price : Price} {symbol : String} {managed : ManagedBook}
    {fee budget qty gross : Decimal} (hbook : price.books symbol = some managed)
    (hfee : price.fee symbol = some fee) (hbudget : 0 < budget)
    (h : Affordable (offers managed.asks) (some fee) budget qty gross) :
    ∃ cost, price.walkCost symbol qty = some cost ∧ cost ≤ budget := by
  have hconsume : consume managed (some qty) none .buy =
      .ok (qty, lift (offers managed.asks) qty) := (consume_uncapped managed h.pos .buy).1 h.held
  have hlift : 0 < lift (offers managed.asks) qty :=
    lift_pos (positive_offers _) h.pos (h.pos.trans_le h.held)
  have hgross : 0 < gross := hlift.trans_le h.cost
  obtain ⟨total, htotal, hfits⟩ := h.fits
  have hwalk : price.walkCost symbol qty =
      some (lift (offers managed.asks) qty * (1 + 1 / 100 * fee)) := by
    unfold Price.walkCost
    simp only [hbook, hconsume, hfee, afterFee, not_le.mpr hlift, Option.bind_eq_bind,
      Option.bind_some, Except.toOption, if_false]
  have hsum : total = gross * (1 + 1 / 100 * fee) := by
    unfold afterFee at htotal
    simp only [not_le.mpr hgross, if_false] at htotal
    exact (Option.some.inj htotal).symm
  refine ⟨_, hwalk, ?_⟩
  -- a rate that pays the buyer costs less than nothing
  rcases le_total 0 (1 + 1 / 100 * fee) with hrate | hrate
  · exact (mul_le_mul_of_nonneg_right h.cost hrate).trans (hsum ▸ hfits)
  · exact (mul_nonpos_of_nonneg_of_nonpos hlift.le hrate).trans hbudget.le

/-- A fill is no larger than the touch cap, whatever the formatter leaves of it. -/
theorem sizeBuy_le_touchCap {price : Price} {managed : ManagedBook} {symbol : String}
    {pair : InstrumentPair} {fee : Option Decimal} {budget grossBudget touchCap : Decimal}
    {fill : Decimal × Decimal}
    (hformat : ∀ size sized, 0 < size → price.formatSize symbol size = some sized → sized ≤ size)
    (h : price.sizeBuy managed symbol pair fee budget grossBudget touchCap = .ok fill) :
    fill.1 ≤ touchCap := by
  obtain ⟨cap, filled, gross, hcap, htouch, hpos, -, hwalk, htrim⟩ := sizeBuy_ok h
  have hle : cap ≤ touchCap := by
    rw [← hcap]
    cases hsized : price.formatSize symbol touchCap with
    | none => exact le_refl touchCap
    | some sized => exact hformat touchCap sized htouch hsized
  have hfilled : filled ≤ cap := by
    have hfill := (walk_capped managed.asks hpos.le grossBudget 0 0).1
    rw [hwalk, zero_add] at hfill
    exact hfill.trans_le (min_le_left _ _)
  obtain ⟨-, rfl | ⟨-, hcut⟩⟩ := trim_ok 8 htrim
  · exact hfilled.trans hle
  · exact hcut.smaller.le.trans (hfilled.trans hle)

/-- A size is positive, within the touch cap, and walking the asks for it costs,
fee included, no more than the fraction of the cash, however the walk rounds and
the formatter cuts. -/
theorem allocate_within_caps {price : Price} {risk : Risk} {symbol : String}
    {wallet : Option Balance} {desk : Balance} {cash touchBid qty : Decimal}
    {managed : ManagedBook}
    (hformat : ∀ size sized, 0 < size → price.formatSize symbol size = some sized → sized ≤ size)
    (hdesk : (wallet.orElse fun _ => price.balance) = some desk)
    (hcash : desk.cashFor (price.pair symbol).quote = some cash)
    (hbook : price.books symbol = some managed) (hasc : Ascending (offers managed.asks))
    (htouch : managed.bids.head?.bind Level.quantity = some touchBid)
    (h : price.allocate risk symbol wallet = .ok (.ok qty)) :
    0 < qty ∧ qty ≤ Decimal.div touchBid risk.touchDivisor ∧
      ∃ cost, price.walkCost symbol qty = some cost ∧ cost ≤ cash * risk.maxFraction := by
  obtain ⟨desk', cash', _, _, fee, managed', hdesk', hcash', -, hbudget, hfee, hbook', hsized⟩ :=
    allocate_ok h
  rw [hdesk] at hdesk'
  cases hdesk'
  rw [hcash] at hcash'
  cases hcash'
  rw [hbook] at hbook'
  cases hbook'
  obtain ⟨touchBid', gross, htouch', hbuy, -⟩ := sizeOn_ok hsized
  rw [htouch] at htouch'
  cases htouch'
  have hfill := affordable_of_sizeBuy hasc hbuy
  exact ⟨hfill.pos, sizeBuy_le_touchCap hformat hbuy, hfill.walkCost hbook hfee hbudget⟩

end Price

/-- The market of `TestAllocateRespectsCashBudget`: one level a side, far more of
it than a fifth of the cash buys. -/
def cashBoundPrice : Price where
  books := fun _ => some ⟨[⟨some 99, some 100000⟩], [⟨some 100, some 100000⟩], none, none⟩
  blockReason := fun _ => ""
  fee := fun _ => some (4 / 5)
  pair := fun _ => ⟨"USD", some (1 / 100), some 1, some (1 / 100)⟩
  balance := some ⟨"USD", fun _ => some 1000⟩
  formatSize := fun _ size => some (Decimal.truncate size 2)

/-- The size that a wallet of 1000 gets is within the share of the touch and of the wallet.
-/
theorem Price.allocate_within_caps_sample :
    0 < (19841269841269841 / 10 ^ 16 : ℚ) ∧
      (19841269841269841 / 10 ^ 16 : ℚ) ≤ Decimal.div 100000 Cfg.defaults.risk.touchDivisor ∧
      ∃ cost, cashBoundPrice.walkCost "BBB/USD" (19841269841269841 / 10 ^ 16) = some cost ∧
        cost ≤ 1000 * Cfg.defaults.risk.maxFraction := by
  have hdesk : ((none : Option Balance).orElse fun _ => cashBoundPrice.balance) =
      some ⟨"USD", fun _ => some 1000⟩ := rfl
  refine Price.allocate_within_caps ?_ hdesk rfl rfl ?_ rfl ?_
  · intro size sized hpos hsized
    cases hsized
    exact Decimal.truncate_le hpos.le 2
  · exact List.pairwise_singleton _ _
  · decide +kernel

end Symm.Broker
