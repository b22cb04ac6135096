import Mathlib.Data.Fintype.EquivFin
import Symm.Broker.Allocation
import Symm.Broker.Sampling

/-!
# Whose wallet sizes an entry

`Tier.Enter` hands `Allocate` a nil wallet, which resolves to the balance that
`NewDesk` gives the price: the paper tier's. An entry is then sized from the
paper tier's cash on every tier. What a sized entry costs is bounded by the
budget it was sized from; here is for which tiers that budget is their own.

- `ownCash`: the cash of a tier's own balance for a pair;
- `SizesFromOwn`: an entry that succeeds orders a volume whose cost, fee included, is
  within the budget of that cash;
- `CoversPaper`: for every pair the tier has as much as the paper tier.

One direction follows the budget through `Allocate`, whose sizes cost no more than they
may (`Broker.Walk`). The other needs a market for every desk that is not covered, in
which the entry is seen to be too large: one level a side, prices of one half and one, a
fraction that makes the budget come to one unit, and no limits. The first part of the
module sets that market up and computes what an entry does there; a free symbol is
always to be had.
-/

namespace Symm.Broker

open Symm.System Symm.Lib

namespace Tier

/-- The size of an entry is the one `Allocate` gives from the desk's balance. -/
theorem allocate_of_entryQty {env : Env} {symbol : String} {tier : Tier} {qty : Decimal}
    (h : tier.entryQty env symbol = .ok qty) :
    env.price.allocate env.cfg.risk symbol none = .ok (.ok qty) := by
  unfold entryQty at h
  split at h
  · cases h
  · cases hgate : tier.physicalGate env symbol with
    | error err =>
      rw [hgate] at h
      cases h
    | ok _ =>
      rw [hgate] at h
      change tier.sizeFree env symbol = .ok qty at h
      unfold sizeFree at h
      split at h
      · cases h
      · split at h
        · cases h
        · cases h
        · rename_i hsized
          split at h
          · cases h
          · cases h
            exact hsized

/-- The lot that an entry without error appends, of the size `Allocate` gave. -/
theorem lot_of_entered {env : Env} {symbol path : String} {pathFound : Bool} {tier : Tier}
    (h : (tier.enter env symbol path pathFound).2 = none) :
    ∃ p qty, (tier.enter env symbol path pathFound).1.lot tier.lots.length = some p ∧
      p.volume = qty ∧ env.price.allocate env.cfg.risk symbol none = .ok (.ok qty) := by
  rcases enter_cases env symbol path pathFound tier with ⟨-, -, herr⟩ |
    ⟨p, qty, hqty, -, hp, he⟩
  · exact absurd h herr
  · refine ⟨p, qty, ?_, ?_, ?_⟩
    · rw [he, lot, (send_frame env p .enter _).1]
      exact (lot_addLot tier symbol p).1
    · have hbuys := hp.buys
      unfold Position.volume
      cases ho : p.entryOrder with
      | none =>
        rw [ho] at hbuys
        cases hbuys
      | some order =>
        rw [ho] at hbuys
        have hvol : order.volume = some qty := congrArg Prod.snd (Option.some.inj hbuys)
        rw [Option.bind_some, hvol, Option.getD_some]
    · exact allocate_of_entryQty hqty

end Tier

/-! ## A market in which every wallet can be told apart -/

/-- One level a side: units are bid at a half and offered at one. -/
def unitBook : ManagedBook where
  bids := [⟨some (1 / 2), some 3⟩]
  asks := [⟨some 1, some 3⟩]
  spread := none
  midpoint := some (3 / 4)

/-- A market without fees or limits that trades in units. -/
def unitPrice (balance : Balance) (quote : String) : Price where
  books := fun _ => some unitBook
  blockReason := fun _ => ""
  fee := fun _ => some 0
  pair := fun _ => ⟨quote, some 0, some 0, none⟩
  balance := some balance
  formatSize := fun _ qty => some qty

/-- Risk limits that refuse nothing, at a fraction. -/
def unitRisk (fraction : ℚ) : Risk where
  maxFraction := fraction
  touchDivisor := 1
  maxEntrySpreadPct := 0
  maxEntryOpenDragPct := 100
  minTouchBidCash := 0
  maxAllowedLossPct := 1
  backingBandFrac := 1
  minBackingRatio := 0

/-- What the book comes to. -/
theorem unitBook_spec : bookReady unitBook = true ∧
    walk unitBook.asks 3 (some 1) 0 0 = (1, 1) ∧ walk unitBook.asks 1 none 0 0 = (1, 1) ∧
    walk unitBook.bids 1 none 0 0 = (1, 1 / 2) := by
  refine ⟨?_, ?_, ?_, ?_⟩ <;> decide +kernel

/-- The quotients of units. -/
theorem div_unit : checkedDiv 3 1 = .ok 3 ∧ Decimal.div 1 1 = 1 ∧
    Decimal.div 1 (1 + 0 * (1 / 100)) = 1 ∧ Decimal.div (-1 / 2) 1 * 100 = -50 := by
  refine ⟨?_, ?_, ?_, ?_⟩ <;> decide +kernel

/-- A budget of one buys one unit. -/
theorem sizeOn_unit (balance : Balance) (quote symbol : String) (fraction : ℚ) :
    (unitPrice balance quote).sizeOn (unitRisk fraction) unitBook symbol
      ⟨quote, some 0, some 0, none⟩ 0 1 1 0 0 = .ok (.ok 1) := by
  obtain ⟨hready, hwalk, -, -⟩ := unitBook_spec
  obtain ⟨hcap, hone, -, -⟩ := div_unit
  have hfee : afterFee 1 (some 0) .buy = some 1 := by norm_num [afterFee]
  have hconsume : consume unitBook (some 3) (some 1) .buy = .ok (1, 1) := by
    unfold consume
    norm_num [hwalk]
  have hbid : unitBook.bids.head?.bind Level.quantity = some 3 := rfl
  have hsized : (unitPrice balance quote).sizeBuy unitBook symbol ⟨quote, some 0, some 0, none⟩
      (some 0) 1 1 3 = .ok (1, 1) := by
    unfold Price.sizeBuy
    have hf : ((unitPrice balance quote).formatSize symbol 3).getD 3 = 3 := rfl
    norm_num [hf, hconsume]
    unfold Price.trim
    norm_num [hfee]
  unfold Price.sizeOn
  rw [if_neg (by rw [hready]; decide), hbid]
  norm_num [unitRisk, hcap, hsized, hone]

/-- At the fraction that makes the budget one, so do the wallet's cash. -/
theorem allocate_unit {balance : Balance} {quote : String} {cash : Decimal}
    (hcash : balance.cashFor quote = some cash) (hne : cash ≠ 0) (symbol : String) :
    (unitPrice balance quote).allocate (unitRisk (1 / cash)) symbol none = .ok (.ok 1) := by
  have hbudget : cash * (unitRisk (1 / cash)).maxFraction = 1 := by
    show cash * (1 / cash) = 1
    field_simp
  obtain ⟨-, -, hgross, -⟩ := div_unit
  have hpos : 0 < cash * (unitRisk (1 / cash)).maxFraction := by
    rw [hbudget]
    exact one_pos
  have hallocate : (unitPrice balance quote).allocate (unitRisk (1 / cash)) symbol none =
      (unitPrice balance quote).sizeOn (unitRisk (1 / cash)) unitBook symbol
        ⟨quote, some 0, some 0, none⟩ 0 (cash * (unitRisk (1 / cash)).maxFraction)
        (Decimal.div (cash * (unitRisk (1 / cash)).maxFraction) (1 + 0 * (1 / 100))) 0 0 :=
    Price.allocate_eq_sizeOn rfl hcash rfl rfl hpos rfl (by norm_num) rfl
  rw [hallocate, hbudget, hgross]
  exact sizeOn_unit balance quote symbol (1 / cash)

/-- A unit is bought at one. -/
theorem consume_unit : consume unitBook (some 1) none .buy = .ok (1, 1) := by
  obtain ⟨-, -, hwalk, -⟩ := unitBook_spec
  unfold consume
  norm_num [hwalk]

/-- At this price one unit costs one. -/
theorem walkCost_unit (balance : Balance) (quote symbol : String) :
    (unitPrice balance quote).walkCost symbol 1 = some 1 := by
  unfold Price.walkCost
  simp only [unitPrice, consume_unit, afterFee, Option.bind_eq_bind, Option.bind_some]
  norm_num [Except.toOption]

/-- Opening a unit and closing it at once costs half of it. -/
theorem closeNow_unit {balance : Balance} {quote : String} {cash : Decimal}
    (hcash : balance.cashFor quote = some cash) (hne : cash ≠ 0) (symbol : String) :
    (unitPrice balance quote).entryCloseNowPnLPct (unitRisk (1 / cash)) symbol =
      .ok (some (-50)) := by
  obtain ⟨hready, -, -, hwalk⟩ := unitBook_spec
  obtain ⟨-, hone, -, hhalf⟩ := div_unit
  -- sold at once, the unit brings half of what it cost
  have hsell : consume unitBook (some 1) none .sell = .ok (1, 1 / 2) := by
    unfold consume
    norm_num [hwalk]
  have hentry : (unitPrice balance quote).entryCost symbol 1 = some (1, 0) := by
    unfold Price.entryCost
    simp only [unitPrice, hready, consume_unit, afterFee, Option.bind_eq_bind, Option.bind_some,
      guard_true, zero_lt_one]
    norm_num [Except.toOption, hone]
  have hround : (unitPrice balance quote).roundTrip symbol (some 1) (some 1) (some 0) (some 0) =
      some (-1 / 2, 1) := by
    unfold Price.roundTrip
    simp only [unitPrice, hready, hsell, afterFee, Option.bind_eq_bind, Option.bind_some,
      guard_true, zero_lt_one, and_self]
    norm_num [Except.toOption]
  have hpnl : (unitPrice balance quote).pnlPct symbol (some 1) (some 1) (some 0) = some (-50) := by
    show (unitPrice balance quote).roundTripPct symbol (some 1) (some 1) (some 0) (some 0) = _
    unfold Price.roundTripPct
    rw [hround]
    simp only [Option.bind_eq_bind, Option.bind_some, zero_lt_one, guard_true, hhalf]
    rfl
  unfold Price.entryCloseNowPnLPct
  rw [allocate_unit hcash hne]
  simp only [bind, Except.bind, not_le.mpr zero_lt_one, if_false, hentry]
  exact congrArg Except.ok hpnl

/-- Nothing physical stands in the way of an entry. -/
theorem physical_unit {balance : Balance} {quote : String} {cash : Decimal}
    (hcash : balance.cashFor quote = some cash) (hne : cash ≠ 0) {symbol : String}
    (hs : symbol ≠ "") :
    checkEntryPhysical (some (unitPrice balance quote)) (unitRisk (1 / cash)) symbol = .ok none := by
  have hready : bookReady unitBook = true := unitBook_spec.1
  -- each reading of the unit book, one for each check of an entry
  have htouch : (unitPrice balance quote).touchBidCash symbol = some (3 / 2) := by
    unfold Price.touchBidCash
    simp only [unitPrice, unitBook, Option.bind_eq_bind, Option.bind_some, hs, ne_eq,
      not_false_eq_true, guard_true, List.take, List.map]
    norm_num
  have hratio : (unitPrice balance quote).backingRatio (unitRisk (1 / cash)) symbol =
      some (1 / 2) := by
    have hbid : sideCash unitBook.bids .buy (3 / 4 * (1 - 1)) (3 / 4 * (1 + 1)) 0 = 3 / 2 := by
      decide +kernel
    have hask : sideCash unitBook.asks .sell (3 / 4 * (1 - 1)) (3 / 4 * (1 + 1)) 0 = 3 := by
      decide +kernel
    have hmid : unitBook.midpoint = some (3 / 4) := rfl
    unfold Price.backingRatio
    simp only [unitPrice, unitRisk, hready, hmid, hbid, hask, Option.bind_eq_bind,
      Option.bind_some, hs, ne_eq, not_false_eq_true, guard_true]
    norm_num
  have hspread : (unitPrice balance quote).spreadPct symbol = none := by
    unfold Price.spreadPct
    simp only [unitPrice, hready, Option.bind_eq_bind, Option.bind_some, guard_true]
    rfl
  have hcap : openDragCapPct (unitPrice balance quote) (unitRisk (1 / cash)) symbol = .ok 100 := by
    have hfriction : (unitPrice balance quote).openDragBudgetPct symbol = .ok none := by
      unfold Price.openDragBudgetPct Price.friction
      rw [hspread]
      rfl
    unfold openDragCapPct
    rw [hfriction]
    show Except.ok (if (0 : Decimal) < 0 ∧ (100 : Decimal) < 2 * 0 then 2 * 0 else 100) = _
    norm_num
  have hbook : checkBookPhysical (unitPrice balance quote) (unitRisk (1 / cash)) symbol =
      .ok none := by
    unfold checkBookPhysical
    rw [htouch, hratio, closeNow_unit hcash hne, hcap]
    show (if decide ((3 / 2 : Decimal) < 0) = true then _ else
      if decide ((1 / 2 : Decimal) < 0) = true then _ else
        Except.ok (if (-50 : Decimal) < -100 then some (PhysicalRefusal.dragExceedsCap 100) else none)) = _
    norm_num
  unfold checkEntryPhysical
  dsimp only
  rw [if_neg, hbook]
  rintro ⟨hcapped, -⟩
  exact lt_irrefl (0 : ℚ) hcapped

namespace Tier

/-- What an entry reads in that market. -/
def unitEnv (balance : Balance) (quote : String) (cash : Decimal) : Env where
  now := 1
  epoch := 1
  tick := 1
  cfg := { Cfg.defaults with risk := unitRisk (1 / cash) }
  price := unitPrice balance quote
  pace := fun _ => 1
  uuid := toString
  marshalOk := true
  writeOk := true

/-- A symbol that passes the physical check passes the gate. -/
theorem physicalGate_ok {env : Env} {symbol : String} {tier : Tier}
    (h : checkEntryPhysical (some env.price) env.cfg.risk symbol = .ok none) :
    tier.physicalGate env symbol = .ok () := by
  unfold physicalGate
  split
  · rfl
  · rw [h]

/-- A virtual entry of a free symbol gets the size that is allocated. -/
theorem sizeFree_ok {env : Env} {symbol : String} {tier : Tier} {qty : Decimal}
    (hfree : tier.positions.has symbol = false)
    (h : env.price.allocate env.cfg.risk symbol none = .ok (.ok qty)) (hq : 0 < qty) :
    tier.sizeFree env symbol = .ok qty := by
  unfold sizeFree
  rw [hfree, h]
  exact if_neg (not_le.mpr hq)

/-- An unlocked tier enters a free symbol in that market. -/
theorem enter_unit {balance : Balance} {quote : String} {cash : Decimal}
    (hcash : balance.cashFor quote = some cash) (hne : cash ≠ 0) {tier : Tier} {symbol : String}
    (hs : symbol ≠ "") (hfree : tier.positions.has symbol = false) (hunlocked : tier.unlocked = true) :
    (tier.enter (unitEnv balance quote cash) symbol "p" true).2 = none := by
  have hgate : tier.physicalGate (unitEnv balance quote cash) symbol = .ok () :=
    physicalGate_ok (physical_unit hcash hne hs)
  have hsize : tier.sizeFree (unitEnv balance quote cash) symbol = .ok 1 :=
    sizeFree_ok hfree (allocate_unit hcash hne symbol) one_pos
  have hqty : tier.entryQty (unitEnv balance quote cash) symbol = .ok 1 := by
    unfold entryQty
    rw [hunlocked, hgate]
    exact hsize
  rcases enter_cases (unitEnv balance quote cash) symbol "p" true tier with ⟨hno, -, -⟩ |
    ⟨p, vol, -, -, -, he⟩
  · rcases hno with h | h
    · exact absurd h (by decide)
    · exact absurd hqty (h 1)
  · rw [he]
    rcases send_cases (unitEnv balance quote cash) p .enter (tier.addLot symbol p) with
      ⟨-, h⟩ | ⟨h, -⟩ | ⟨order, -, h⟩
    · rw [h]
    · rcases h with h | h <;> cases h
    · rw [h]

/-- There is always another symbol to enter. -/
theorem exists_free (tier : Tier) : ∃ symbol, symbol ≠ "" ∧ tier.positions.has symbol = false := by
  obtain ⟨symbol, hsymbol⟩ := Infinite.exists_notMem_finset
    (insert "" tier.positions.opened.keys.toFinset)
  rw [Finset.mem_insert, not_or, List.mem_toFinset] at hsymbol
  refine ⟨symbol, hsymbol.1, ?_⟩
  rw [Cache.has_eq_false, AList.lookup_eq_none]
  exact fun h => hsymbol.2 (AList.mem_keys.mp h)

end Tier

namespace Desk

/-! ## Own wallets -/

/-- The cash of a tier's own balance for a pair, zero if it has none. -/
def ownCash (desk : Desk) (tt : TierType) (pairQuote : String) : Decimal :=
  ((desk.tiers tt).balance.cashFor pairQuote).getD 0

/-- On a price wired by `NewDesk` and a book whose asks do not fall, an entry of
the tier that succeeds orders a volume whose fee-inclusive cost, walking the
asks, is at most the risk fraction of the tier's own cash. -/
def SizesFromOwn (desk : Desk) (tt : TierType) : Prop :=
  ∀ (env : Env) (symbol path : String) (pathFound : Bool),
    env.price.balance = some (desk.tiers .paper).balance →
    (∀ managed, env.price.books symbol = some managed → Ascending (offers managed.asks)) →
    ((desk.tiers tt).enter env symbol path pathFound).2 = none →
    ∃ p cost, ((desk.tiers tt).enter env symbol path pathFound).1.lot
        (desk.tiers tt).lots.length = some p ∧
      env.price.walkCost symbol p.volume = some cost ∧
      cost ≤ desk.ownCash tt (env.price.pair symbol).quote * env.cfg.risk.maxFraction

/-- For every pair the tier's own cash is as much as the paper tier's (as far
below zero, where that is negative). -/
def CoversPaper (desk : Desk) (tt : TierType) : Prop :=
  ∀ pairQuote cash, (desk.tiers .paper).balance.cashFor pairQuote = some cash →
    (0 < cash → cash ≤ desk.ownCash tt pairQuote) ∧
    (cash < 0 → desk.ownCash tt pairQuote ≤ cash)

/-- A budget of the covered cash is at most that of the covering one. -/
theorem CoversPaper.budget {desk : Desk} {tt : TierType} (h : desk.CoversPaper tt)
    {pairQuote : String} {cash fraction : Decimal}
    (hcash : (desk.tiers .paper).balance.cashFor pairQuote = some cash)
    (hbudget : 0 < cash * fraction) : cash * fraction ≤ desk.ownCash tt pairQuote * fraction := by
  obtain ⟨hpos, hneg⟩ := h pairQuote cash hcash
  rcases lt_trichotomy cash 0 with hc | hc | hc
  · have hf : fraction ≤ 0 := by
      by_contra hf
      exact absurd (mul_neg_of_neg_of_pos hc (not_le.mp hf)) (not_lt.mpr hbudget.le)
    exact mul_le_mul_of_nonpos_right (hneg hc) hf
  · rw [hc, zero_mul] at hbudget
    exact absurd hbudget (lt_irrefl 0)
  · have hf : 0 ≤ fraction := (pos_of_mul_pos_right hbudget hc.le).le
    exact mul_le_mul_of_nonneg_right (hpos hc) hf

/-- A tier whose own cash covers paper's sizes its entries from its own. -/
theorem sizesFromOwn_of_covers {desk : Desk} {tt : TierType} (h : desk.CoversPaper tt) :
    desk.SizesFromOwn tt := by
  intro env symbol path pathFound hbalance hasc hok
  obtain ⟨p, qty, hp, hvol, hsized⟩ := Tier.lot_of_entered hok
  -- without a wallet argument the shared balance is the one sized from
  have hdesk : ((none : Option Balance).orElse fun _ => env.price.balance) =
      some (desk.tiers .paper).balance := hbalance
  obtain ⟨cash, managed, fee, gross, hcash, hbudget, hbook, hfee, hfill⟩ :=
    Price.affordable_of_allocate hdesk hasc hsized
  obtain ⟨cost, hcost, hle⟩ := hfill.walkCost hbook hfee hbudget
  exact ⟨p, cost, hp, by rw [hvol]; exact hcost, hle.trans (h.budget hcash hbudget)⟩

/-- A tier that is unlocked and enters within its own wallet everywhere covers
the paper tier's. -/
theorem SizesFromOwn.covers {desk : Desk} {tt : TierType} (h : desk.SizesFromOwn tt)
    (hunlocked : (desk.tiers tt).unlocked = true) : desk.CoversPaper tt := by
  intro pairQuote cash hcash
  -- in the unit market at the fraction `1 / cash` the entry costs exactly one
  have hone : cash ≠ 0 → 1 ≤ desk.ownCash tt pairQuote * (1 / cash) := by
    intro hne
    obtain ⟨symbol, hs, hfree⟩ := (desk.tiers tt).exists_free
    have hasc : ∀ managed, (unitPrice (desk.tiers .paper).balance pairQuote).books symbol =
        some managed → Ascending (offers managed.asks) := by
      intro managed hbook
      cases hbook
      exact List.pairwise_singleton _ _
    have hok := Tier.enter_unit hcash hne hs hfree hunlocked
    obtain ⟨p, cost, hp, hcost, hle⟩ :=
      h (Tier.unitEnv (desk.tiers .paper).balance pairQuote cash) symbol "p" true rfl hasc hok
    obtain ⟨p', qty, hp', hvol, hsized⟩ := Tier.lot_of_entered hok
    rw [Option.some.inj (hp.symm.trans hp'), hvol] at hcost
    have hqty : qty = 1 := by
      have hunit := allocate_unit hcash hne symbol
      change (unitPrice (desk.tiers .paper).balance pairQuote).allocate (unitRisk (1 / cash)) symbol
        none = .ok (.ok qty) at hsized
      rw [hunit] at hsized
      exact (Except.ok.inj (Except.ok.inj hsized)).symm
    rw [hqty] at hcost
    have hcost' : cost = 1 := Option.some.inj (hcost.symm.trans (walkCost_unit _ _ symbol))
    rw [hcost'] at hle
    exact hle
  refine ⟨fun hpos => ?_, fun hneg => ?_⟩
  · have := hone hpos.ne'
    rwa [mul_one_div, le_div_iff₀ hpos, one_mul] at this
  · have := hone hneg.ne
    rwa [mul_one_div, le_div_iff_of_neg hneg, one_mul] at this

/-- For every desk: a tier sizes from its own wallet exactly if it is locked or
its cash covers the paper tier's. -/
theorem sizes_from_own_wallet_iff (desk : Desk) (tt : TierType) :
    desk.SizesFromOwn tt ↔ (desk.tiers tt).unlocked = false ∨ desk.CoversPaper tt := by
  constructor
  · intro h
    cases hu : (desk.tiers tt).unlocked with
    | false => exact .inl rfl
    | true => exact .inr (h.covers hu)
  · rintro (hlocked | hcovers)
    · intro env symbol path pathFound _ _ hok
      rcases Tier.enter_cases env symbol path pathFound (desk.tiers tt) with ⟨-, -, herr⟩ |
        ⟨p, qty, hqty, -⟩
      · exact absurd hok herr
      · rw [(Tier.entryQty_free hqty).2.2] at hlocked
        cases hlocked
    · exact sizesFromOwn_of_covers hcovers

/-- A wallet of dollars. -/
def usd (cash : Decimal) : Balance := ⟨"USD", fun asset => if asset = "USD" then some cash else none⟩

/-- An unlocked real tier with 50 dollars beside a paper tier with 1004. -/
def sampleWallets : Desk where
  tiers
    | .virtual => Tier.new Cfg.defaults .virtual false [] []
    | .paper => { Tier.new Cfg.defaults .paper true [] [] with balance := usd 1004 }
    | .real => { Tier.new Cfg.defaults .real true [] [] with balance := usd 50, unlocked := true }

/-- The real tier buys for 200.80 dollars, a fifth of the paper tier's. -/
theorem sampleWallets_oversized : ¬ sampleWallets.SizesFromOwn .real := by
  intro h
  have hok : ((sampleWallets.tiers .real).enter (sampleEnv "r" 1 99) "A/B" "p" true).2 = none := by
    decide +kernel
  have hcost : (((sampleWallets.tiers .real).enter (sampleEnv "r" 1 99) "A/B" "p" true).1.lot
      (sampleWallets.tiers .real).lots.length).bind
        (fun p => (sampleEnv "r" 1 99).price.walkCost "A/B" p.volume) = some (1004 / 5) := by
    decide +kernel
  have hbudget : sampleWallets.ownCash .real "USD" * (1 / 5) = 10 := by decide +kernel
  have hasc : ∀ managed, (sampleEnv "r" 1 99).price.books "A/B" = some managed →
      Ascending (offers managed.asks) := by
    intro managed hbook
    cases hbook
    have hasks : offers (sampleBook 99).asks = [(100, 300)] := by decide +kernel
    show Ascending (offers (sampleBook 99).asks)
    rw [hasks]
    exact List.pairwise_singleton _ _
  obtain ⟨p, cost, hp, hwalk, hle⟩ := h (sampleEnv "r" 1 99) "A/B" "p" true rfl hasc hok
  rw [hp, Option.bind_some, hwalk] at hcost
  change cost ≤ sampleWallets.ownCash .real "USD" * (1 / 5) at hle
  rw [hbudget, Option.some.inj hcost] at hle
  norm_num at hle

end Desk

end Symm.Broker
