import Symm.Broker.TierSpec

/-!
# Orders that fail

`Tier.Enter` and `Tier.Exit` write the caches first and hand the order to the
transport after. When marshalling or the write fails, `Send` rolls back with
`Cache.Drop`, which forgets the symbol in both caches. A failed order is
*harmless* when the caches end as they began; the theorem says for which tiers
the rollback is.

- `LosesOrders`: an order of the tier does not get to the exchange;
- `send_error`: what `Send` leaves then;
- `enterHarmless_iff`, `exitHarmless_iff`: when a rollback restores the caches.

An entry is written to the caches before it is sent, and only into a place that is free.
So its rollback undoes the entry, but with it goes the closed lot that the symbol had.
An exit has moved its lot to the closed cache by then, and the rollback drops it from
there: the lot is gone, and so is the closed lot that it took the place of.

The conditions are about the tier before the call. They are necessary as well, since a
symbol whose closed lot is lost has it in the cache before and not after.
-/

namespace Symm.Broker

open Symm.System Symm.Lib

namespace Tier

/-- Both caches hold what they held. -/
def SameCaches (tier tier' : Tier) : Prop :=
  ∀ s, tier'.positions.opened.lookup s = tier.positions.opened.lookup s ∧
    tier'.positions.closed.lookup s = tier.positions.closed.lookup s

/-- An order handed to the transport is lost. -/
def LosesOrders (env : Env) (tier : Tier) : Prop :=
  tier.hasTransport = true ∧ (env.marshalOk = false ∨ env.writeOk = false)

/-- An entry that returns an error leaves both caches alone. -/
def EnterHarmless (env : Env) (symbol path : String) (pathFound : Bool) (tier : Tier) : Prop :=
  (tier.enter env symbol path pathFound).2 ≠ none →
    SameCaches tier (tier.enter env symbol path pathFound).1

/-- An exit that returns an error leaves its lot in the open cache, if it was
there, and the closed cache alone. -/
def ExitHarmless (env : Env) (id : LotId) (p : Position) (tier : Tier) : Prop :=
  (tier.exit env p).2 ≠ none →
    (tier.positions.opened.lookup p.symbol = some id →
      (tier.exit env p).1.positions.opened.lookup p.symbol = some id) ∧
    ∀ s, (tier.exit env p).1.positions.closed.lookup s = tier.positions.closed.lookup s

/-! ## Sending -/

/-- An order is lost with an error and with the symbol, or causes none. -/
theorem send_error (env : Env) (p : Position) (action : SendAction) (tier : Tier) :
    (LosesOrders env tier ∧ (action.order p).isSome ∧ (tier.send env p action).2 ≠ none ∧
      (tier.send env p action).1.positions = tier.positions.drop p.symbol) ∨
    (¬ (LosesOrders env tier ∧ (action.order p).isSome) ∧ (tier.send env p action).2 = none) := by
  unfold send LosesOrders
  cases ht : tier.hasTransport with
  | false =>
    refine .inr ⟨?_, rfl⟩
    rintro ⟨⟨h, -⟩, -⟩
    cases h
  | true =>
    cases ho : action.order p with
    | none =>
      refine .inr ⟨?_, rfl⟩
      rintro ⟨-, h⟩
      cases h
    | some order =>
      cases hm : env.marshalOk with
      | false => exact .inl ⟨⟨rfl, .inl rfl⟩, rfl, nofun, rfl⟩
      | true =>
        cases hw : env.writeOk with
        | false => exact .inl ⟨⟨rfl, .inr rfl⟩, rfl, nofun, rfl⟩
        | true =>
          refine .inr ⟨?_, rfl⟩
          rintro ⟨⟨-, h | h⟩, -⟩ <;> cases h

theorem lookup_drop (cache : Cache) (symbol s : String) :
    (cache.drop symbol).opened.lookup s = (if s = symbol then none else cache.opened.lookup s) ∧
      (cache.drop symbol).closed.lookup s =
        if s = symbol then none else cache.closed.lookup s := by
  unfold Cache.drop
  by_cases hs : s = symbol
  · subst hs
    rw [if_pos rfl, if_pos rfl]
    exact ⟨AList.lookup_erase _ _, AList.lookup_erase _ _⟩
  · rw [if_neg hs, if_neg hs]
    exact ⟨AList.lookup_erase_ne hs, AList.lookup_erase_ne hs⟩

/-! ## Entering and exiting -/

/-- The rollback of an entry also drops the closed lot of the symbol. -/
theorem enterHarmless_iff (env : Env) (symbol path : String) (pathFound : Bool) (tier : Tier) :
    EnterHarmless env symbol path pathFound tier ↔
      ¬ (LosesOrders env tier ∧ path ≠ "" ∧ (∃ vol, tier.entryQty env symbol = .ok vol) ∧
        (tier.positions.closed.lookup symbol).isSome) := by
  unfold EnterHarmless
  rcases enter_cases env symbol path pathFound tier with ⟨hno, hsame, -⟩ |
    ⟨p, vol, hvol, hpath, hopened, henter⟩
  · -- no lot was entered, so nothing is rolled back
    rw [hsame]
    refine iff_of_true (fun _ _ => ⟨rfl, rfl⟩) ?_
    rintro ⟨-, hpath, ⟨vol, hvol⟩, -⟩
    rcases hno with hno | hno
    · exact hpath hno
    · exact hno vol hvol
  · have horder : (SendAction.enter.order p).isSome := by
      cases ho : p.entryOrder with
      | none =>
        have := hopened.buys
        rw [ho] at this
        cases this
      | some order => simp [SendAction.order, ho]
    have hfree := (entryQty_free hvol).1
    rw [Cache.has_eq_false] at hfree
    rw [henter]
    rcases send_error env p .enter (tier.addLot symbol p) with ⟨hlost, -, herr, hdrop⟩ |
      ⟨hkept, hok⟩
    · -- the rollback: `Drop` on the tier that already holds the new lot
      have hclosed : (tier.addLot symbol p).positions.closed = tier.positions.closed :=
        Cache.add_closed _ _ _
      have hback : SameCaches tier ((tier.addLot symbol p).send env p .enter).1 ↔
          tier.positions.closed.lookup symbol = none := by
        unfold SameCaches
        rw [hdrop, hopened.symbol]
        constructor
        · intro h
          have := (h symbol).2
          rw [(lookup_drop _ _ _).2, if_pos rfl] at this
          exact this.symm
        · intro hnone s
          rw [(lookup_drop _ _ _).1, (lookup_drop _ _ _).2, hclosed]
          by_cases hs : s = symbol
          · subst hs
            rw [if_pos rfl, if_pos rfl]
            exact ⟨hfree.symm, hnone.symm⟩
          · rw [if_neg hs, if_neg hs]
            refine ⟨?_, rfl⟩
            show (tier.positions.add symbol tier.lots.length).opened.lookup s = _
            unfold Cache.add
            split
            · rfl
            · exact AList.lookup_insert_ne hs
      have hlost' : LosesOrders env tier := hlost
      rw [hback, imp_iff_right herr, Option.isSome_iff_ne_none]
      constructor
      · rintro hnone ⟨-, -, -, hsome⟩
        exact hsome hnone
      · intro h
        by_contra hsome
        exact h ⟨hlost', hpath, ⟨vol, hvol⟩, hsome⟩
    · -- the order went out
      refine iff_of_true (fun herr => absurd hok herr) ?_
      rintro ⟨hlost, -⟩
      exact hkept ⟨hlost, horder⟩

/-- The rollback of an exit drops the lot from the cache it was moved to. -/
theorem exitHarmless_iff (env : Env) (id : LotId) (p : Position) (tier : Tier) :
    ExitHarmless env id p tier ↔
      ¬ (LosesOrders env tier ∧ p.exitOrder.isSome ∧
        (tier.positions.opened.lookup p.symbol = some id ∨
          (tier.positions.closed.lookup p.symbol).isSome)) := by
  unfold ExitHarmless exit
  dsimp only
  -- the lot is moved to the closed ones before the order is sent
  rcases send_error env p .exit { tier with positions := tier.positions.remove p.symbol } with
    ⟨hlost, horder, herr, hdrop⟩ | ⟨hkept, hok⟩
  · have hlost' : LosesOrders env tier := hlost
    have horder' : p.exitOrder.isSome := horder
    rw [imp_iff_right herr, hdrop, (lookup_drop _ _ _).1, if_pos rfl]
    constructor
    · rintro ⟨hopen, hclosed⟩ ⟨-, -, h | h⟩
      · exact absurd (hopen h) nofun
      · rw [← hclosed, (lookup_drop _ _ _).2, if_pos rfl] at h
        cases h
    · intro h
      refine ⟨fun hopen => absurd ⟨hlost', horder', .inl hopen⟩ h, fun s => ?_⟩
      rw [(lookup_drop _ _ _).2]
      by_cases hs : s = p.symbol
      · subst hs
        rw [if_pos rfl]
        by_contra hsome
        exact h ⟨hlost', horder', .inr (Option.isSome_iff_ne_none.mpr fun hn => hsome hn.symm)⟩
      · rw [if_neg hs, Cache.lookup_remove_closed, if_neg hs]
  · refine iff_of_true (fun herr => absurd hok herr) ?_
    rintro ⟨hlost, horder, -⟩
    exact hkept ⟨hlost, horder⟩

/-- When a failed order is harmless, for every tier, entry and exit. -/
theorem failed_orders_harmless_iff (tier : Tier) (env : Env) (symbol path : String)
    (pathFound : Bool) (id : LotId) (p : Position) :
    (EnterHarmless env symbol path pathFound tier ↔
      ¬ (LosesOrders env tier ∧ path ≠ "" ∧ (∃ vol, tier.entryQty env symbol = .ok vol) ∧
        (tier.positions.closed.lookup symbol).isSome)) ∧
    (ExitHarmless env id p tier ↔
      ¬ (LosesOrders env tier ∧ p.exitOrder.isSome ∧
        (tier.positions.opened.lookup p.symbol = some id ∨
          (tier.positions.closed.lookup p.symbol).isSome))) :=
  ⟨enterHarmless_iff env symbol path pathFound tier, exitHarmless_iff env id p tier⟩

/-- A transport whose write fails. -/
def sampleOutage (tag : String) : Env := { Desk.sampleEnv tag 9 99 with writeOk := false }

/-- After one round on the symbol a failed entry loses the closed lot, and a
failed exit loses the open one. -/
theorem sampleOutage_harmful :
    ¬ (EnterHarmless (sampleOutage "o") "A/B" "p" true
        (runFrom step (new Cfg.defaults .paper true [] []) (Desk.sampleRound "s" 100 80)) ∧
      ∀ p, (runFrom step (new Cfg.defaults .paper true [] [])
          ((Desk.sampleRound "s" 100 80).take 2)).lot 0 = some p →
        ExitHarmless (sampleOutage "o") 0 p
          (runFrom step (new Cfg.defaults .paper true [] [])
            ((Desk.sampleRound "s" 100 80).take 2))) := by
  rintro ⟨henter, -⟩
  rw [enterHarmless_iff] at henter
  refine henter ⟨⟨by decide +kernel, .inr rfl⟩, by decide, ?_, by decide +kernel⟩
  have hsized : ((runFrom step (new Cfg.defaults .paper true [] [])
      (Desk.sampleRound "s" 100 80)).entryQty (sampleOutage "o") "A/B").toOption = some 2 := by
    decide +kernel
  cases hq : (runFrom step (new Cfg.defaults .paper true [] [])
      (Desk.sampleRound "s" 100 80)).entryQty (sampleOutage "o") "A/B" with
  | error err =>
    rw [hq] at hsized
    cases hsized
  | ok vol => exact ⟨vol, rfl⟩

end Tier

end Symm.Broker
