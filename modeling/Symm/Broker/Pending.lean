import Symm.Broker.TierSpec

/-!
# The lots that wait to be scored

A lot that stops out is queued under its symbol until the model has scored it.
A lot is accounted for while it is queued or scored; what a mark or a report
does to a tier keeps every lot accounted for, as long as no stop fires over a
lot of the same symbol that still waits, and none fires that calls nobody back.

- `Queued`: what the callbacks guarantee of a tier, an invariant of its runs;
- `Accounted`: a closed lot waits or is scored, unless it was restored closed;
- `SafeStop`: what is asked of a stop that fires.

The pending map has one place for a symbol, so a second stop on it takes the place of
the first. A fold over the open lots of a symbol settles one lot at most
(`settles_unique`), and so the map after the fold is the one before it, or that one with
the settled lot under the symbol (`pending_of_settles`). Every preservation lemma below
is a case analysis over these two, for the lot itself and for one that was waiting
already.
-/

namespace Symm.Broker

open Symm.System

namespace Tier

/-- What the callbacks guarantee: a lot with a callback is in the closed cache
or in the queue only once it has stopped out. -/
structure Queued (tier : Tier) : Prop where
  closed : ∀ s id p, tier.positions.closed.lookup s = some id → tier.lot id = some p →
    p.hasOnSettled = true → p.closedAt.isSome
  pending : ∀ s id p, tier.pending.lookup s = some id → tier.lot id = some p →
    p.hasOnSettled = true

/-- A closed lot, unless it was closed from the start, waits or is scored. -/
def Accounted (tier : Tier) (wasClosed scored : LotId → Prop) : Prop :=
  ∀ id p, tier.lot id = some p → p.closedAt.isSome → ¬ wasClosed id →
    (∃ s, tier.pending.lookup s = some id) ∨ scored id

/-- A stop that fires on this lot loses nobody: it calls back, and what waits
under its symbol is scored; or it calls nobody back and the lot is scored. -/
def SafeStop (tier : Tier) (scored : LotId → Prop) (symbol : String) (id : LotId)
    (p : Position) : Prop :=
  if p.hasOnSettled = true then ∀ waiting ∈ tier.pending.lookup symbol, scored waiting
  else scored id

instance (tier : Tier) (scored : LotId → Prop) [DecidablePred scored] (symbol : String)
    (id : LotId) (p : Position) : Decidable (tier.SafeStop scored symbol id p) :=
  inferInstanceAs (Decidable (if p.hasOnSettled = true then
    ∀ waiting ∈ tier.pending.lookup symbol, scored waiting
    else scored id))

section Touch

variable {order : MapOrder} {call : LotId → Position → Position × Bool}
  (hcall : ∀ id, Position.LotCall (call id))
  {tier : Tier} {symbol : String} (hwf : tier.WellFormed) (hq : tier.Queued)
  {ids : List LotId} (hnd : ids.Nodup) (hall : ∀ id ∈ ids, id ∈ tier.positions.all symbol)
include hcall hwf hall

/-- A call of the loop keeps the symbol of its lot. -/
theorem symbol_call {id : LotId} (hid : id ∈ ids) {p : Position} (hp : tier.lot id = some p) :
    (call id p).1.symbol = symbol := by
  rw [((hcall id).same p).symbol]
  exact hwf.symbol_of_all (hall id hid) hp

include hq

omit hwf in
/-- Only the open lot of the symbol settles. -/
theorem opened_of_settles {id : LotId} (hid : id ∈ ids) (h : tier.settlesAt call id = true) :
    tier.positions.opened.lookup symbol = some id := by
  rcases Cache.mem_all.mp (hall id hid) with hopened | hclosed
  · exact hopened
  · obtain ⟨p, hp, hcalled⟩ := settlesAt_iff.mp h
    have hsome := hq.closed symbol id p hclosed hp ((hcall id).owned p hcalled)
    rw [((hcall id).settled p hcalled).1] at hsome
    cases hsome

omit hwf in
/-- At most one lot of the loop settles, since a symbol has one open lot. -/
theorem settles_unique {id id' : LotId} (hid : id ∈ ids) (h : tier.settlesAt call id = true)
    (hid' : id' ∈ ids) (h' : tier.settlesAt call id' = true) : id' = id := by
  have ho := opened_of_settles hcall hq hall hid h
  have ho' := opened_of_settles hcall hq hall hid' h'
  exact Option.some.inj (ho'.symm.trans ho)

include hnd

/-- The queue after the fold: the same, or with the settled lot under the
symbol. -/
theorem pending_of_settles {id : LotId} (hid : id ∈ ids) (h : tier.settlesAt call id = true) :
    (ids.foldl (touch order call) tier).pending = tier.pending.insert symbol id := by
  rw [foldl_touch_pending hnd (fun id hid p hp => symbol_call hcall hwf hall hid hp)
    fun id' hid' h' => settles_unique hcall hq hall hid h hid' h',
    if_pos (List.any_eq_true.mpr ⟨id, hid, h⟩)]

omit hcall hwf hq hall in
/-- A loop in which no lot settles changes neither the pending map nor the caches. -/
theorem pending_of_quiet (h : ∀ id ∈ ids, tier.settlesAt call id = false) :
    (ids.foldl (touch order call) tier).pending = tier.pending ∧
      (ids.foldl (touch order call) tier).positions = tier.positions := by
  obtain ⟨lots, he⟩ := foldl_touch_of_quiet hnd h
  rw [he]
  exact ⟨rfl, rfl⟩

/-- A lot the fold has just closed, if it calls back, has called back. -/
theorem queued_foldl_touch : (ids.foldl (touch order call) tier).Queued := by
  -- at most one lot of the symbol settles: the one that is open
  by_cases hany : ∃ id ∈ ids, tier.settlesAt call id = true
  · obtain ⟨o, ho, hs⟩ := hany
    have hopened := opened_of_settles hcall hq hall ho hs
    obtain ⟨p, hp, hcalled⟩ := settlesAt_iff.mp hs
    have hlot : (ids.foldl (touch order call) tier).lot o = some (call o p).1 := by
      rw [lot_foldl_touch hnd, if_pos ho, hp, Option.map_some]
    constructor
    · intro s id q hsid hqlot howned
      rw [foldl_touch_positions hnd fun id hid p hp => symbol_call hcall hwf hall hid hp,
        if_pos (List.any_eq_true.mpr ⟨o, ho, hs⟩), Cache.lookup_remove_closed] at hsid
      split at hsid
      · rw [hopened, Option.some_or] at hsid
        cases hsid
        rw [hlot] at hqlot
        cases hqlot
        exact ((hcall o).settled p hcalled).2.1
      · obtain ⟨p', hp', hsame, hclosed⟩ := lot_of_foldl_touch hcall hnd hqlot
        exact hclosed (hq.closed s id p' hsid hp' (hsame.hasOnSettled ▸ howned))
    · intro s id q hsid hqlot
      obtain ⟨p', hp', hsame, -⟩ := lot_of_foldl_touch hcall hnd hqlot
      rw [pending_of_settles hcall hwf hq hnd hall ho hs] at hsid
      by_cases heq : s = symbol
      · rw [heq, AList.lookup_insert] at hsid
        cases hsid
        cases hp.symm.trans hp'
        exact hsame.hasOnSettled.trans ((hcall o).owned p hcalled)
      · rw [AList.lookup_insert_ne heq] at hsid
        exact hsame.hasOnSettled.trans (hq.pending s id p' hsid hp')
  · have hquiet : ∀ id ∈ ids, tier.settlesAt call id = false := fun id hid =>
      Bool.eq_false_of_not_eq_true fun h => hany ⟨id, hid, h⟩
    obtain ⟨hpend, hpos⟩ := pending_of_quiet hnd hquiet
    constructor
    · intro s id q hsid hqlot howned
      rw [hpos] at hsid
      obtain ⟨p, hp, hsame, hclosed⟩ := lot_of_foldl_touch hcall hnd hqlot
      exact hclosed (hq.closed s id p hsid hp (hsame.hasOnSettled ▸ howned))
    · intro s id q hsid hqlot
      rw [hpend] at hsid
      obtain ⟨p, hp, hsame, -⟩ := lot_of_foldl_touch hcall hnd hqlot
      exact hsame.hasOnSettled.trans (hq.pending s id p hsid hp)

/-- A fold of calls on lots of one symbol keeps the lots accounted for, if each
stop that fires is safe. -/
theorem accounted_foldl_touch {wasClosed scored : LotId → Prop}
    (hacc : tier.Accounted wasClosed scored)
    (hsafe : ∀ id ∈ ids, ∀ p, tier.lot id = some p → p.closedAt = none →
      (call id p).1.closedAt.isSome → tier.SafeStop scored symbol id p) :
    (ids.foldl (touch order call) tier).Accounted wasClosed scored := by
  -- what was accounted for still is: only a scored lot is queued over
  have hkeep : ∀ id, (∃ s, tier.pending.lookup s = some id) ∨ scored id →
      (∃ s, (ids.foldl (touch order call) tier).pending.lookup s = some id) ∨ scored id := by
    rintro id (⟨s, hs⟩ | hscored)
    · by_cases hany : ∃ o ∈ ids, tier.settlesAt call o = true
      · obtain ⟨o, ho, hset⟩ := hany
        rw [pending_of_settles hcall hwf hq hnd hall ho hset]
        by_cases heq : s = symbol
        · obtain ⟨p, hp, hcalled⟩ := settlesAt_iff.mp hset
          obtain ⟨hopen, hclosed, -⟩ := (hcall o).settled p hcalled
          have hstop := hsafe o ho p hp hopen hclosed
          rw [SafeStop, if_pos ((hcall o).owned p hcalled)] at hstop
          exact .inr (hstop id (heq ▸ hs))
        · exact .inl ⟨s, by rw [AList.lookup_insert_ne heq, hs]⟩
      · have hquiet : ∀ o ∈ ids, tier.settlesAt call o = false := fun o ho =>
          Bool.eq_false_of_not_eq_true fun h => hany ⟨o, ho, h⟩
        rw [(pending_of_quiet hnd hquiet).1]
        exact .inl ⟨s, hs⟩
    · exact .inr hscored
  intro id q hqlot hclosed hnew
  rw [lot_foldl_touch hnd] at hqlot
  split at hqlot
  · rename_i hid
    obtain ⟨p, hp, rfl⟩ := Option.map_eq_some_iff.mp hqlot
    cases hc : p.closedAt with
    | some t => exact hkeep id (hacc id p hp (by rw [hc, Option.isSome_some]) hnew)
    | none =>
      have hstop := hsafe id hid p hp hc hclosed
      unfold SafeStop at hstop
      split at hstop
      · rename_i howned
        have hset : tier.settlesAt call id = true := by
          rw [settlesAt_of_some hp]
          by_contra hquiet
          have hquiet := Bool.eq_false_of_not_eq_true hquiet
          rw [((hcall id).quiet p hquiet howned).mpr hc] at hclosed
          cases hclosed
        refine .inl ⟨symbol, ?_⟩
        rw [pending_of_settles hcall hwf hq hnd hall hid hset, AList.lookup_insert]
      · exact .inr hstop
  · exact hkeep id (hacc id q hqlot hclosed hnew)

end Touch

end Tier

end Symm.Broker
