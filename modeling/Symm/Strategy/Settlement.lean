import Symm.Broker.Pending
import Symm.Strategy.Scoring

/-!
# The settling of stopped lots

`Model.flushSettled` keys what it does by symbol: the first lot that resolves
settles its symbol, and `ClearPending` then empties the queue of every tier
under it. The lots of the other tiers are dropped from the queue with it,
scored or not; and a lot that stops out replaces the one that waits under its
symbol. No lot is lost as long as neither meets a lot that is not scored.

- `settle_cases`: one turn of the flush, and when it leaves a lot for later;
- `Reached`, `Waiting`: what a flush has come to, symbol by symbol;
- `SafeFlush`, `SafeEvent`: no lot that is not scored meets one of the two;
- `Ledger`: every closed lot waits or was scored, the invariant of a safe run;
- `settled_kept`: along such a run no outcome is lost.
-/

namespace Symm.Strategy

open Symm.System Symm.Lib Symm.Broker

namespace Model

/-- The lot that waits under a symbol in one tier. -/
def queuedOn (model : Model) (tt : TierType) (symbol : String) : Option (TierType × LotId) :=
  ((model.desk.tiers tt).pending.lookup symbol).map (tt, ·)

/-- The closed virtual lot of a symbol. -/
def closedOn (model : Model) (symbol : String) : Option (TierType × LotId) :=
  ((model.desk.tiers .virtual).positions.closed.lookup symbol).map (.virtual, ·)

/-- A lot that `flushSettled` settles on: it carries an exit path, or finds one. -/
def resolves (envelope : Envelope) (model : Model) (ref : TierType × LotId) : Bool :=
  (model.lot ref).any fun p => p.exitPath ≠ "" ∨ exitCut envelope p ≠ ""

/-- The first lot of a symbol that resolves, in the order of `flushSettled`. -/
def firstResolving (envelope : Envelope) (model : Model) (symbol : String) :
    Option (TierType × LotId) :=
  [model.queuedOn .virtual symbol, model.queuedOn .paper symbol, model.queuedOn .real symbol,
    model.closedOn symbol].findSome? (Option.filter (model.resolves envelope))

/-- On each symbol, only the lot that settles it waits without a score. -/
def SafeFlush (envelope : Envelope) (model : Model) : Prop :=
  ∀ tt, ∀ entry ∈ (model.desk.tiers tt).pending.entries,
    ∀ ref ∈ model.firstResolving envelope entry.1,
      ref = (tt, entry.2) ∨ (tt, entry.2) ∈ model.scored

/-- The stops that an event fires in the paper and real tiers are safe, and so
is the settling it begins with. -/
def SafeEvent (model : Model) : Event → Prop
  | .mark env symbol price => price.isSome → ∀ tt, tt ≠ .virtual →
      ∀ id ∈ (model.desk.tiers tt).positions.all symbol, ∀ p ∈ model.desk.lot tt id,
        p.fires (env tt) ((env tt).pace id) price = true →
        (model.desk.tiers tt).SafeStop (fun id => (tt, id) ∈ model.scored) symbol id p
  | .apply report => ∀ tt, tt ≠ .virtual →
      ∀ id ∈ (model.desk.tiers tt).positions.openOf report.2.symbol, ∀ p ∈ model.desk.lot tt id,
        p.firesOn (report.1 tt) ((report.1 tt).pace id) report.2 = true →
        (model.desk.tiers tt).SafeStop (fun id => (tt, id) ∈ model.scored) report.2.symbol id p
  | .step tick => model.SafeFlush tick.envelope

/-- The settling that a step begins with takes only scored lots off the queue. -/
def FlushScores (model : Model) : Event → Prop
  | .mark _ _ _ => True
  | .apply _ => True
  | .step tick =>
    let flushed := model.flushSettled tick.cfg.learning tick.envelope
    ∀ tt symbol id, (model.desk.tiers tt).pending.lookup symbol = some id →
      (flushed.desk.tiers tt).pending.lookup symbol = some id ∨ (tt, id) ∈ flushed.scored

/-- Every paper or real lot that stopped out since the start waits or is scored. -/
def NoneLost (start : Desk) (model : Model) : Prop :=
  ∀ tt, tt ≠ .virtual → (model.desk.tiers tt).Accounted
    (fun id => ∃ p, start.lot tt id = some p ∧ p.closedAt.isSome)
    (fun id => (tt, id) ∈ model.scored)

/-! ## What no step does -/

/-- Nothing is queued, moved to a closed cache or created closed. -/
structure Shrinks (desk desk' : Desk) : Prop where
  kept : LotsKept desk desk'
  born : ∀ tt id q, desk'.lot tt id = some q → q.closedAt.isSome → ∃ p, desk.lot tt id = some p
  closed : ∀ tt s id, (desk'.tiers tt).positions.closed.lookup s = some id →
    (desk.tiers tt).positions.closed.lookup s = some id
  pending : ∀ tt s id, (desk'.tiers tt).pending.lookup s = some id →
    (desk.tiers tt).pending.lookup s = some id

/-- Changing a lot moves none. -/
theorem tiers_setLot (desk : Desk) (tt : TierType) (id : LotId) (q : Position) (tt' : TierType) :
    ((desk.set tt ((desk.tiers tt).setLot id q)).tiers tt').positions =
        (desk.tiers tt').positions ∧
      ((desk.set tt ((desk.tiers tt).setLot id q)).tiers tt').pending =
        (desk.tiers tt').pending := by
  by_cases h : tt' = tt
  · rw [h, Desk.set_self]
    exact ⟨rfl, rfl⟩
  · rw [Desk.set_other _ _ h]
    exact ⟨rfl, rfl⟩

/-- Noting something on a lot takes nothing off the desk. -/
theorem Shrinks.setLot {desk : Desk} {tt : TierType} {id : LotId} {p q : Position}
    (hp : desk.lot tt id = some p) (hq : Noted p q) :
    Shrinks desk (desk.set tt ((desk.tiers tt).setLot id q)) where
  kept := LotsKept.setLot hp hq
  born tt' id' q' hq' _ := by
    rw [Desk.lot_set_setLot hp] at hq'
    split at hq'
    · rename_i h
      rw [h.1, h.2]
      exact ⟨p, hp⟩
    · exact ⟨q', hq'⟩
  closed tt' s id' h := by rwa [(tiers_setLot desk tt id q tt').1] at h
  pending tt' s id' h := by rwa [(tiers_setLot desk tt id q tt').2] at h

/-- Clearing a symbol leaves the others pending. -/
theorem lookup_clearPending (tier : Tier) (symbol s : String) (id : LotId)
    (h : (tier.clearPending symbol).pending.lookup s = some id) :
    tier.pending.lookup s = some id := by
  unfold Tier.clearPending at h
  split at h
  · exact h
  · by_cases heq : s = symbol
    · rw [heq, AList.lookup_erase] at h
      cases h
    · rwa [AList.lookup_erase_ne heq] at h

/-- No call of the model puts a lot among the pending ones. -/
theorem deskRel_shrinks : DeskRel Shrinks fun _ => True where
  refl desk := ⟨deskRel_lotsKept.refl desk, fun _ _ q hq _ => ⟨q, hq⟩, fun _ _ _ h => h,
    fun _ _ _ h => h⟩
  trans {desk desk' desk''} h h' := by
    refine ⟨deskRel_lotsKept.trans h.kept h'.kept, fun tt id r hr hc => ?_,
      fun tt s id hs => h.closed tt s id (h'.closed tt s id hs),
      fun tt s id hs => h.pending tt s id (h'.pending tt s id hs)⟩
    obtain ⟨q, hq⟩ := h'.born tt id r hr hc
    obtain ⟨r', hr', hqr⟩ := h'.kept tt id q hq
    cases hr.symm.trans hr'
    exact h.born tt id q hq (hqr.closedAt ▸ hc)
  hold _ _ _ p _ hp := Shrinks.setLot hp ⟨rfl, rfl, rfl, rfl, id⟩
  exit _ _ _ p path hp hpath := Shrinks.setLot hp ⟨rfl, rfl, rfl, rfl, fun _ => hpath⟩
  clear desk symbol := by
    refine ⟨deskRel_lotsKept.clear desk symbol, fun tt id q hq _ => ⟨q, ?_⟩, fun tt s id h => ?_,
      fun tt s id h => lookup_clearPending (desk.tiers tt) symbol s id h⟩
    · change ((desk.tiers tt).clearPending symbol).lot id = some q at hq
      rwa [Tier.lot, (Tier.clearPending_frame (desk.tiers tt) symbol).2.2.1] at hq
    · change ((desk.tiers tt).clearPending symbol).positions.closed.lookup s = some id at h
      rwa [(Tier.clearPending_frame (desk.tiers tt) symbol).2.2.2] at h
  -- only the entered tier changes, and the one lot it may gain is open
  enter desk env symbol path tt pathFound _ := by
    have hmaps := Tier.enter_maps ((desk.tiers tt).unlock (some (desk.tiers .paper))) env symbol
      path pathFound
    refine ⟨deskRel_lotsKept.enter desk env symbol path tt pathFound trivial,
      fun tt' id q hq hc => ?_, fun tt' s id h => ?_, fun tt' s id h => ?_⟩
    · by_cases htt : tt' = tt
      · subst htt
        rw [Desk.enter, Desk.lot, Desk.set_self] at hq
        rcases Tier.lot_of_enter hq with hold | ⟨-, hopen⟩
        · exact ⟨q, hold⟩
        · rw [hopen] at hc
          cases hc
      · rw [Desk.enter, Desk.lot, Desk.set_other _ _ htt] at hq
        exact ⟨q, hq⟩
    · by_cases htt : tt' = tt
      · subst htt
        rw [Desk.enter, Desk.set_self] at h
        exact hmaps.2 s id h
      · rwa [Desk.enter, Desk.set_other _ _ htt] at h
    · by_cases htt : tt' = tt
      · subst htt
        rw [Desk.enter, Desk.set_self, hmaps.1] at h
        exact h
      · rwa [Desk.enter, Desk.set_other _ _ htt] at h

/-- Tasks leave the queues alone. -/
theorem taskRel_pending :
    TaskRel (fun desk desk' : Desk => ∀ tt, (desk'.tiers tt).pending = (desk.tiers tt).pending)
      fun _ => True where
  refl _ _ := rfl
  trans h h' tt := (h' tt).trans (h tt)
  hold desk tt id p path _ tt' := (tiers_setLot desk tt id { p with holdPaths := [path] } tt').2
  exit desk tt id p path _ _ tt' := (tiers_setLot desk tt id { p with exitPath := path } tt').2
  enter desk env symbol path tt pathFound _ tt' := by
    by_cases htt : tt' = tt
    · subst htt
      rw [Desk.enter, Desk.set_self]
      exact (Tier.enter_maps ((desk.tiers tt').unlock (some (desk.tiers .paper))) env symbol
        path pathFound).1
    · rw [Desk.enter, Desk.set_other _ _ htt]

/-- Settling leaves the caches alone. -/
theorem deskRel_positions :
    DeskRel (fun desk desk' : Desk => ∀ tt, (desk'.tiers tt).positions = (desk.tiers tt).positions)
      fun _ => False where
  refl _ _ := rfl
  trans h h' tt := (h' tt).trans (h tt)
  hold desk tt id p path _ tt' := (tiers_setLot desk tt id { p with holdPaths := [path] } tt').1
  exit desk tt id p path _ _ tt' := (tiers_setLot desk tt id { p with exitPath := path } tt').1
  enter _ _ _ _ _ _ h := h.elim
  clear desk symbol tt := (Tier.clearPending_frame (desk.tiers tt) symbol).2.2.2

/-! ## Settling one lot -/

/-- The cut of an exit is not the path of the entry. -/
theorem exitCut_ne_entryPath {envelope : Envelope} {p : Position}
    (h : exitCut envelope p ≠ "") : exitCut envelope p ≠ p.entryPath := by
  have hguard : ∀ path : String,
      (if path = "" ∨ path = p.entryPath then "" else path) ≠ "" →
      (if path = "" ∨ path = p.entryPath then "" else path) ≠ p.entryPath := by
    intro path hne
    by_cases hpath : path = "" ∨ path = p.entryPath
    · rw [if_pos hpath] at hne
      exact absurd rfl hne
    · rw [if_neg hpath]
      exact (not_or.mp hpath).2
  exact hguard _ h

/-- An exit over a path of its own scores the lot. -/
theorem exit_of_path {model : Model} {ref : TierType × LotId} {p : Position}
    (hp : model.lot ref = some p) {path : String} (hpath : path ≠ "")
    (hentry : path ≠ p.entryPath) (learn : Learning) :
    (model.exit learn path ref).scored = model.scored ++ [ref] := by
  rcases exit_cases learn path model ref with he | ⟨q, -, -, -, -, hs⟩
  · unfold exit at he
    rw [hp] at he
    dsimp only at he
    rw [if_neg (not_or.mpr ⟨hpath, hentry⟩)] at he
    have hlen := congrArg (fun m : Model => m.scores.length) he
    simp at hlen
  · rw [scored, hs, List.map_append]
    rfl

/-- The callback leaves everything as it is, or settles the symbol of its lot:
the lot is then scored unless it carries an exit path, and every queue is
cleared of the symbol. -/
theorem settle_cases (learn : Learning) (envelope : Envelope) (acc : Model × List String)
    (ref : TierType × LotId) :
    (settle learn envelope acc ref = acc ∧ ∀ p, acc.1.lot ref = some p → p.symbol ∉ acc.2 →
      acc.1.resolves envelope ref = false) ∨
    ∃ p model, acc.1.lot ref = some p ∧ p.symbol ∉ acc.2 ∧
      acc.1.resolves envelope ref = true ∧
      (model = acc.1 ∧ p.exitPath ≠ "" ∨
        model = acc.1.exit learn (exitCut envelope p) ref ∧ exitCut envelope p ≠ "") ∧
      (settle learn envelope acc ref).1.desk = model.desk.clearPending p.symbol ∧
      (settle learn envelope acc ref).1.scores = model.scores ∧
      (settle learn envelope acc ref).2 = p.symbol :: acc.2 := by
  unfold settle resolves
  dsimp only
  cases hl : acc.1.lot ref with
  | none => exact .inl ⟨rfl, fun p hp => by cases hp⟩
  | some p =>
    dsimp only
    -- the symbol was settled already in this flush
    split
    · rename_i hseen
      refine .inl ⟨rfl, fun q hq hnot => ?_⟩
      cases hq
      exact absurd hseen hnot
    · rename_i hunseen
      split
      · rename_i hexit
        exact .inr ⟨p, acc.1, rfl, hunseen, by simp [hexit], .inl ⟨rfl, hexit⟩, rfl, rfl, rfl⟩
      · rename_i hexit
        split
        · rename_i hcut
          refine .inl ⟨rfl, fun q hq _ => ?_⟩
          simp [hcut, not_not.mp hexit]
        · rename_i hcut
          exact .inr ⟨p, acc.1.exit learn (exitCut envelope p) ref, rfl, hunseen, by simp [hcut],
            .inr ⟨rfl, hcut⟩, rfl, rfl, rfl⟩

section Flush

variable {learn : Learning} {envelope : Envelope} {start : Model} {s : String}

/-- The flush has reached this point from `start`. -/
structure Reached (start : Model) (acc : Model × List String) : Prop where
  desk : Shrinks start.desk acc.1.desk
  scored : ∀ ref ∈ start.scored, ref ∈ acc.1.scored

/-- Nothing has happened to the symbol yet. -/
structure Waiting (start : Model) (s : String) (acc : Model × List String) : Prop where
  unseen : s ∉ acc.2
  queue : ∀ tt, acc.1.queuedOn tt s = start.queuedOn tt s
  lots : ∀ ref p, start.lot ref = some p → p.symbol = s → acc.1.lot ref = some p

/-- The symbol is settled, and everything that waited under it is scored. -/
def Settled (start : Model) (s : String) (acc : Model × List String) : Prop :=
  s ∈ acc.2 ∧ ∀ tt, ∀ ref ∈ start.queuedOn tt s, ref ∈ acc.1.scored

/-- What was scored stays scored. -/
theorem scored_settle (acc : Model × List String) (ref : TierType × LotId) :
    ∀ x ∈ acc.1.scored, x ∈ (settle learn envelope acc ref).1.scored := by
  intro x hx
  rcases settle_cases learn envelope acc ref with ⟨he, -⟩ | ⟨p, m, -, -, -, hm, -, hs, -⟩
  · rwa [he]
  · rw [scored, hs]
    rcases hm with ⟨rfl, -⟩ | ⟨rfl, -⟩
    · exact hx
    · rcases exit_cases learn (exitCut envelope p) acc.1 ref with he | ⟨_, -, -, -, -, hs'⟩
      · rwa [he]
      · rw [hs', List.map_append]
        exact List.mem_append_left _ hx

/-- A turn of the flush keeps what the flush has reached. -/
theorem Reached.settle {acc : Model × List String} (h : Reached start acc)
    (ref : TierType × LotId) : Reached start (settle learn envelope acc ref) :=
  ⟨deskRel_shrinks.trans h.desk (rel_settle deskRel_shrinks learn envelope acc ref),
    fun x hx => scored_settle acc ref x (h.scored x hx)⟩

/-- A symbol that was settled stays so. -/
theorem Settled.settle {acc : Model × List String} (h : Settled start s acc)
    (ref : TierType × LotId) : Settled start s (settle learn envelope acc ref) := by
  refine ⟨?_, fun tt x hx => scored_settle acc ref x (h.2 tt x hx)⟩
  rcases settle_cases learn envelope acc ref with ⟨he, -⟩ | ⟨p, -, -, -, -, -, -, -, hseen⟩
  · rw [he]
    exact h.1
  · rw [hseen]
    exact List.mem_cons_of_mem p.symbol h.1

/-- Settling another symbol. -/
theorem Waiting.settle_other {acc : Model × List String} (h : Waiting start s acc)
    {ref : TierType × LotId} (hs : ∀ p, acc.1.lot ref = some p → p.symbol ≠ s) :
    Waiting start s (settle learn envelope acc ref) := by
  rcases settle_cases learn envelope acc ref with
    ⟨he, -⟩ | ⟨p, m, hp, -, -, hm, hdesk, -, hseen⟩
  · rw [he]
    exact h
  have hps := hs p hp
  -- scoring the lot wrote it at most, and left the queues as they were
  have hm : (∀ tt, m.queuedOn tt s = acc.1.queuedOn tt s) ∧
      ∀ x, x ≠ ref → m.lot x = acc.1.lot x := by
    rcases hm with ⟨rfl, -⟩ | ⟨rfl, -⟩
    · exact ⟨fun _ => rfl, fun _ _ => rfl⟩
    · rcases exit_cases learn (exitCut envelope p) acc.1 ref with he | ⟨q, hq, -, -, hd, -⟩
      · rw [he]
        exact ⟨fun _ => rfl, fun _ _ => rfl⟩
      · refine ⟨fun tt => ?_, fun x hx => ?_⟩
        · rw [queuedOn, hd, (tiers_setLot _ _ _ _ tt).2]
          rfl
        · rw [lot, hd, Desk.lot_set_setLot hq, if_neg fun h => hx (Prod.ext h.1 h.2)]
          rfl
  constructor
  · rw [hseen, List.mem_cons, not_or]
    exact ⟨hps.symm, h.unseen⟩
  · intro tt
    rw [← h.queue tt, ← hm.1 tt, queuedOn, hdesk]
    refine congrArg (Option.map _) ?_
    show ((m.desk.tiers tt).clearPending p.symbol).pending.lookup s = _
    unfold Tier.clearPending
    split
    · rfl
    · exact AList.lookup_erase_ne hps.symm
  · intro x q hq hqs
    have hold := h.lots x q hq hqs
    have hx : x ≠ ref := by
      rintro rfl
      exact hs q hold hqs
    rw [lot, hdesk]
    show ((m.desk.tiers x.1).clearPending p.symbol).lot x.2 = some q
    rw [Tier.lot, (Tier.clearPending_frame _ _).2.2.1]
    exact (hm.2 x hx).trans hold

/-- Settling the symbol with a lot that is the only one waiting without a score. -/
theorem Waiting.settle_winner {acc : Model × List String} (h : Waiting start s acc)
    (hr : Reached start acc) {ref : TierType × LotId} {p : Position}
    (hp : start.lot ref = some p) (hps : p.symbol = s)
    (hres : start.resolves envelope ref = true)
    (hnoted : p.exitPath ≠ "" → ∀ tt, start.queuedOn tt s = some ref → ref ∈ start.scored)
    (hwin : ∀ tt, ∀ x ∈ start.queuedOn tt s, ref = x ∨ x ∈ start.scored) :
    Settled start s (settle learn envelope acc ref) := by
  have hlot := h.lots ref p hp hps
  have hres' : acc.1.resolves envelope ref = true := by
    rw [resolves, hlot, ← hp]
    exact hres
  rcases settle_cases learn envelope acc ref with
    ⟨-, hnot⟩ | ⟨q, m, hq, -, -, hm, -, hs, hseen⟩
  · rw [hnot p hlot (hps ▸ h.unseen)] at hres'
    cases hres'
  cases hlot.symm.trans hq
  refine ⟨by rw [hseen, hps]; exact List.mem_cons_self, fun tt x hx => ?_⟩
  rcases hwin tt x hx with rfl | hx'
  · rw [scored, hs]
    rcases hm with ⟨rfl, hexit⟩ | ⟨rfl, hcut⟩
    · exact hr.scored ref (hnoted hexit tt hx)
    · have hscore := exit_of_path hlot hcut (exitCut_ne_entryPath hcut) learn
      rw [scored] at hscore
      rw [hscore]
      exact List.mem_append_right _ (List.mem_singleton_self ref)
  · exact scored_settle acc ref x (hr.scored x hx')

/-- A lot that does not resolve settles nothing. -/
theorem Waiting.settle_loser {acc : Model × List String} (h : Waiting start s acc)
    {ref : TierType × LotId} {p : Position} (hp : start.lot ref = some p) (hps : p.symbol = s)
    (hres : start.resolves envelope ref = false) :
    Waiting start s (settle learn envelope acc ref) := by
  have hlot := h.lots ref p hp hps
  rcases settle_cases learn envelope acc ref with ⟨he, -⟩ | ⟨q, m, -, -, hres', -⟩
  · rw [he]
    exact h
  · rw [resolves, hlot, ← hp, ← resolves, hres] at hres'
    cases hres'

end Flush

/-! ## Settling all of them -/

section Stages

variable {learn : Learning} {envelope : Envelope} {start : Model} {s : String}

theorem Reached.foldl_settle {acc : Model × List String} (h : Reached start acc)
    (refs : List (TierType × LotId)) :
    Reached start (refs.foldl (Model.settle learn envelope) acc) := by
  induction refs generalizing acc with
  | nil => exact h
  | cons ref rest ih => exact ih (h.settle ref)

/-- A loop over lots settles each symbol at most once. -/
theorem Settled.foldl_settle {acc : Model × List String} (h : Settled start s acc)
    (refs : List (TierType × LotId)) :
    Settled start s (refs.foldl (Model.settle learn envelope) acc) := by
  induction refs generalizing acc with
  | nil => exact h
  | cons ref rest ih => exact ih (h.settle ref)

/-- The callbacks on a list of lots of which `own` is the one of the symbol
settle it if `own` resolves, and leave it waiting otherwise. -/
theorem foldl_settle_stage {refs : List (TierType × LotId)} {own : Option (TierType × LotId)}
    (hnoted : ∀ tt, ∀ ref ∈ start.queuedOn tt s, ∀ p ∈ start.lot ref, p.exitPath ≠ "" →
      ref ∈ start.scored)
    (hrefs : ∀ ref ∈ refs, ∃ p, start.lot ref = some p ∧ (p.symbol = s → own = some ref))
    (hown : ∀ ref ∈ own, (∃ p, start.lot ref = some p ∧ p.symbol = s) ∧
      (ref ∈ refs ∨ start.resolves envelope ref = false))
    (hwin : ∀ ref ∈ own.filter (start.resolves envelope), ∀ tt, ∀ x ∈ start.queuedOn tt s,
      ref = x ∨ x ∈ start.scored)
    {acc : Model × List String} (hr : Reached start acc) (hw : Waiting start s acc) :
    Settled start s (refs.foldl (settle learn envelope) acc) ∨
      Waiting start s (refs.foldl (settle learn envelope) acc) ∧
        own.filter (start.resolves envelope) = none := by
  induction refs generalizing acc with
  | nil =>
    refine .inr ⟨hw, Option.filter_eq_none_iff.mpr fun ref href => ?_⟩
    rcases (hown ref href).2 with hmem | hres
    · cases hmem
    · rw [hres]
      exact Bool.false_ne_true
  | cons ref rest ih =>
    rw [List.foldl_cons]
    obtain ⟨p, hp, hps⟩ := hrefs ref List.mem_cons_self
    have hrest : ∀ x ∈ rest, ∃ p, start.lot x = some p ∧ (p.symbol = s → own = some x) :=
      fun x hx => hrefs x (List.mem_cons_of_mem ref hx)
    -- the head is the lot of the symbol, or a lot of another one
    by_cases hsym : p.symbol = s
    · have hmine := hps hsym
      cases hres : start.resolves envelope ref with
      | true =>
        have hfilter : ref ∈ own.filter (start.resolves envelope) := by
          rw [hmine]
          exact Option.filter_some_pos hres
        refine .inl (Settled.foldl_settle (hw.settle_winner hr hp hsym hres ?_ ?_) rest)
        · exact fun hexit tt hq => hnoted tt ref hq p hp hexit
        · exact hwin ref hfilter
      | false =>
        refine ih hrest (fun x hx => ⟨(hown x hx).1, .inr ?_⟩) (hr.settle ref)
          (hw.settle_loser hp hsym hres)
        rw [hmine] at hx
        rw [← Option.some.inj hx, hres]
    · refine ih hrest (fun x hx => ⟨(hown x hx).1, ?_⟩) (hr.settle ref) (hw.settle_other ?_)
      · rcases (hown x hx).2 with hmem | hres
        · rcases List.mem_cons.mp hmem with rfl | hmem
          · obtain ⟨q, hq, hqs⟩ := (hown x hx).1
            cases hp.symm.trans hq
            exact absurd hqs hsym
          · exact .inl hmem
        · exact .inr hres
      · intro q hq
        obtain ⟨q', hq', hnote⟩ := hr.desk.kept ref.1 ref.2 p hp
        cases hq.symm.trans hq'
        rw [hnote.symbol]
        exact hsym

theorem Reached.settleTier {acc : Model × List String} (h : Reached start acc) (tt : TierType) :
    Reached start (Model.settleTier learn envelope acc tt) := h.foldl_settle _

theorem Settled.settleTier {acc : Model × List String} (h : Settled start s acc)
    (tt : TierType) : Settled start s (Model.settleTier learn envelope acc tt) := h.foldl_settle _

theorem positions_settleTier (acc : Model × List String) (tt tt' : TierType) :
    ((settleTier learn envelope acc tt).1.desk.tiers tt').positions =
      (acc.1.desk.tiers tt').positions :=
  rel_foldl_settle deskRel_positions learn envelope _ acc tt'

/-- The lot that settles a symbol is the first that resolves, tier by tier, and among the
pending ones before the closed ones. -/
theorem firstResolving_eq : start.firstResolving envelope s =
    ((start.queuedOn .virtual s).filter (start.resolves envelope)).or
      (((start.queuedOn .paper s).filter (start.resolves envelope)).or
        (((start.queuedOn .real s).filter (start.resolves envelope)).or
          ((start.closedOn s).filter (start.resolves envelope)))) := by
  unfold firstResolving
  simp only [List.findSome?_cons, List.findSome?_nil]
  cases (start.queuedOn .virtual s).filter (start.resolves envelope) <;>
    cases (start.queuedOn .paper s).filter (start.resolves envelope) <;>
    cases (start.queuedOn .real s).filter (start.resolves envelope) <;>
    cases (start.closedOn s).filter (start.resolves envelope) <;> rfl

/-- The pending lots of a tier are those of its map. -/
theorem mem_pendingOf {model : Model} {tt : TierType} {ref : TierType × LotId} :
    ref ∈ model.pendingOf tt ↔
      ∃ t id, (model.desk.tiers tt).pending.lookup t = some id ∧ ref = (tt, id) := by
  unfold pendingOf
  rw [List.mem_map]
  constructor
  · rintro ⟨id, hid, rfl⟩
    obtain ⟨entry, hmem, rfl⟩ := List.mem_map.mp hid
    exact ⟨entry.1, entry.2, AList.mem_lookup_iff.mpr hmem, rfl⟩
  · rintro ⟨t, id, hid, rfl⟩
    exact ⟨id, List.mem_map.mpr ⟨⟨t, id⟩, AList.mem_lookup_iff.mp hid, rfl⟩, rfl⟩

theorem mem_queuedOn {model : Model} {tt : TierType} {ref : TierType × LotId} :
    ref ∈ model.queuedOn tt s ↔
      ∃ id, (model.desk.tiers tt).pending.lookup s = some id ∧ (tt, id) = ref :=
  Option.map_eq_some_iff

variable (hwf : start.desk.WellFormed)
  (hnoted : ∀ tt, ∀ ref ∈ start.queuedOn tt s, ∀ p ∈ start.lot ref, p.exitPath ≠ "" →
    ref ∈ start.scored)
include hwf hnoted

variable (learn) in
/-- The turn of one tier. -/
theorem settleTier_stage (tt : TierType)
    (hwin : ∀ ref ∈ (start.queuedOn tt s).filter (start.resolves envelope),
      ∀ tt', ∀ x ∈ start.queuedOn tt' s, ref = x ∨ x ∈ start.scored)
    {acc : Model × List String} (hr : Reached start acc) (hw : Waiting start s acc) :
    Settled start s (settleTier learn envelope acc tt) ∨
      Waiting start s (settleTier learn envelope acc tt) ∧
        (start.queuedOn tt s).filter (start.resolves envelope) = none := by
  refine foldl_settle_stage hnoted (fun ref href => ?_) (fun ref href => ?_) hwin hr hw
  · obtain ⟨t, id, hid, rfl⟩ := mem_pendingOf.mp href
    have hstart := hr.desk.pending tt t id hid
    obtain ⟨p, hp, hps⟩ := (hwf tt).1.pending t id hstart
    refine ⟨p, hp, fun hsym => ?_⟩
    rw [hps] at hsym
    exact mem_queuedOn.mpr ⟨id, hsym ▸ hstart, rfl⟩
  · obtain ⟨id, hid, rfl⟩ := mem_queuedOn.mp href
    have hacc : (tt, id) ∈ acc.1.queuedOn tt s := by
      rw [hw.queue tt]
      exact href
    obtain ⟨id', hid', heq⟩ := mem_queuedOn.mp hacc
    exact ⟨(hwf tt).1.pending s id hid, .inl (mem_pendingOf.mpr ⟨s, id', hid', heq.symm⟩)⟩

variable (learn) in
/-- The closed virtual lots. -/
theorem closedVirtuals_stage
    (hwin : ∀ ref ∈ (start.closedOn s).filter (start.resolves envelope),
      ∀ tt', ∀ x ∈ start.queuedOn tt' s, ref = x ∨ x ∈ start.scored)
    {acc : Model × List String} (hr : Reached start acc) (hw : Waiting start s acc)
    (hpos : (acc.1.desk.tiers .virtual).positions = (start.desk.tiers .virtual).positions) :
    Settled start s ((acc.1.desk.closedVirtuals.map (TierType.virtual, ·)).foldl
        (settle learn envelope) acc) ∨
      Waiting start s ((acc.1.desk.closedVirtuals.map (TierType.virtual, ·)).foldl
        (settle learn envelope) acc) ∧
        (start.closedOn s).filter (start.resolves envelope) = none := by
  have hclosed : acc.1.desk.closedVirtuals = start.desk.closedVirtuals := by
    rw [Desk.closedVirtuals, hpos, Desk.closedVirtuals]
  rw [hclosed]
  refine foldl_settle_stage hnoted (fun ref href => ?_) (fun ref href => ?_) hwin hr hw
  · obtain ⟨id, hid, rfl⟩ := List.mem_map.mp href
    obtain ⟨t, ht⟩ := Cache.mem_closedAll.mp hid
    obtain ⟨p, hp, hps⟩ := (hwf .virtual).1.closed t id ht
    refine ⟨p, hp, fun hsym => ?_⟩
    rw [hps] at hsym
    subst hsym
    exact Option.map_eq_some_iff.mpr ⟨id, ht, rfl⟩
  · obtain ⟨id, hid, rfl⟩ := Option.map_eq_some_iff.mp href
    exact ⟨(hwf .virtual).1.closed s id hid,
      .inl (List.mem_map.mpr ⟨id, Cache.mem_closedAll.mpr ⟨s, hid⟩, rfl⟩)⟩

/-- After the whole flush the symbol is settled, or still waits. -/
theorem flush_stages
    (hwin : ∀ ref ∈ start.firstResolving envelope s, ∀ tt', ∀ x ∈ start.queuedOn tt' s,
      ref = x ∨ x ∈ start.scored) :
    ∃ acc, start.flushSettled learn envelope = acc.1 ∧ Reached start acc ∧
      (Settled start s acc ∨ Waiting start s acc) := by
  rw [firstResolving_eq] at hwin
  obtain ⟨acc₁, h₁⟩ : ∃ acc, acc = settleTier learn envelope (start, []) .virtual := ⟨_, rfl⟩
  obtain ⟨acc₂, h₂⟩ : ∃ acc, acc = settleTier learn envelope acc₁ .paper := ⟨_, rfl⟩
  obtain ⟨acc₃, h₃⟩ : ∃ acc, acc = settleTier learn envelope acc₂ .real := ⟨_, rfl⟩
  have hflush : start.flushSettled learn envelope =
      ((acc₃.1.desk.closedVirtuals.map (TierType.virtual, ·)).foldl
        (settle learn envelope) acc₃).1 := by
    unfold flushSettled
    simp only [List.foldl_cons, List.foldl_nil]
    rw [← h₁, ← h₂, ← h₃]
  have hr₀ : Reached start (start, []) := ⟨deskRel_shrinks.refl start.desk, fun _ h => h⟩
  have hr₁ : Reached start acc₁ := h₁ ▸ hr₀.settleTier .virtual
  have hr₂ : Reached start acc₂ := h₂ ▸ hr₁.settleTier .paper
  have hr₃ : Reached start acc₃ := h₃ ▸ hr₂.settleTier .real
  have hpos : (acc₃.1.desk.tiers .virtual).positions = (start.desk.tiers .virtual).positions := by
    rw [h₃, positions_settleTier, h₂, positions_settleTier, h₁, positions_settleTier]
  refine ⟨_, hflush, hr₃.foldl_settle _, ?_⟩
  have hw₀ : Waiting start s (start, []) := ⟨List.not_mem_nil, fun _ => rfl, fun _ _ h _ => h⟩
  -- a lot that resolves is the first to do so as long as the symbol still waits
  have hstage₁ := settleTier_stage learn hwf hnoted .virtual
    (fun ref href => hwin ref (by rw [Option.mem_def.mp href, Option.some_or]; rfl)) hr₀ hw₀
  rw [← h₁] at hstage₁
  rcases hstage₁ with h | ⟨hw₁, hnone₁⟩
  · have hsettled : Settled start s acc₃ := h₃ ▸ (h₂ ▸ h.settleTier .paper).settleTier .real
    exact .inl (hsettled.foldl_settle _)
  rw [hnone₁, Option.none_or] at hwin
  have hstage₂ := settleTier_stage learn hwf hnoted .paper
    (fun ref href => hwin ref (by rw [Option.mem_def.mp href, Option.some_or]; rfl)) hr₁ hw₁
  rw [← h₂] at hstage₂
  rcases hstage₂ with h | ⟨hw₂, hnone₂⟩
  · have hsettled : Settled start s acc₃ := h₃ ▸ h.settleTier .real
    exact .inl (hsettled.foldl_settle _)
  rw [hnone₂, Option.none_or] at hwin
  have hstage₃ := settleTier_stage learn hwf hnoted .real
    (fun ref href => hwin ref (by rw [Option.mem_def.mp href, Option.some_or]; rfl)) hr₂ hw₂
  rw [← h₃] at hstage₃
  rcases hstage₃ with h | ⟨hw₃, hnone₃⟩
  · exact .inl (h.foldl_settle _)
  rw [hnone₃, Option.none_or] at hwin
  rcases closedVirtuals_stage learn hwf hnoted hwin hr₃ hw₃ hpos with h | ⟨hw₄, -⟩
  · exact .inl h
  · exact .inr hw₄

end Stages

/-! ## The invariant -/

/-- A lot entered here shows it when it was scored. -/
def Noticed (model : Model) : Prop :=
  ∀ tt id p, model.desk.lot tt id = some p → p.hasOnSettled = true → p.exitPath ≠ "" →
    (tt, id) ∈ model.scored

/-- What every run keeps that loses no lot. -/
structure Ledger (start : Desk) (model : Model) : Prop where
  wellFormed : model.desk.WellFormed
  noticed : model.Noticed
  queued : ∀ tt, (model.desk.tiers tt).Queued
  accounted : NoneLost start model

/-- Settling a lot keeps noticed what is pending. -/
theorem Noticed.exit {model : Model} (h : model.Noticed) (learn : Learning) (path : String)
    (ref : TierType × LotId) : (model.exit learn path ref).Noticed := by
  rcases exit_cases learn path model ref with he | ⟨p, hp, -, -, hdesk, hscores⟩
  · rw [he]
    exact h
  · intro tt id q hq hback hpath
    rw [scored, hscores, List.map_append, List.mem_append]
    rw [hdesk, Desk.lot_set_setLot hp] at hq
    split at hq
    · rename_i heq
      right
      rw [heq.1, heq.2]
      exact List.mem_singleton_self _
    · exact .inl (h tt id q hq hback hpath)

theorem Noticed.clear {model : Model} (h : model.Noticed) {model' : Model} {symbol : String}
    (hdesk : model'.desk = model.desk.clearPending symbol) (hs : model'.scores = model.scores) :
    model'.Noticed := by
  intro tt id p hp hback hpath
  rw [hdesk] at hp
  change ((model.desk.tiers tt).clearPending symbol).lot id = some p at hp
  rw [Tier.lot, (Tier.clearPending_frame _ symbol).2.2.1] at hp
  rw [scored, hs]
  exact h tt id p hp hback hpath

theorem Noticed.foldl_settle {learn : Learning} {envelope : Envelope} {acc : Model × List String}
    (h : acc.1.Noticed) (refs : List (TierType × LotId)) :
    (refs.foldl (settle learn envelope) acc).1.Noticed := by
  induction refs generalizing acc with
  | nil => exact h
  | cons ref rest ih =>
    refine ih ?_
    rcases settle_cases learn envelope acc ref with
      ⟨he, -⟩ | ⟨p, m, -, -, -, hm, hdesk, hs, -⟩
    · rw [he]
      exact h
    · refine Noticed.clear ?_ hdesk hs
      rcases hm with ⟨rfl, -⟩ | ⟨rfl, -⟩
      · exact h
      · exact h.exit learn (exitCut envelope p) ref

theorem Noticed.flushSettled {model : Model} (h : model.Noticed) (learn : Learning)
    (envelope : Envelope) : (model.flushSettled learn envelope).Noticed := by
  have hstart : ((model, ([] : List String)).1).Noticed := h
  unfold Model.flushSettled
  simp only [List.foldl_cons, List.foldl_nil, settleTier]
  exact (((hstart.foldl_settle _).foldl_settle _).foldl_settle _).foldl_settle _

theorem Noticed.foldl_exit {learn : Learning} {path : String} {model : Model} (h : model.Noticed)
    (refs : List (TierType × LotId)) : (refs.foldl (Model.exit learn path) model).Noticed := by
  induction refs generalizing model with
  | nil => exact h
  | cons ref rest ih => exact ih (h.exit learn path ref)

/-- Outside the live exit branch no exit path is noted. -/
theorem quietRel_exitPath :
    QuietRel (fun desk desk' : Desk => ∀ tt id q, desk'.lot tt id = some q → q.exitPath ≠ "" →
      ∃ p, desk.lot tt id = some p ∧ p.exitPath ≠ "" ∧ p.hasOnSettled = q.hasOnSettled)
      fun _ => True where
  refl _ _ _ q hq hpath := ⟨q, hq, hpath, rfl⟩
  trans h h' tt id r hr hpath := by
    obtain ⟨q, hq, hqpath, hqr⟩ := h' tt id r hr hpath
    obtain ⟨p, hp, hppath, hpq⟩ := h tt id q hq hqpath
    exact ⟨p, hp, hppath, hpq.trans hqr⟩
  hold desk tt id p path hp tt' id' q hq hpath := by
    rw [Desk.lot_set_setLot hp] at hq
    split at hq
    · rename_i heq
      cases hq
      rw [heq.1, heq.2]
      exact ⟨p, hp, hpath, rfl⟩
    · exact ⟨q, hq, hpath, rfl⟩
  enter desk env symbol path tt pathFound _ tt' id q hq hpath := by
    refine ⟨q, ?_, hpath, rfl⟩
    by_cases htt : tt' = tt
    · subst htt
      rw [Desk.enter, Desk.lot, Desk.set_self] at hq
      rcases Tier.lot_of_enter hq with hold | ⟨hnone, -⟩
      · exact hold
      · exact absurd hnone hpath
    · rwa [Desk.enter, Desk.lot, Desk.set_other _ _ htt] at hq

/-- Exits lose no score. -/
theorem scored_foldl_exit {learn : Learning} {path : String} (refs : List (TierType × LotId))
    {model : Model} {x : TierType × LotId} (hx : x ∈ model.scored) :
    x ∈ (refs.foldl (Model.exit learn path) model).scored := by
  induction refs generalizing model with
  | nil => exact hx
  | cons ref rest ih =>
    refine ih ?_
    rcases exit_cases learn path model ref with he | ⟨_, -, -, -, -, hs⟩
    · rwa [he]
    · rw [scored, hs, List.map_append]
      exact List.mem_append_left _ hx

/-- What a task does to the log of scores. -/
theorem scored_task (tick : Tick) (symbol : String) (cut : Cut) {model : Model}
    (h : model.Noticed) :
    (model.task tick symbol cut).1.Noticed ∧
      ∀ x ∈ model.scored, x ∈ (model.task tick symbol cut).1.scored := by
  cases hlive : model.exitsLive tick symbol cut with
  | false =>
    obtain ⟨hdesk, hs, -⟩ := task_of_not_exitsLive quietRel_exitPath trivial hlive
    refine ⟨fun tt id q hq hback hpath => ?_, fun x hx => ?_⟩
    · obtain ⟨p, hp, hppath, hpq⟩ := hdesk tt id q hq hpath
      rw [scored, hs]
      exact h tt id p hp (hpq.trans hback) hppath
    · rw [scored, hs]
      exact hx
  | true =>
    obtain ⟨-, tree, htask⟩ := task_of_exitsLive hlive
    have hstart : ({ model with tree := tree } : Model).Noticed := h
    rw [htask]
    exact ⟨hstart.foldl_exit _, fun x hx => scored_foldl_exit _ hx⟩

/-- A part of a step keeps the ledger if it takes only scored lots off the
queue. -/
theorem Ledger.keep {start : Desk} {model model' : Model} (h : Ledger start model)
    (hshrinks : Shrinks model.desk model'.desk) (hwf : model'.desk.WellFormed)
    (hnoticed : model'.Noticed) (hmono : ∀ x ∈ model.scored, x ∈ model'.scored)
    (hqueue : ∀ tt s id, (model.desk.tiers tt).pending.lookup s = some id →
      (model'.desk.tiers tt).pending.lookup s = some id ∨ (tt, id) ∈ model'.scored) :
    Ledger start model' where
  wellFormed := hwf
  noticed := hnoticed
  queued tt := by
    constructor
    · intro s id q hsid hq hback
      have hold := hshrinks.closed tt s id hsid
      -- a lot that is closed now was closed before, and keeps what was noted of it
      obtain ⟨p, hp, -⟩ := (h.wellFormed tt).1.closed s id hold
      obtain ⟨q', hq', hpq⟩ := hshrinks.kept tt id p hp
      cases (show some q = some q' from hq.symm.trans hq')
      rw [hpq.closedAt]
      exact (h.queued tt).closed s id p hold hp (hpq.hasOnSettled ▸ hback)
    · intro s id q hsid hq
      have hold := hshrinks.pending tt s id hsid
      obtain ⟨p, hp, -⟩ := (h.wellFormed tt).1.pending s id hold
      obtain ⟨q', hq', hpq⟩ := hshrinks.kept tt id p hp
      cases (show some q = some q' from hq.symm.trans hq')
      exact hpq.hasOnSettled.trans ((h.queued tt).pending s id p hold hp)
  accounted tt htt id q hq hclosed hnew := by
    obtain ⟨p, hp⟩ := hshrinks.born tt id q hq hclosed
    obtain ⟨q', hq', hpq⟩ := hshrinks.kept tt id p hp
    cases (show some q = some q' from hq.symm.trans hq')
    rcases h.accounted tt htt id p hp (hpq.closedAt ▸ hclosed) hnew with ⟨s, hs⟩ | hscored
    · rcases hqueue tt s id hs with hstill | hscored
      · exact .inl ⟨s, hstill⟩
      · exact .inr hscored
    · exact .inr (hmono (tt, id) hscored)

/-- A task keeps the ledger. -/
theorem Ledger.task {start : Desk} {model : Model} (h : Ledger start model) (tick : Tick)
    (symbol : String) (cut : Cut) : Ledger start (model.task tick symbol cut).1 := by
  obtain ⟨hnoticed, hmono⟩ := scored_task tick symbol cut h.noticed
  have hpending : ∀ tt, ((model.task tick symbol cut).1.desk.tiers tt).pending =
      (model.desk.tiers tt).pending := rel_task taskRel_pending tick cut model trivial
  refine h.keep (rel_task deskRel_shrinks.toTaskRel tick cut model trivial)
    (rel_task deskRel_wellFormed.toTaskRel tick cut model trivial h.wellFormed) hnoticed hmono
    fun tt s id hs => .inl ?_
  rw [hpending tt]
  exact hs

/-- A step settles, then runs its tasks. -/
theorem next_step (model : Model) (tick : Tick) :
    model.next (.step tick) = (runWorks tick
      (tick.envelope.paths.entries.filterMap fun entry => entry.2.map (Work.task entry.1))
      (model.flushSettled tick.cfg.learning tick.envelope)).1 := by
  simp only [next, step, works, runWorks, perform]

theorem Ledger.tasks {start : Desk} {model : Model} (h : Ledger start model) (tick : Tick)
    {works : List Work} (hworks : ∀ work ∈ works, ∃ symbol cut, work = .task symbol cut) :
    Ledger start (runWorks tick works model).1 := by
  induction works generalizing model with
  | nil => exact h
  | cons work rest ih =>
    obtain ⟨symbol, cut, rfl⟩ := hworks work List.mem_cons_self
    exact ih (h.task tick symbol cut) fun w hw => hworks w (List.mem_cons_of_mem _ hw)

/-- The queue after a safe flush. -/
theorem Ledger.flush_scores {start : Desk} {model : Model} (h : Ledger start model)
    {envelope : Envelope} (hsafe : model.SafeFlush envelope) (learn : Learning) :
    (∀ x ∈ model.scored, x ∈ (model.flushSettled learn envelope).scored) ∧
    ∀ tt s id, (model.desk.tiers tt).pending.lookup s = some id →
      ((model.flushSettled learn envelope).desk.tiers tt).pending.lookup s = some id ∨
        (tt, id) ∈ (model.flushSettled learn envelope).scored := by
  -- symbol by symbol: either the flush settles it, or its queue stays
  have hstages : ∀ s, ∃ acc, model.flushSettled learn envelope = acc.1 ∧ Reached model acc ∧
      (Settled model s acc ∨ Waiting model s acc) := by
    intro s
    refine flush_stages h.wellFormed (fun tt ref href p hp hpath => ?_) fun ref href tt x hx => ?_
    · obtain ⟨id, hid, rfl⟩ := mem_queuedOn.mp href
      exact h.noticed tt id p hp ((h.queued tt).pending s id p hid hp) hpath
    · obtain ⟨id, hid, rfl⟩ := mem_queuedOn.mp hx
      exact hsafe tt ⟨s, id⟩ (AList.mem_lookup_iff.mp hid) ref href
  constructor
  · obtain ⟨acc, hflush, hr, -⟩ := hstages ""
    rw [hflush]
    exact hr.scored
  · intro tt s id hs
    have hmem : (tt, id) ∈ model.queuedOn tt s := mem_queuedOn.mpr ⟨id, hs, rfl⟩
    obtain ⟨acc, hflush, -, hsettled | hwaiting⟩ := hstages s
    · rw [hflush]
      exact .inr (hsettled.2 tt (tt, id) hmem)
    · rw [← hwaiting.queue tt] at hmem
      obtain ⟨id', hid', heq⟩ := mem_queuedOn.mp hmem
      cases heq
      rw [hflush]
      exact .inl hid'

/-- A mark or a report keeps the ledger if it does so in each tier. -/
theorem Ledger.touch {start : Desk} {model : Model} (h : Ledger start model)
    (order : TierType → MapOrder) {call : TierType → LotId → Position → Position × Bool}
    (hcall : ∀ tt id, Position.LotCall (call tt id)) {symbol : String}
    {ids : TierType → List LotId} (hnd : ∀ tt, (ids tt).Nodup)
    (hall : ∀ tt, ∀ id ∈ ids tt, id ∈ (model.desk.tiers tt).positions.all symbol)
    {desk : Desk} (hdesk : ∀ tt, desk.tiers tt =
      (ids tt).foldl (Tier.touch (order tt) (call tt)) (model.desk.tiers tt))
    (hwf : desk.WellFormed)
    (hsafe : ∀ tt, tt ≠ .virtual → ∀ id ∈ ids tt, ∀ p, model.desk.lot tt id = some p →
      p.closedAt = none → (call tt id p).1.closedAt.isSome →
      (model.desk.tiers tt).SafeStop (fun id => (tt, id) ∈ model.scored) symbol id p) :
    Ledger start { model with desk := desk } where
  wellFormed := hwf
  noticed tt id q hq hback hpath := by
    have hq : (desk.tiers tt).lot id = some q := hq
    rw [hdesk tt] at hq
    obtain ⟨p, hp, hsame, -⟩ := Tier.lot_of_foldl_touch (hcall tt) (hnd tt) hq
    exact h.noticed tt id p hp (hsame.hasOnSettled ▸ hback) (hsame.exitPath ▸ hpath)
  queued tt := by
    show (desk.tiers tt).Queued
    rw [hdesk tt]
    exact Tier.queued_foldl_touch (hcall tt) (h.wellFormed tt).1 (h.queued tt) (hnd tt) (hall tt)
  accounted tt htt := by
    show (desk.tiers tt).Accounted _ _
    rw [hdesk tt]
    exact Tier.accounted_foldl_touch (hcall tt) (h.wellFormed tt).1 (h.queued tt) (hnd tt)
      (hall tt) (h.accounted tt htt) (hsafe tt htt)

/-- So does an event of the model. -/
theorem Ledger.next {start : Desk} {model : Model} (h : Ledger start model) {event : Event}
    (hsafe : model.SafeEvent event) : Ledger start (model.next event) := by
  cases event with
  | mark env symbol price =>
    have hwf := wellFormed_next h.wellFormed (.mark env symbol price)
    by_cases hskip : symbol = "" ∨ price.isNone
    · have heq : model.next (.mark env symbol price) = model := by
        rw [Model.next, Desk.mark, if_pos hskip]
      rw [heq]
      exact h
    · rw [not_or] at hskip
      have hprice : price.isSome := by
        rw [Option.isSome_iff_ne_none]
        exact fun hnone => hskip.2 (by rw [hnone, Option.isNone_none])
      refine h.touch (fun tt => (env tt).order) (fun tt => Tier.lotCall_updateCall (env tt) price)
        (fun tt => (h.wellFormed tt).1.all_nodup symbol) (fun tt id hid => hid) (fun tt => ?_) hwf
        fun tt htt id hid p hp hopen hclosed =>
          hsafe hprice tt htt id hid p hp (Tier.fires_of_closes hopen hclosed)
      rw [Desk.mark, if_neg (not_or.mpr hskip)]
      rfl
  | apply report =>
    have hwf := wellFormed_next h.wellFormed (.apply report)
    exact h.touch (fun tt => (report.1 tt).order)
      (fun tt => Tier.lotCall_applyCall (report.1 tt) report.2) (fun tt => Tier.openOf_nodup _ _)
      (fun tt id hid => Tier.mem_all_of_openOf hid)
      (fun tt => rfl) hwf fun tt htt id hid p hp hopen hclosed =>
        hsafe tt htt id hid p hp (Tier.firesOn_of_closes hopen hclosed)
  | step tick =>
    -- a step first scores what has settled, then sees to the symbols
    obtain ⟨hmono, hqueue⟩ := h.flush_scores hsafe tick.cfg.learning
    have hflushed : Ledger start (model.flushSettled tick.cfg.learning tick.envelope) := by
      have hrel := fun {R : Desk → Desk → Prop} {allowed} (hR : DeskRel R allowed) =>
        rel_flushSettled hR tick.cfg.learning tick.envelope model
      exact h.keep (hrel deskRel_shrinks) (hrel deskRel_wellFormed h.wellFormed)
        (h.noticed.flushSettled _ _) hmono hqueue
    rw [next_step]
    refine hflushed.tasks tick fun work hwork => ?_
    obtain ⟨entry, -, hentry⟩ := List.mem_filterMap.mp hwork
    obtain ⟨cut, -, rfl⟩ := Option.map_eq_some_iff.mp hentry
    exact ⟨entry.1, cut, rfl⟩

/-- A model on a desk just restored has lost nothing. -/
theorem ledger_new (cfg : Cfg) (hasTransport : TierType → Bool)
    (stored : TierType → Desk.Stored) (tree : Tree) :
    Ledger (Desk.new cfg hasTransport stored) (new (Desk.new cfg hasTransport stored) tree) := by
  have hback : ∀ {tt id p}, (Desk.new cfg hasTransport stored).lot tt id = some p →
      p.hasOnSettled = false := fun {tt id p} hp =>
    Tier.hasOnSettled_new cfg tt (hasTransport tt) (stored tt).opened (stored tt).closed hp
  refine ⟨Desk.wellFormed_new cfg hasTransport stored, fun tt id p hp h => ?_, fun tt => ?_,
    fun tt _ id p hp hclosed hnew => absurd ⟨p, hp, hclosed⟩ hnew⟩
  · rw [hback hp] at h
    cases h
  · constructor
    · intro s id p _ hp h
      rw [hback hp] at h
      cases h
    · intro s id p hs
      change (∅ : LotMap).lookup s = some id at hs
      rw [AList.lookup_empty] at hs
      cases hs

/-- In every run of a model, from any restored desk, whose stops and settlings
are safe, only scored lots leave the queue, and every paper or real lot that
stops out waits or is scored. -/
theorem settled_kept (cfg : Cfg) (hasTransport : TierType → Bool)
    (stored : TierType → Desk.Stored) (tree : Tree) (events : List Event)
    (hsafe : Along next SafeEvent (new (Desk.new cfg hasTransport stored) tree) events) :
    Along next FlushScores (new (Desk.new cfg hasTransport stored) tree) events ∧
      Everywhere next (NoneLost (Desk.new cfg hasTransport stored))
        (new (Desk.new cfg hasTransport stored) tree) events := by
  have hstep : ∀ (model : Model) (event : Event), Ledger (Desk.new cfg hasTransport stored) model →
      model.SafeEvent event → Ledger (Desk.new cfg hasTransport stored) (model.next event) :=
    fun _ _ h hsafe => h.next hsafe
  have hflush : ∀ (model : Model) (event : Event), Ledger (Desk.new cfg hasTransport stored) model →
      model.SafeEvent event → model.FlushScores event := by
    intro model event h hsafe
    cases event with
    | mark env symbol price => trivial
    | apply report => trivial
    | step tick => exact (h.flush_scores hsafe tick.cfg.learning).2
  have hnew := ledger_new cfg hasTransport stored tree
  exact ⟨along_of_inv hstep hflush hnew hsafe,
    everywhere_of_inv hstep (fun _ h => h.accounted) hnew hsafe⟩

/-- A tree with one enter leaf. -/
def enterTree : Tree := ⟨[("a/b", ⟨"enter", "a/b", 1 / 10⟩)], List.pairwise_singleton _ _⟩

/-- A bright cut under a bullish story; fresh ids start with `tag`. -/
def bullTick (text tag : String) : Tick where
  cfg := Cfg.defaults
  envelope := {
    paths := ⟨[⟨"A/B", some ⟨text, 2, .finite 1⟩⟩], List.nodup_singleton _⟩
    resonance := fun _ => some fun key =>
      if key = "calibrated" ∨ key = "surprise" ∨ key = "task_relative_precision" then
        some (.finite 1)
      else if key = "supported_horizon" ∨ key = "forward_curve_0" ∨ key = "forward_curve_6" then
        some (.finite 5)
      else some (.finite 0)
    regions := fun _ => [some ⟨10, 1⟩] }
  env := fun _ _ => Desk.sampleEnv tag 9 99

/-- What is open on the symbol is filled, and stopped out when the bid falls. -/
def stopOutAll : List Event :=
  [.apply (fun _ => Desk.sampleEnv "f" 2 99, Desk.sampleFill "p1" 100),
    .mark (fun _ => Desk.sampleEnv "m" 3 80) "A/B" (some 80)]

/-- A paper lot stops out and is scored by the next step. -/
theorem settled_kept_sample :
    Everywhere next (NoneLost Desk.sample) (new Desk.sample enterTree)
      (.step (bullTick "a/b" "p") :: stopOutAll ++ [.step (bullTick "q/q" "x")]) ∧
    (runFrom next (new Desk.sample enterTree)
      (.step (bullTick "a/b" "p") :: stopOutAll ++ [.step (bullTick "q/q" "x")])).scored =
        [(.paper, 0)] := by
  constructor
  · refine (settled_kept Cfg.defaults (fun _ => true) (fun _ => ⟨[], []⟩) enterTree _ ?_).2
    refine ⟨?_, ?_, ?_, ?_, trivial⟩
    · intro tt
      cases tt <;> decide +kernel
    · intro tt htt
      cases tt
      · exact absurd rfl htt
      · decide +kernel
      · decide +kernel
    · intro _ tt htt
      cases tt
      · exact absurd rfl htt
      · decide +kernel
      · decide +kernel
    · intro tt
      cases tt <;> decide +kernel
  · decide +kernel

/-- A virtual and a paper lot on one symbol stop out; the virtual one is scored,
and both leave the queue. -/
theorem paper_lot_lost : ¬ Along next FlushScores (new Desk.sample enterTree)
    (.step (bullTick "z/z" "v") :: .step (bullTick "a/b" "p") :: stopOutAll ++
      [.step (bullTick "q/q" "x")]) := by
  rintro ⟨-, -, -, -, hflush, -⟩
  have hlost := hflush .paper "A/B" 0
  revert hlost
  decide +kernel

end Model

end Symm.Strategy
