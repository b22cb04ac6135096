import Symm.Strategy.ModelSpec

/-!
# How often a lot is scored

`Model.Exit` is reached from the settling of stopped lots and from the live
exit branch of a task. Settling skips a lot that carries an exit path; the live
branch does not look. A lot scored once carries an exit path from then on, so a
run scores no lot twice as long as the live branch only meets lots without one.

- `scored`: the lots that the tree was scored with, in order, one that was scored twice
  twice;
- `ScoredOnce`: it has no repetition;
- `Tracked`: the invariant: no repetition, and every scored lot carries an exit path;
- `FreshStep`: the tasks of a step meet, each in the state that it begins in, open lots
  that no exit has noted.

The flush keeps `Tracked` by itself, since it skips what carries an exit path. The live
branch keeps it under `FreshStep`. Both loops go over lots of one symbol, one in each
tier at most (`openLots_nodup`), so no loop meets a lot twice.
-/

namespace Symm.Strategy

open Symm.System Symm.Lib Symm.Broker

/-- What a step of the model keeps of a lot, beside the paths it notes. An exit
path once noted is not taken back. -/
structure Noted (p q : Position) : Prop where
  symbol : q.symbol = p.symbol
  entryPath : q.entryPath = p.entryPath
  hasOnSettled : q.hasOnSettled = p.hasOnSettled
  closedAt : q.closedAt = p.closedAt
  exitPath : p.exitPath ≠ "" → q.exitPath ≠ ""

theorem Noted.refl (p : Position) : Noted p p := ⟨rfl, rfl, rfl, rfl, id⟩

/-- Notes on a lot add up. -/
theorem Noted.trans {p q r : Position} (h : Noted p q) (h' : Noted q r) : Noted p r where
  symbol := h'.symbol.trans h.symbol
  entryPath := h'.entryPath.trans h.entryPath
  hasOnSettled := h'.hasOnSettled.trans h.hasOnSettled
  closedAt := h'.closedAt.trans h.closedAt
  exitPath := h'.exitPath ∘ h.exitPath

/-- Every lot is still at its address. -/
def LotsKept (desk desk' : Desk) : Prop :=
  ∀ tt id p, desk.lot tt id = some p → ∃ q, desk'.lot tt id = some q ∧ Noted p q

/-- Noting something on a lot keeps all lots. -/
theorem LotsKept.setLot {desk : Desk} {tt : TierType} {id : LotId} {p q : Position}
    (hp : desk.lot tt id = some p) (hq : Noted p q) :
    LotsKept desk (desk.set tt ((desk.tiers tt).setLot id q)) := by
  intro tt' id' p' hp'
  rw [Desk.lot_set_setLot hp]
  split
  · rename_i h
    obtain ⟨rfl, rfl⟩ := h
    cases hp.symm.trans hp'
    exact ⟨q, rfl, hq⟩
  · exact ⟨p', hp', Noted.refl p'⟩

/-- No call of the model loses a lot. -/
theorem deskRel_lotsKept : DeskRel LotsKept fun _ => True where
  refl desk tt id p hp := ⟨p, hp, Noted.refl p⟩
  trans h h' tt id p hp := by
    obtain ⟨q, hq, hpq⟩ := h tt id p hp
    obtain ⟨r, hr, hqr⟩ := h' tt id q hq
    exact ⟨r, hr, hpq.trans hqr⟩
  hold _ _ _ p _ hp := LotsKept.setLot hp ⟨rfl, rfl, rfl, rfl, id⟩
  exit _ _ _ p path hp hpath := LotsKept.setLot hp ⟨rfl, rfl, rfl, rfl, fun _ => hpath⟩
  enter desk env symbol path tt pathFound _ tt' id p hp := by
    refine ⟨p, ?_, Noted.refl p⟩
    unfold Desk.enter Desk.lot
    by_cases htt : tt' = tt
    · subst htt
      rw [Desk.set_self]
      have hunlocked : ((desk.tiers tt').unlock (some (desk.tiers .paper))).lot id = some p := hp
      exact Tier.lot_enter hunlocked env symbol path pathFound
    · rw [Desk.set_other desk _ htt]
      exact hp
  clear desk symbol tt id p hp := by
    refine ⟨p, ?_, Noted.refl p⟩
    show ((desk.tiers tt).clearPending symbol).lot id = some p
    rw [Tier.lot, (Tier.clearPending_frame (desk.tiers tt) symbol).2.2.1]
    exact hp

namespace Model

/-- The lots the tree was scored with; a lot scored twice is listed twice. -/
def scored (model : Model) : List (TierType × LotId) :=
  model.scores.map fun score => (score.tier, score.lot)

/-- Every lot was scored at most once. -/
def ScoredOnce (model : Model) : Prop := model.scored.Nodup

/-- `Model.Exit` has no effect on the lot, or the lot carries no exit path. -/
def Fresh (model : Model) (path : String) (ref : TierType × LotId) : Prop :=
  ∀ p ∈ model.lot ref, p.exitPath = "" ∨ path = "" ∨ path = p.entryPath

instance (model : Model) (path : String) (ref : TierType × LotId) :
    Decidable (model.Fresh path ref) :=
  inferInstanceAs (Decidable (∀ p ∈ model.lot ref, _))

/-- The live exit branch of a task meets fresh lots only. -/
def ExitsFresh (tick : Tick) (model : Model) : Work → Prop
  | .flush => True
  | .task symbol cut => model.exitsLive tick symbol cut = true →
      ∀ ref ∈ model.openLots symbol, model.Fresh cut.text ref

/-- So do all tasks of a step, each in the state it finds. -/
def FreshStep (model : Model) : Event → Prop
  | .mark _ _ _ => True
  | .apply _ => True
  | .step tick =>
    Along (fun model work => (model.perform tick work).1) (ExitsFresh tick) model (works tick)

/-- No lot is scored twice, and every scored lot shows it. -/
structure Tracked (model : Model) : Prop where
  once : model.ScoredOnce
  noted : ∀ ref ∈ model.scored, ∃ p, model.lot ref = some p ∧ p.exitPath ≠ ""

/-- Where nothing is scored, the scores stay tracked. -/
theorem Tracked.keep {model model' : Model} (h : model.Tracked)
    (hs : model'.scores = model.scores) (hk : LotsKept model.desk model'.desk) :
    model'.Tracked := by
  have hscored : model'.scored = model.scored := by rw [scored, hs, scored]
  refine ⟨?_, fun ref href => ?_⟩
  · rw [ScoredOnce, hscored]
    exact h.once
  · rw [hscored] at href
    obtain ⟨p, hp, hpath⟩ := h.noted ref href
    obtain ⟨q, hq, hpq⟩ := hk ref.1 ref.2 p hp
    exact ⟨q, hq, hpq.exitPath hpath⟩

/-- Scoring a fresh lot: it was not scored before, or it would show. -/
theorem Tracked.exit {model : Model} (h : model.Tracked) (learn : Learning) {path : String}
    {ref : TierType × LotId} (hfresh : model.Fresh path ref) :
    (model.exit learn path ref).Tracked := by
  rcases exit_cases learn path model ref with he | ⟨p, hp, hpath, hentry, hdesk, hscores⟩
  · rw [he]
    exact h
  -- a lot that was scored has an exit path, and is not fresh
  have hunscored : ref ∉ model.scored := by
    intro hmem
    obtain ⟨q, hq, hqpath⟩ := h.noted ref hmem
    cases hp.symm.trans hq
    rcases hfresh p hp with hempty | hempty | heq
    · exact hqpath hempty
    · exact hpath hempty
    · exact hentry heq
  have hscored : (model.exit learn path ref).scored = model.scored ++ [ref] := by
    rw [scored, hscores, List.map_append]
    rfl
  have hlot : ∀ ref', (model.exit learn path ref).lot ref' =
      if ref'.1 = ref.1 ∧ ref'.2 = ref.2 then some { p with exitPath := path }
      else model.lot ref' := by
    intro ref'
    rw [lot, hdesk]
    exact Desk.lot_set_setLot hp _ ref'.1 ref'.2
  constructor
  · rw [ScoredOnce, hscored, List.nodup_append]
    refine ⟨h.once, List.nodup_singleton _, fun x hx y hy hxy => ?_⟩
    rw [List.mem_singleton.mp hy] at hxy
    exact hunscored (hxy ▸ hx)
  · intro ref' href'
    rw [hlot]
    split
    · exact ⟨_, rfl, hpath⟩
    · rename_i hne
      rw [hscored, List.mem_append, List.mem_singleton] at href'
      rcases href' with hmem | rfl
      · exact h.noted ref' hmem
      · exact absurd ⟨rfl, rfl⟩ hne

/-- Scoring one lot leaves the others fresh. -/
theorem Fresh.exit_other {model : Model} {path : String} {ref ref' : TierType × LotId}
    (h : model.Fresh path ref') (hne : ref' ≠ ref) (learn : Learning) :
    (model.exit learn path ref).Fresh path ref' := by
  rcases exit_cases learn path model ref with he | ⟨p, hp, -, -, hdesk, -⟩
  · rw [he]
    exact h
  · intro q hq
    rw [lot, hdesk, Desk.lot_set_setLot hp, if_neg] at hq
    · exact h q hq
    · rintro ⟨h₁, h₂⟩
      exact hne (Prod.ext h₁ h₂)

/-- Scoring lots that were not scored on the path keeps them tracked. -/
theorem Tracked.foldl_exit {model : Model} (h : model.Tracked) (learn : Learning)
    {path : String} {refs : List (TierType × LotId)} (hnd : refs.Nodup)
    (hfresh : ∀ ref ∈ refs, model.Fresh path ref) :
    (refs.foldl (Model.exit learn path) model).Tracked := by
  induction refs generalizing model with
  | nil => exact h
  | cons ref rest ih =>
    obtain ⟨hne, hrest⟩ := List.nodup_cons.mp hnd
    refine ih (h.exit learn (hfresh ref List.mem_cons_self)) hrest fun ref' href' => ?_
    refine (hfresh ref' (List.mem_cons_of_mem ref href')).exit_other (fun heq => ?_) learn
    exact hne (heq ▸ href')

/-- A symbol has at most one open lot in each tier. -/
theorem openLots_nodup (model : Model) (symbol : String) : (model.openLots symbol).Nodup := by
  refine List.Nodup.filter _ (List.nodup_flatMap.mpr ⟨fun tt _ => ?_, ?_⟩)
  · exact (Tier.openOf_nodup _ symbol).map fun _ _ h => (Prod.mk.inj h).2
  · refine List.Nodup.pairwise_of_forall_ne (by decide) fun tt _ tt' _ hne => ?_
    intro ref href href'
    obtain ⟨_, _, rfl⟩ := List.mem_map.mp href
    obtain ⟨_, _, h⟩ := List.mem_map.mp href'
    exact hne (Prod.mk.inj h).1.symm

/-- Settling scores only lots without an exit path. -/
theorem Tracked.settle {acc : Model × List String} (h : acc.1.Tracked) (learn : Learning)
    (envelope : Envelope) (ref : TierType × LotId) :
    (settle learn envelope acc ref).1.Tracked := by
  unfold Model.settle
  dsimp only
  split
  · exact h
  · rename_i p hp
    split
    · exact h
    · split
      · exact h.keep rfl (deskRel_lotsKept.clear _ _)
      · rename_i hpath
        split
        · exact h
        · have hfresh : acc.1.Fresh (exitCut envelope p) ref := by
            intro q hq
            cases hp.symm.trans hq
            exact .inl (not_not.mp hpath)
          exact (h.exit learn hfresh).keep rfl (deskRel_lotsKept.clear _ _)

/-- A loop of the flush scores each lot at most once. -/
theorem Tracked.foldl_settle {acc : Model × List String} (h : acc.1.Tracked) (learn : Learning)
    (envelope : Envelope) (refs : List (TierType × LotId)) :
    (refs.foldl (Model.settle learn envelope) acc).1.Tracked := by
  induction refs generalizing acc with
  | nil => exact h
  | cons ref rest ih => exact ih (h.settle learn envelope ref)

theorem Tracked.flushSettled {model : Model} (h : model.Tracked) (learn : Learning)
    (envelope : Envelope) : (model.flushSettled learn envelope).Tracked := by
  have hstart : ((model, ([] : List String)).1).Tracked := h
  unfold Model.flushSettled
  simp only [List.foldl_cons, List.foldl_nil, settleTier]
  exact (((hstart.foldl_settle learn envelope _).foldl_settle learn envelope _).foldl_settle
    learn envelope _).foldl_settle learn envelope _

/-- A piece of work scores lots at most once, if those it exits are fresh. -/
theorem Tracked.perform {model : Model} (h : model.Tracked) {tick : Tick} {work : Work}
    (hfresh : model.ExitsFresh tick work) : (model.perform tick work).1.Tracked := by
  cases work with
  | flush =>
    simp only [Model.perform]
    exact h.flushSettled tick.cfg.learning tick.envelope
  | task symbol cut =>
    rw [Model.perform]
    cases hlive : model.exitsLive tick symbol cut with
    | false =>
      obtain ⟨hkept, hscores, -⟩ :=
        task_of_not_exitsLive deskRel_lotsKept.toQuietRel trivial hlive
      exact h.keep hscores hkept
    | true =>
      obtain ⟨-, tree, htask⟩ := task_of_exitsLive hlive
      have hstart : ({ model with tree := tree } : Model).Tracked := ⟨h.once, h.noted⟩
      have hfold := hstart.foldl_exit tick.cfg.learning (openLots_nodup model symbol)
        (hfresh hlive)
      rw [htask]
      exact ⟨hfold.once, hfold.noted⟩

/-- So does an event. -/
theorem Tracked.next {model : Model} (h : model.Tracked) {event : Event}
    (hfresh : model.FreshStep event) : (model.next event).Tracked := by
  cases event with
  | mark env symbol price =>
    refine ⟨h.once, fun ref href => ?_⟩
    obtain ⟨p, hp, hpath⟩ := h.noted ref href
    obtain ⟨q, hq, hpq⟩ := Desk.sameLot_mark hp env symbol price
    exact ⟨q, hq, hpq.exitPath ▸ hpath⟩
  | apply report =>
    refine ⟨h.once, fun ref href => ?_⟩
    obtain ⟨p, hp, hpath⟩ := h.noted ref href
    obtain ⟨q, hq, hpq⟩ := Desk.sameLot_applyReport hp report
    exact ⟨q, hq, hpq.exitPath ▸ hpath⟩
  | step tick =>
    show (runWorks tick (works tick) model).1.Tracked
    rw [runWorks_fst]
    have hstep : ∀ (model : Model) (work : Work), model.Tracked → model.ExitsFresh tick work →
        (model.perform tick work).1.Tracked := fun _ _ h hfresh => h.perform hfresh
    exact inv_runFrom hstep h hfresh

/-- No run whose live exits meet fresh lots only scores a lot twice. -/
theorem scored_once_of_fresh (desk : Desk) (tree : Tree) (events : List Event)
    (hfresh : Along next FreshStep (new desk tree) events) :
    Everywhere next ScoredOnce (new desk tree) events := by
  have hstep : ∀ (model : Model) (event : Event), model.Tracked → model.FreshStep event →
      (model.next event).Tracked := fun _ _ h hfresh => h.next hfresh
  have hnew : (new desk tree).Tracked :=
    ⟨List.nodup_nil, fun ref href => absurd href List.not_mem_nil⟩
  exact everywhere_of_inv hstep (fun _ h => h.once) hnew hfresh

/-- One step scores the two lots of `sampleEntered`, each of them once. -/
theorem scored_once_of_fresh_sample :
    Everywhere next ScoredOnce (new Desk.sampleEntered sampleTree) [.step sampleTick] ∧
      (runFrom next (new Desk.sampleEntered sampleTree) [.step sampleTick]).scored =
        [(.virtual, 0), (.paper, 0)] := by
  constructor
  · refine scored_once_of_fresh Desk.sampleEntered sampleTree [.step sampleTick] ?_
    refine ⟨⟨trivial, fun _ => ?_, trivial⟩, trivial⟩
    decide +kernel
  · decide +kernel

/-- A second step with the same reading scores both again: the lots are still
open, and the live branch does not look at their exit paths. -/
theorem sampleTick_scores_twice :
    ¬ Everywhere next ScoredOnce (new Desk.sampleEntered sampleTree)
      [.step sampleTick, .step sampleTick] := by
  intro h
  have hlast := h.last
  revert hlast
  unfold ScoredOnce
  decide +kernel

end Model

end Symm.Strategy
