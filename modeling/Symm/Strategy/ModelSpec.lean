import Symm.Broker.TierSpec
import Symm.Strategy.Model

/-!
# What a step does to the desk

The model reaches the desk in four ways only: it notes a hold path on a lot, it
enters tiers, it notes an exit path, and it clears pending lots. Tasks outside
the live exit branch use the first two (`QuietRel`), tasks in general the first
three (`TaskRel`), and settling uses the last two (`DeskRel`). A relation
between desks that is closed under them relates the desk before and after each
part of a step; the invariants of the later modules are instances. The one
branch of a task that scores lots is singled out by `exitsLive`.

- `rel_runWorks`, `rel_flushSettled`: the relations through the loops of a step;
- `perform`, `mem_runWorks_of_perform`: a decision of a task is one of the step;
- `task_of_not_exitsLive`: the branches that score nothing.

A step is a list of parts, and a part is in the loops of the flush or in the branches of
one task. Each lemma follows the code through one function and uses the relation for
what that function calls, so the relations are composed as the code is. None of them
mentions what a relation says.

Which decisions a step records is found along the way: a decision of a step is one of a
part, taken in the state that the parts before it left (`mem_runWorks`).
-/

namespace Symm.Strategy

open Symm.System Symm.Lib Symm.Broker

/-- A relation between desks closed under holding lots and under entering the
symbols that `allowed` admits. -/
structure QuietRel (R : Desk → Desk → Prop) (allowed : String → Prop) : Prop where
  refl : ∀ desk, R desk desk
  trans : ∀ {desk desk' desk''}, R desk desk' → R desk' desk'' → R desk desk''
  hold : ∀ (desk : Desk) tt id p path, desk.lot tt id = some p →
    R desk (desk.set tt ((desk.tiers tt).setLot id { p with holdPaths := [path] }))
  enter : ∀ desk env symbol path tt pathFound, allowed symbol →
    R desk (desk.enter env symbol path tt pathFound).1

/-- Closed under scoring lots too. -/
structure TaskRel (R : Desk → Desk → Prop) (allowed : String → Prop) : Prop
    extends QuietRel R allowed where
  exit : ∀ (desk : Desk) tt id p path, desk.lot tt id = some p → path ≠ "" →
    R desk (desk.set tt ((desk.tiers tt).setLot id { p with exitPath := path }))

/-- Closed under all four. -/
structure DeskRel (R : Desk → Desk → Prop) (allowed : String → Prop) : Prop
    extends TaskRel R allowed where
  clear : ∀ desk symbol, R desk (desk.clearPending symbol)

namespace Model

/-! ## Writing lots -/

/-- Changing a lot changes that lot of the desk. -/
theorem desk_modify {model : Model} {ref : TierType × LotId} {p : Position}
    (hp : model.lot ref = some p) (change : Position → Position) :
    (model.modify ref change).desk =
      model.desk.set ref.1 ((model.desk.tiers ref.1).setLot ref.2 (change p)) := by
  unfold modify
  rw [hp]

theorem scores_modify (model : Model) (ref : TierType × LotId) (change : Position → Position) :
    (model.modify ref change).scores = model.scores := by
  unfold modify
  split <;> rfl

/-- `Model.Exit` does nothing, or notes a path on the lot and logs one score. -/
theorem exit_cases (learn : Learning) (path : String) (model : Model) (ref : TierType × LotId) :
    model.exit learn path ref = model ∨
    ∃ p, model.lot ref = some p ∧ path ≠ "" ∧ path ≠ p.entryPath ∧
      (model.exit learn path ref).desk =
        model.desk.set ref.1 ((model.desk.tiers ref.1).setLot ref.2 { p with exitPath := path }) ∧
      (model.exit learn path ref).scores =
        model.scores ++ [⟨ref.1, ref.2, p.entryPath, path, delta p⟩] := by
  unfold exit
  cases hl : model.lot ref with
  | none => exact .inl rfl
  | some p =>
    dsimp only
    split
    · exact .inl rfl
    · rename_i hpath
      rw [not_or] at hpath
      exact .inr ⟨p, rfl, hpath.1, hpath.2, desk_modify hl _, rfl⟩

/-! ## The branch that scores -/

section Quiet

variable {R : Desk → Desk → Prop} {allowed : String → Prop} (h : QuietRel R allowed)
include h

/-- What one turn of a loop keeps of the desk, the loop does. -/
theorem rel_foldl {f : Model → TierType × LotId → Model}
    (hf : ∀ model ref, R model.desk (f model ref).desk) (refs : List (TierType × LotId))
    (model : Model) : R model.desk (refs.foldl f model).desk := by
  induction refs generalizing model with
  | nil => exact h.refl _
  | cons ref rest ih => exact h.trans (hf model ref) (ih _)

/-- Holding a lot keeps it. -/
theorem rel_hold (path : String) (model : Model) (ref : TierType × LotId) :
    R model.desk (model.hold path ref).desk := by
  unfold hold
  cases hl : model.lot ref with
  | none => exact h.refl _
  | some p =>
    dsimp only
    split
    · exact h.refl _
    · rw [desk_modify hl]
      exact h.hold _ _ _ p path hl

/-- An entry on an allowed symbol keeps it, scores nothing and decides on that symbol. -/
theorem rel_tryEnter (tick : Tick) {symbol : String} (path : String) (tt : TierType)
    (pathFound : Bool) (reason : String) (model : Model) (ha : allowed symbol) :
    R model.desk (model.tryEnter tick symbol path tt pathFound reason).1.desk ∧
      (model.tryEnter tick symbol path tt pathFound reason).1.scores = model.scores ∧
      ∀ d ∈ (model.tryEnter tick symbol path tt pathFound reason).2, d.action ≠ "exit" := by
  have hrel := h.enter model.desk (tick.env symbol tt) symbol path tt pathFound ha
  have henter : "enter" ≠ "exit" := by decide
  have hskip : "skip" ≠ "exit" := by decide
  have hblocked : "blocked" ≠ "exit" := by decide
  unfold tryEnter
  dsimp only
  split
  · exact ⟨hrel, rfl, fun d hd => by cases hd; exact henter⟩
  · exact ⟨hrel, rfl, fun d hd => by cases hd⟩
  · refine ⟨hrel, rfl, fun d hd => ?_⟩
    cases hd
    dsimp only
    split
    · exact hskip
    · exact hblocked
  · exact ⟨hrel, rfl, fun d hd => by cases hd; exact hblocked⟩

/-- So do the entries on one tier after the other. -/
theorem rel_enterTiers (tick : Tick) {symbol : String} (path : String) (resistance : Floating)
    (pathFound : Bool) (model : Model) (ha : allowed symbol) :
    R model.desk (model.enterTiers tick symbol path resistance pathFound).1.desk ∧
      (model.enterTiers tick symbol path resistance pathFound).1.scores = model.scores ∧
      ∀ d ∈ (model.enterTiers tick symbol path resistance pathFound).2, d.action ≠ "exit" := by
  unfold enterTiers
  dsimp only
  split
  · obtain ⟨hr, hs, hd⟩ :=
      rel_tryEnter h tick path .virtual false "virtual sample" model ha
    exact ⟨hr, hs, fun d hmem => hd d (Option.mem_toList.mp hmem)⟩
  · obtain ⟨hr, hs, hd⟩ := rel_tryEnter h tick path .paper true "paper enter" model ha
    rcases hpaper : model.tryEnter tick symbol path .paper true "paper enter" with
      ⟨model', _ | paper⟩
    · rw [hpaper] at hr hs
      exact ⟨hr, hs, fun d hmem => absurd hmem List.not_mem_nil⟩
    · rw [hpaper] at hr hs hd
      obtain ⟨hr', hs', hd'⟩ := rel_tryEnter h tick path .real true "real enter" model' ha
      refine ⟨h.trans hr hr', hs'.trans hs, fun d hmem => ?_⟩
      rcases List.mem_cons.mp hmem with rfl | hmem
      · exact hd d rfl
      · exact hd' d (Option.mem_toList.mp hmem)

omit h in
theorem scores_foldl_hold (path : String) (refs : List (TierType × LotId)) (model : Model) :
    (refs.foldl (hold path) model).scores = model.scores := by
  induction refs generalizing model with
  | nil => rfl
  | cons ref rest ih =>
    rw [List.foldl_cons, ih]
    unfold hold
    split
    · rfl
    · split
      · rfl
      · exact scores_modify _ _ _

/-- What follows the prediction scores lots in one case only. -/
theorem rel_conclude (tick : Tick) {symbol : String} (cut : Cut) {bull : Bool}
    {action : Action} (resistance : Floating) {lots : List (TierType × LotId)} (model : Model)
    (ha : allowed symbol) (hlive : ¬ (action = .exit ∧ bull = false ∧ lots ≠ [])) :
    R model.desk (model.conclude tick symbol cut bull action resistance lots).1.desk ∧
      (model.conclude tick symbol cut bull action resistance lots).1.scores = model.scores ∧
      ∀ d ∈ (model.conclude tick symbol cut bull action resistance lots).2,
        d.action ≠ "exit" := by
  -- every way out but one reports a skip or a hold, and scores nothing
  have hskip : ∀ gate reason, ∀ d ∈ [skip symbol cut.text gate reason], d.action ≠ "exit" := by
    intro gate reason d hd
    rw [List.mem_singleton.mp hd]
    show "skip" ≠ "exit"
    decide
  have hhold : ∀ reason, ∀ d ∈ [act symbol cut.text "hold" reason], d.action ≠ "exit" := by
    intro reason d hd
    rw [List.mem_singleton.mp hd]
    show "hold" ≠ "exit"
    decide
  have hheld := rel_foldl h (rel_hold h cut.text) lots model
  unfold conclude
  dsimp only
  split
  · exact ⟨h.refl _, rfl, hskip _ _⟩
  · split
    · cases action with
      | none => exact ⟨h.refl _, rfl, fun d hd => absurd hd List.not_mem_nil⟩
      | enter =>
        unfold applyAction
        dsimp only
        split
        · exact ⟨h.refl _, rfl, hskip _ _⟩
        · exact rel_enterTiers h tick _ _ _ model ha
      | exit =>
        unfold applyAction
        dsimp only
        split
        · -- the tree-exit branch, the one that scores
          rename_i hexit
          exact absurd ⟨rfl, by simpa using hexit.1, hexit.2⟩ hlive
        · exact ⟨h.refl _, rfl, hskip _ _⟩
      | hold =>
        unfold applyAction
        dsimp only
        split
        · exact ⟨hheld, scores_foldl_hold _ _ _, hhold _⟩
        · exact ⟨h.refl _, rfl, hskip _ _⟩
    · split
      · exact ⟨hheld, scores_foldl_hold _ _ _, hhold _⟩
      · split
        · exact ⟨h.refl _, rfl, hskip _ _⟩
        · split
          · exact ⟨h.refl _, rfl, hskip _ _⟩
          · split
            · exact rel_enterTiers h tick _ _ _ model ha
            · exact ⟨h.refl _, rfl, fun d hd => absurd hd List.not_mem_nil⟩

omit h in
/-- A story that ends a task skips its symbol. -/
theorem story_error {learn : Learning} {rez : Option (String → Option Floating)}
    {symbol path : String} {decision : Decision}
    (hs : story learn rez symbol path = .error decision) : decision.action = "skip" := by
  unfold story at hs
  split at hs
  · cases hs
    rfl
  · split at hs
    · cases hs
      rfl
    · split at hs
      · cases hs
      · split at hs
        · cases hs
        · cases hs
          rfl

/-- A task outside the live exit branch scores nothing and records no exit. -/
theorem task_of_not_exitsLive {tick : Tick} {symbol : String} {cut : Cut} {model : Model}
    (ha : allowed symbol) (hlive : model.exitsLive tick symbol cut = false) :
    R model.desk (model.task tick symbol cut).1.desk ∧
      (model.task tick symbol cut).1.scores = model.scores ∧
      ∀ d ∈ (model.task tick symbol cut).2, d.action ≠ "exit" := by
  unfold exitsLive at hlive
  unfold task
  dsimp only at hlive ⊢
  cases hs : story tick.cfg.learning (tick.envelope.resonance symbol) symbol cut.text with
  | error decision =>
    refine ⟨h.refl _, rfl, fun d hd => ?_⟩
    rw [List.mem_singleton.mp hd, story_error hs]
    decide
  | ok nets =>
    rw [hs] at hlive
    dsimp only at hlive ⊢
    split
    · refine ⟨h.refl _, rfl, fun d hd => ?_⟩
      rw [List.mem_singleton.mp hd]
      show "skip" ≠ "exit"
      decide
    · rename_i hagreed
      rw [decide_eq_false_iff_not] at hlive
      exact rel_conclude h tick cut (model.tree.predict tick.cfg.learning cut).2.2.1
        { model with tree := (model.tree.predict tick.cfg.learning cut).1 } ha
        fun hexit => hlive ⟨hagreed, hexit.1, by simp [hexit.2.1], hexit.2.2⟩

end Quiet

/-- The live exit branch calls `Model.Exit` on the open lots of the symbol, with
the cut as their exit path, and records one exit. -/
theorem task_of_exitsLive {tick : Tick} {symbol : String} {cut : Cut} {model : Model}
    (h : model.exitsLive tick symbol cut = true) :
    model.openLots symbol ≠ [] ∧
    ∃ tree, model.task tick symbol cut =
      ((((model.openLots symbol).foldl (exit tick.cfg.learning cut.text)
        { model with tree := tree })).reset symbol,
        [act symbol cut.text "exit" "tree exit · story no longer bullish"]) := by
  unfold exitsLive at h
  unfold task
  dsimp only at h ⊢
  cases hs : story tick.cfg.learning (tick.envelope.resonance symbol) symbol cut.text with
  | error decision =>
    rw [hs] at h
    cases h
  | ok nets =>
    rw [hs] at h
    dsimp only at h ⊢
    obtain ⟨hagreed, haction, hbull, hlots⟩ := of_decide_eq_true h
    refine ⟨hlots, (model.tree.predict tick.cfg.learning cut).1, ?_⟩
    rw [if_neg hagreed, haction]
    have hb : bullish tick.cfg.learning nets = false := by simpa using hbull
    simp [conclude, applyAction, hb, hlots]

section Task

variable {R : Desk → Desk → Prop} {allowed : String → Prop} (h : TaskRel R allowed)
include h

/-- Settling a lot keeps it. -/
theorem rel_exit (learn : Learning) (path : String) (model : Model) (ref : TierType × LotId) :
    R model.desk (model.exit learn path ref).desk := by
  rcases exit_cases learn path model ref with he | ⟨p, hp, hpath, -, hdesk, -⟩
  · rw [he]
    exact h.refl _
  · rw [hdesk]
    exact h.exit _ _ _ p path hp hpath

/-- The task of an allowed symbol. -/
theorem rel_task (tick : Tick) {symbol : String} (cut : Cut) (model : Model)
    (ha : allowed symbol) : R model.desk (model.task tick symbol cut).1.desk := by
  cases hlive : model.exitsLive tick symbol cut with
  | false => exact (task_of_not_exitsLive h.toQuietRel ha hlive).1
  | true =>
    obtain ⟨-, tree, htask⟩ := task_of_exitsLive hlive
    rw [htask]
    exact rel_foldl h.toQuietRel (rel_exit h tick.cfg.learning cut.text) _
      { model with tree := tree }

end Task

section Settle

variable {R : Desk → Desk → Prop} {allowed : String → Prop} (h : DeskRel R allowed)
include h

/-- So does a turn of the flush. -/
theorem rel_settle (learn : Learning) (envelope : Envelope) (acc : Model × List String)
    (ref : TierType × LotId) : R acc.1.desk (settle learn envelope acc ref).1.desk := by
  unfold settle
  dsimp only
  split
  · exact h.refl _
  · split
    · exact h.refl _
    · split
      · exact h.clear _ _
      · split
        · exact h.refl _
        · exact h.trans (rel_exit h.toTaskRel learn _ acc.1 ref) (h.clear _ _)

theorem rel_foldl_settle (learn : Learning) (envelope : Envelope)
    (refs : List (TierType × LotId)) (acc : Model × List String) :
    R acc.1.desk (refs.foldl (settle learn envelope) acc).1.desk := by
  induction refs generalizing acc with
  | nil => exact h.refl _
  | cons ref rest ih => exact h.trans (rel_settle h learn envelope acc ref) (ih _)

theorem rel_flushSettled (learn : Learning) (envelope : Envelope) (model : Model) :
    R model.desk (model.flushSettled learn envelope).desk := by
  unfold flushSettled
  simp only [List.foldl_cons, List.foldl_nil, settleTier]
  refine h.trans ?_ (rel_foldl_settle h learn envelope _ _)
  refine h.trans ?_ (rel_foldl_settle h learn envelope _ _)
  refine h.trans ?_ (rel_foldl_settle h learn envelope _ _)
  exact rel_foldl_settle h learn envelope _ (model, [])

/-- So does a piece of work on an allowed symbol. -/
theorem rel_perform (tick : Tick) (model : Model) (work : Work)
    (hwork : ∀ symbol cut, work = .task symbol cut → allowed symbol) :
    R model.desk (model.perform tick work).1.desk := by
  cases work with
  | flush =>
    show R model.desk (model.flushSettled tick.cfg.learning tick.envelope).desk
    exact rel_flushSettled h tick.cfg.learning tick.envelope model
  | task symbol cut =>
    show R model.desk (model.task tick symbol cut).1.desk
    exact rel_task h.toTaskRel tick cut model (hwork symbol cut rfl)

theorem rel_runWorks (tick : Tick) (works : List Work) (model : Model)
    (hworks : ∀ symbol cut, Work.task symbol cut ∈ works → allowed symbol) :
    R model.desk (runWorks tick works model).1.desk := by
  induction works generalizing model with
  | nil => exact h.refl _
  | cons work rest ih =>
    refine h.trans (rel_perform h tick model work fun symbol cut heq => ?_) (ih _ ?_)
    · exact hworks symbol cut (heq ▸ List.mem_cons_self)
    · exact fun symbol cut hmem => hworks symbol cut (List.mem_cons_of_mem work hmem)

end Settle

/-! ## Well-formed desks -/

/-- Rewriting a lot without its symbol. -/
theorem wellFormed_setLot {desk : Desk} (hwf : desk.WellFormed) {tt : TierType} {id : LotId}
    {p q : Position} (hp : desk.lot tt id = some p) (hq : q.symbol = p.symbol) :
    (desk.set tt ((desk.tiers tt).setLot id q)).WellFormed := by
  refine hwf.set ((hwf tt).1.rewrite (fun id' p' hp' => ?_) rfl rfl) (hwf tt).2
  exact Tier.part_setLot Position.symbol hp hq hp'

/-- Well-formed desks are one of these relations. -/
theorem deskRel_wellFormed :
    DeskRel (fun desk desk' => desk.WellFormed → desk'.WellFormed) fun _ => True where
  refl _ h := h
  trans h h' hwf := h' (h hwf)
  hold _ _ _ _ _ hp hwf := wellFormed_setLot hwf hp rfl
  exit _ _ _ _ _ hp _ hwf := wellFormed_setLot hwf hp rfl
  clear _ symbol hwf := hwf.clearPending symbol
  enter _ env symbol path tt pathFound _ hwf := hwf.enter env symbol path tt pathFound

/-! ## The parts of a step -/

/-- The state after a list of parts, and the decisions each of them records. -/
theorem runWorks_fst (tick : Tick) (works : List Work) (model : Model) :
    (runWorks tick works model).1 =
      runFrom (fun model work => (model.perform tick work).1) model works := by
  induction works generalizing model with
  | nil => rfl
  | cons work rest ih => exact ih _

/-- A decision of a step is one of some work, taken after what came before it. -/
theorem mem_runWorks {tick : Tick} {works : List Work} {model : Model} {decision : Decision}
    (h : decision ∈ (runWorks tick works model).2) :
    ∃ front work back, works = front ++ work :: back ∧
      decision ∈ ((runWorks tick front model).1.perform tick work).2 := by
  induction works generalizing model with
  | nil => cases h
  | cons work rest ih =>
    rcases List.mem_append.mp h with h | h
    · exact ⟨[], work, rest, rfl, h⟩
    · obtain ⟨front, work', back, rfl, hmem⟩ := ih h
      exact ⟨work :: front, work', back, rfl, hmem⟩

theorem mem_runWorks_of_perform {tick : Tick} {front back : List Work} {work : Work}
    {model : Model} {decision : Decision}
    (h : decision ∈ ((runWorks tick front model).1.perform tick work).2) :
    decision ∈ (runWorks tick (front ++ work :: back) model).2 := by
  induction front generalizing model with
  | nil => exact List.mem_append_left _ h
  | cons first rest ih => exact List.mem_append_right _ (ih h)

theorem runWorks_append (tick : Tick) (front back : List Work) (model : Model) :
    (runWorks tick (front ++ back) model).1 =
      (runWorks tick back (runWorks tick front model).1).1 := by
  rw [runWorks_fst, runWorks_fst, runWorks_fst, runFrom_append]

/-- The symbol of a task. -/
def Work.symbol : Work → Option String
  | .flush => none
  | .task symbol _ => some symbol

/-- A step has one task for each symbol. -/
theorem works_nodup (tick : Tick) : ((works tick).filterMap Work.symbol).Nodup := by
  have hsub : ∀ entries : List ((_ : String) × Option Cut),
      ((entries.filterMap fun entry => entry.2.map (Work.task entry.1)).filterMap
        Work.symbol).Sublist (entries.map Sigma.fst) := by
    intro entries
    induction entries with
    | nil => exact List.Sublist.slnil
    | cons entry rest ih =>
      obtain ⟨symbol, cut⟩ := entry
      cases cut with
      | none => exact ih.cons symbol
      | some cut => exact ih.cons_cons symbol
  exact (hsub tick.envelope.paths.entries).nodup tick.envelope.paths.nodupKeys

/-- A symbol has one task in a step. -/
theorem works_other {tick : Tick} {front back : List Work} {symbol : String} {cut : Cut}
    (h : works tick = front ++ .task symbol cut :: back) :
    (∀ s c, Work.task s c ∈ front → s ≠ symbol) ∧ ∀ s c, Work.task s c ∈ back → s ≠ symbol := by
  have hnd := works_nodup tick
  rw [h, List.filterMap_append, List.nodup_append] at hnd
  obtain ⟨-, hback, hdisj⟩ := hnd
  constructor
  · intro s c hmem heq
    subst heq
    exact hdisj s (List.mem_filterMap.mpr ⟨_, hmem, rfl⟩) s List.mem_cons_self rfl
  · intro s c hmem heq
    subst heq
    exact (List.nodup_cons.mp hback).1 (List.mem_filterMap.mpr ⟨_, hmem, rfl⟩)

/-- Every event keeps the desk of a model well formed. -/
theorem wellFormed_next {model : Model} (h : model.desk.WellFormed) (event : Event) :
    (model.next event).desk.WellFormed := by
  cases event with
  | mark env symbol price => exact h.mark env symbol price
  | apply report => exact h.applyReport report
  | step tick =>
    exact rel_runWorks deskRel_wellFormed tick (works tick) model (fun _ _ _ => trivial) h

/-- So does a run, from any desk that `NewDesk` and its events reach. -/
theorem wellFormed_run (cfg : Cfg) (hasTransport : TierType → Bool)
    (stored : TierType → Desk.Stored) (deskEvents : List Desk.Event) (tree : Tree)
    (events : List Event) :
    (runFrom next (new (runFrom Desk.step (Desk.new cfg hasTransport stored) deskEvents) tree)
      events).desk.WellFormed := by
  have hdesk : (runFrom Desk.step (Desk.new cfg hasTransport stored) deskEvents).WellFormed :=
    always_runFrom (fun _ event h => h.step event) (Desk.wellFormed_new cfg hasTransport stored)
      deskEvents
  have hstep : ∀ (model : Model) (event : Event), model.desk.WellFormed →
      (model.next event).desk.WellFormed := fun _ event h => wellFormed_next h event
  exact always_runFrom hstep hdesk events

end Model

end Symm.Strategy
