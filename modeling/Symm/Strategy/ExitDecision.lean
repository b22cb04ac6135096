import Symm.Strategy.ModelSpec

/-!
# What an exit decision does to the lots

The tree-exit branch of a task records an `"exit"` decision and calls
`Model.Exit` on each open lot. That call writes an exit path and scores the
tree; nothing in a step calls `Desk.Exit`, so the lots stay where they are: in
the open cache, without a close time, and without a sell.

- `AllClosed`: what the decision promises, tier by tier: out of the open cache, with a
  close time, and with a sell written where there is a transport;
- `SameOpen`: what the calls of the model do instead, as a relation that each of them
  keeps and that composes;
- `NeverExits`: the one condition under which the promise holds, that there is nothing
  to promise.

The relation is kept by every call that a step makes but entering the symbol itself, and
a task that exits does not enter. So a lot that was open when its exit was decided is
open after the step, whatever the other tasks did, and a decision is never kept.
-/

namespace Symm.Strategy

open Symm.System Symm.Lib Symm.Broker

/-- Every lot of the symbol that `before` held open has left the open cache of
its tier in `after`, has a close time, and has had its sell written if its tier
has a transport. -/
def AllClosed (symbol : String) (before after : Desk) : Prop :=
  ∀ tt id p, (before.tiers tt).positions.opened.lookup symbol = some id →
    before.lot tt id = some p →
    (after.tiers tt).positions.opened.lookup symbol ≠ some id ∧
    (∃ q, after.lot tt id = some q ∧ q.closedAt.isSome) ∧
    ((after.tiers tt).hasTransport = true →
      ∃ order, p.exitOrder = some order ∧ AddOrder.of p order ∈ (after.tiers tt).sent)

/-- The open cache holds the same lots of the symbol, as open as they were. -/
structure SameOpen (symbol : String) (desk desk' : Desk) : Prop where
  opened : ∀ tt, (desk'.tiers tt).positions.opened.lookup symbol =
    (desk.tiers tt).positions.opened.lookup symbol
  closedAt : ∀ tt id p, desk.lot tt id = some p →
    ∃ q, desk'.lot tt id = some q ∧ q.closedAt = p.closedAt

namespace SameOpen

variable {symbol : String}

theorem refl (desk : Desk) : SameOpen symbol desk desk :=
  ⟨fun _ => rfl, fun _ _ p hp => ⟨p, hp, rfl⟩⟩

/-- What two changes leave open, both together do. -/
theorem trans {desk desk' desk'' : Desk} (h : SameOpen symbol desk desk')
    (h' : SameOpen symbol desk' desk'') : SameOpen symbol desk desk'' where
  opened tt := (h'.opened tt).trans (h.opened tt)
  closedAt tt id p hp := by
    obtain ⟨q, hq, hqp⟩ := h.closedAt tt id p hp
    obtain ⟨r, hr, hrq⟩ := h'.closedAt tt id q hq
    exact ⟨r, hr, hrq.trans hqp⟩

/-- Replacing one tier by one with the same open lots of the symbol. -/
theorem set (desk : Desk) {tt : TierType} {tier : Tier}
    (hopened : tier.positions.opened.lookup symbol =
      (desk.tiers tt).positions.opened.lookup symbol)
    (hlot : ∀ id p, (desk.tiers tt).lot id = some p →
      ∃ q, tier.lot id = some q ∧ q.closedAt = p.closedAt) :
    SameOpen symbol desk (desk.set tt tier) where
  opened tt' := by
    by_cases heq : tt' = tt
    · rw [heq, Desk.set_self, hopened]
    · rw [Desk.set_other _ _ heq]
  closedAt tt' id p hp := by
    unfold Desk.lot at hp ⊢
    by_cases heq : tt' = tt
    · rw [heq] at hp ⊢
      rw [Desk.set_self]
      exact hlot id p hp
    · rw [Desk.set_other _ _ heq]
      exact ⟨p, hp, rfl⟩

/-- Entering another symbol. -/
theorem enter {s : String} (hs : s ≠ symbol) (desk : Desk) (env : Env) (path : String)
    (tt : TierType) (pathFound : Bool) :
    SameOpen symbol desk (desk.enter env s path tt pathFound).1 := by
  refine set desk (Tier.lookup_enter_other hs _ env path pathFound) fun id q hq => ?_
  have hunlocked : ((desk.tiers tt).unlock (some (desk.tiers .paper))).lot id = some q := hq
  exact ⟨q, Tier.lot_enter hunlocked env s path pathFound, rfl⟩

end SameOpen

/-- Writing a lot without its close time. -/
theorem SameOpen.setLot {symbol : String} (desk : Desk) {tt : TierType} {id : LotId}
    {p q : Position} (hp : desk.lot tt id = some p) (hq : q.closedAt = p.closedAt) :
    SameOpen symbol desk (desk.set tt ((desk.tiers tt).setLot id q)) :=
  SameOpen.set desk rfl fun _ _ hp' => Tier.part_setLot Position.closedAt hp hq hp'

/-- Settling, holding, scoring, and entering other symbols leave the open lots
of a symbol open. -/
theorem deskRel_sameOpen (symbol : String) : DeskRel (SameOpen symbol) (· ≠ symbol) where
  refl := SameOpen.refl
  trans h h' := h.trans h'
  hold desk _ _ _ _ hp := SameOpen.setLot desk hp rfl
  exit desk _ _ _ _ hp _ := SameOpen.setLot desk hp rfl
  clear desk s := by
    refine ⟨fun tt => ?_, fun tt id p hp => ⟨p, ?_, rfl⟩⟩
    · exact congrArg (fun c : Cache => c.opened.lookup symbol)
        (Tier.clearPending_frame (desk.tiers tt) s).2.2.2
    · show ((desk.tiers tt).clearPending s).lot id = some p
      rw [Tier.lot, (Tier.clearPending_frame (desk.tiers tt) s).2.2.1]
      exact hp
  enter desk env s path tt pathFound hs := SameOpen.enter hs desk env path tt pathFound

namespace Model

/-- The open lots of a symbol are in an open cache, without a close time. -/
theorem of_mem_openLots {model : Model} {symbol : String} {ref : TierType × LotId}
    (h : ref ∈ model.openLots symbol) :
    (model.desk.tiers ref.1).positions.opened.lookup symbol = some ref.2 ∧
      ∃ p, model.lot ref = some p ∧ p.closedAt = none := by
  obtain ⟨hmem, hopen⟩ := List.mem_filter.mp h
  obtain ⟨tt, -, href⟩ := List.mem_flatMap.mp hmem
  obtain ⟨id, hid, rfl⟩ := List.mem_map.mp href
  refine ⟨Tier.mem_openOf.mp hid, ?_⟩
  obtain ⟨p, hp, hc⟩ := Option.any_eq_true _ _ |>.mp hopen
  exact ⟨p, hp, Option.isNone_iff_eq_none.mp hc⟩

/-- A step in which some task takes the tree-exit branch leaves a lot of its
symbol open. -/
theorem exitsLive_leaves_open {tick : Tick} {model : Model} (hwf : model.desk.WellFormed)
    {front back : List Work} {symbol : String} {cut : Cut}
    (hworks : works tick = front ++ .task symbol cut :: back)
    (hlive : (runWorks tick front model).1.exitsLive tick symbol cut = true) :
    ∃ tt id p, (model.desk.tiers tt).positions.opened.lookup symbol = some id ∧
      model.desk.lot tt id = some p ∧
      ((model.step tick).1.desk.tiers tt).positions.opened.lookup symbol = some id ∧
      ∃ q, (model.step tick).1.desk.lot tt id = some q ∧ q.closedAt = none := by
  obtain ⟨hfront, hback⟩ := works_other hworks
  have hrel := deskRel_sameOpen symbol
  obtain ⟨hlots, tree, htask⟩ := task_of_exitsLive hlive
  obtain ⟨⟨tt, id⟩, hmem⟩ := List.exists_mem_of_ne_nil _ hlots
  obtain ⟨hopened, q, hq, hqc⟩ := of_mem_openLots hmem
  -- the lot was open before the step, and it still is after it
  have hbefore := rel_runWorks hrel tick front model hfront
  have hthis : SameOpen symbol (runWorks tick front model).1.desk
      ((runWorks tick front model).1.task tick symbol cut).1.desk := by
    rw [htask]
    exact rel_foldl hrel.toQuietRel (rel_exit hrel.toTaskRel tick.cfg.learning cut.text) _
      { (runWorks tick front model).1 with tree := tree }
  have hafter : SameOpen symbol (runWorks tick front model).1.desk (model.step tick).1.desk := by
    rw [step, hworks, runWorks_append]
    exact hthis.trans (rel_runWorks hrel tick back _ hback)
  have hopened' : (model.desk.tiers tt).positions.opened.lookup symbol = some id := by
    rw [← hbefore.opened tt]
    exact hopened
  obtain ⟨p, hp, -⟩ := (hwf tt).1.opened symbol id hopened'
  obtain ⟨r, hr, hrq⟩ := hafter.closedAt tt id q hq
  exact ⟨tt, id, p, hopened', hp, (hafter.opened tt).trans hopened, r, hr, hrq.trans hqc⟩

/-- Every exit decision of the step closes the lots of its symbol. -/
def ExitCloses (tick : Tick) (model : Model) : Prop :=
  ∀ decision ∈ (model.step tick).2, decision.action = "exit" →
    AllClosed decision.symbol model.desk (model.step tick).1.desk

/-- No task of the step takes the tree-exit branch. -/
def NeverExits (tick : Tick) (model : Model) : Prop :=
  ∀ front symbol cut back, works tick = front ++ .task symbol cut :: back →
    (runWorks tick front model).1.exitsLive tick symbol cut = false

/-- Every exit decision closes the lots of its symbol exactly if no task takes the exit
branch: nothing there calls `Desk.Exit`. -/
theorem exitCloses_iff {tick : Tick} {model : Model} (hwf : model.desk.WellFormed) :
    model.ExitCloses tick ↔ model.NeverExits tick := by
  constructor
  · intro hcloses front symbol cut back hworks
    by_contra hlive
    have hlive := Bool.eq_true_of_not_eq_false hlive
    obtain ⟨-, tree, htask⟩ := task_of_exitsLive hlive
    have hdecided : act symbol cut.text "exit" "tree exit · story no longer bullish" ∈
        (model.step tick).2 := by
      rw [step, hworks]
      refine mem_runWorks_of_perform ?_
      show _ ∈ ((runWorks tick front model).1.task tick symbol cut).2
      rw [htask]
      exact List.mem_singleton_self _
    obtain ⟨tt, id, p, hopened, hp, hstill, -⟩ := exitsLive_leaves_open hwf hworks hlive
    exact (hcloses _ hdecided rfl tt id p hopened hp).1 hstill
  · intro hnever decision hmem haction
    obtain ⟨front, work, back, hworks, hmem⟩ := mem_runWorks hmem
    cases work with
    | flush => cases hmem
    | task symbol cut =>
      have hquiet := task_of_not_exitsLive deskRel_wellFormed.toQuietRel trivial
        (hnever front symbol cut back hworks)
      exact absurd haction (hquiet.2.2 decision hmem)

/-- On any desk and along any run of the model, the exit decisions of the next
step close the lots of their symbols only if there are none: if no task takes
the branch that records them. -/
theorem exit_closes_iff_never_exits (cfg : Cfg) (hasTransport : TierType → Bool)
    (stored : TierType → Desk.Stored) (deskEvents : List Desk.Event) (tree : Tree)
    (events : List Event) (tick : Tick) :
    ExitCloses tick (runFrom next
        (new (runFrom Desk.step (Desk.new cfg hasTransport stored) deskEvents) tree) events) ↔
      NeverExits tick (runFrom next
        (new (runFrom Desk.step (Desk.new cfg hasTransport stored) deskEvents) tree) events) :=
  exitCloses_iff (wellFormed_run cfg hasTransport stored deskEvents tree events)

/-- The two lots of `sampleEntered` are told to exit, and stay open. -/
theorem sampleTick_not_closed : ¬ ExitCloses sampleTick (new Desk.sampleEntered sampleTree) := by
  intro h
  have hwf : (new Desk.sampleEntered sampleTree).desk.WellFormed :=
    wellFormed_run Cfg.defaults (fun _ => true) (fun _ => ⟨[], []⟩) _ sampleTree []
  have hnever := (exitCloses_iff hwf).mp h [.flush] "A/B" ⟨"a/b", 2, .finite 1⟩ [] rfl
  revert hnever
  decide +kernel

end Model

end Symm.Strategy
