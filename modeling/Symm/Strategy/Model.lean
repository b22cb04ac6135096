import Symm.Broker.Desk
import Symm.Strategy.Tree

/-!
# The model (`strategy/model.go`, `logic/resonance/features.go`)

`Model.Step` settles what stopped out since the last tick, then runs one task
per symbol of the envelope. The tasks of a step run on a pool; here they run
one after the other, in the order of the path map. Lots are named by their tier
and address.

`scores` is the log of effective `Model.Exit` calls, each of which records an
exit path on its lot and applies one delta to the tree; `resets` is the log of
`resetPath` calls, which reach the training loop and not this state; `calls` is
the log of `Desk.Enter` calls.

A reading is a map of float64s, and every test of the gate is one that a number
fails: `x < min`. A reading that is no number fails none of them.

- `Envelope`, `Tick`: what a step is given, the configuration and the desk's outside
  included;
- `story`, `resonates`: the gate of a reading, and why it holds back;
- `exit`, `settle`, `flushSettled`: the outcomes of lots, and what they do to the tree;
- `task`, `conclude`, `enterTiers`: the branches of one symbol;
- `step`: a flush and the tasks, each in the state that the ones before have left.
-/

namespace Symm.Strategy

open Symm.System Symm.Lib Symm.Broker

/-- Why a decision was made: a fixed text, or the refusal of a tier. -/
inductive Reason
  | text (reason : String)
  | refused (err : TierError)
  deriving DecidableEq

/-- The members of `runtime.Decision` that the model records. -/
structure Decision where
  symbol : String
  action : String
  reason : Reason
  gate : String
  path : String
  tier : String
  deriving DecidableEq

/-- A lit region of the emit board. -/
structure Region where
  key : Nat
  brightness : ℚ

/-- The members of `runtime.Envelope` that the model reads. -/
structure Envelope where
  paths : AList fun _ : String => Option Cut
  resonance : String → Option (String → Option Floating)
  regions : String → List (Option Region)

/-- What one step reads: the configuration, the envelope, and what each task
reads from the clocks and the books when it enters a tier. -/
structure Tick where
  cfg : Cfg
  envelope : Envelope
  env : String → TierType → Env

/-- One effective `Model.Exit`. -/
structure Score where
  tier : TierType
  lot : LotId
  entryPath : String
  exitPath : String
  delta : ℚ
  deriving DecidableEq

/-- A call of `Desk.Enter`. -/
structure Call where
  symbol : String
  path : String
  tier : TierType
  pathFound : Bool
  deriving DecidableEq

/-- `Model`. -/
structure Model where
  desk : Desk
  tree : Tree
  resets : List String
  scores : List Score
  calls : List Call

/-! ## Resonance -/

/-- `len(resonance.Features)`. -/
def featureCount : Nat := 15

/-- `storyFeatureCount`. -/
def storyFeatureCount : Nat := 9

/-- The four nets of a forward curve. -/
structure StoryNets where
  enterNet : Floating
  holdNet : Floating
  exitNet : Floating
  risk : Floating

/-- One oracle pair of `ForwardStoryNets`, at offset `first + 2 * pair`. -/
def oraclePair (curve : List Floating) (nets : StoryNets) (pair : Nat) : StoryNets :=
  let veto := curve.getD (storyFeatureCount + 2 * pair) (.finite 0)
  let approve := curve.getD (storyFeatureCount + 2 * pair + 1) (.finite 0)
  { nets with
    enterNet := nets.enterNet.add approve
    holdNet := if pair = 0 then nets.holdNet.add approve else nets.holdNet
    risk := if nets.risk.lt veto then veto else nets.risk }

/-- `ForwardStoryNets`: nets of a curve that covers the story features, with
the oracle pairs folded in when it covers every feature. -/
def forwardStoryNets (curve : List Floating) : Option StoryNets :=
  if curve.length < storyFeatureCount then none
  else
    let at_ := fun i => curve.getD i (.finite 0)
    let nets : StoryNets := {
      enterNet := ((at_ 0).add (at_ 1)).sub (at_ 2)
      exitNet := ((at_ 3).add (at_ 4)).sub (at_ 5)
      holdNet := ((at_ 6).add (at_ 7)).sub (at_ 8)
      risk := .finite 0 }
    if curve.length < featureCount then some nets
    else some ((List.range 3).foldl (oraclePair curve) nets)

/-- The forward curve of a reading, up to the first missing feature. -/
def forwardCurve (rez : String → Option Floating) : List Floating :=
  (((List.range featureCount).map fun i => rez ("forward_curve_" ++ toString i)).takeWhile
    Option.isSome).reduceOption

/-- `bypassReading`. -/
def bypassReading (learn : Learning) (key : String) : Option Floating :=
  if key = "calibrated" ∨ key = "surprise" ∨ key = "task_relative_precision" then
    some (.finite 1)
  else if key = "supported_horizon" then some (.ofInt (max learn.minSupportedHorizon 1))
  else ((List.range featureCount).find? fun i => key = "forward_curve_" ++ toString i).map fun i =>
    if i = 0 ∨ i = 1 ∨ i = 6 ∨ i = 7 ∨ (9 ≤ i ∧ i % 2 = 0) then .finite 1 else .finite 0

/-- The conversion `int(x)` of a float64: the fraction is dropped. What has no int
becomes the least one, as the amd64 instruction has it. -/
def truncInt : Floating → Int
  | .finite x =>
    let n := if 0 ≤ x then ⌊x⌋ else ⌈x⌉
    if -2 ^ 63 ≤ n ∧ n < 2 ^ 63 then n else -2 ^ 63
  | _ => -2 ^ 63

/-- The value a Go map read gives for a missing key. -/
def orZero (value : Option Floating) : Floating := value.getD (.finite 0)

/-- `gateReason`. -/
def gateReason (learn : Learning) (rez : String → Option Floating) : String :=
  if (orZero (rez "calibrated")).lt (.finite 1) then "resonance not calibrated"
  else if truncInt (orZero (rez "supported_horizon")) < learn.minSupportedHorizon then
    "supported horizon below minimum"
  else match rez "task_relative_precision" with
    | none => "task-relative precision not ready"
    | some precision =>
      if precision.lt (.finite learn.minTaskRelativePrecision) then
        "task-relative precision below threshold"
      else if (orZero (rez "surprise")).lt (.finite learn.minSurprise) then
        "surprise below threshold"
      else "resonance gate"

/-- The reading passes the resonance gate. -/
def resonates (learn : Learning) (rez : String → Option Floating) : Bool :=
  ¬ ((orZero (rez "calibrated")).lt (.finite 1) ∨
    truncInt (orZero (rez "supported_horizon")) < learn.minSupportedHorizon ∨
    (rez "task_relative_precision").all (·.lt (.finite learn.minTaskRelativePrecision)) ∨
    (orZero (rez "surprise")).lt (.finite learn.minSurprise))

/-- A skipped symbol. -/
def skip (symbol path gate reason : String) : Decision where
  symbol := symbol
  action := "skip"
  reason := .text reason
  gate := gate
  path := path
  tier := ""

/-- A decision about the open lots of a symbol. -/
def act (symbol path action reason : String) : Decision where
  symbol := symbol
  action := action
  reason := .text reason
  gate := ""
  path := path
  tier := ""

/-- The resonance part of a task: the nets of the forward story, or the skip it
ends with. -/
def story (learn : Learning) (rez : Option (String → Option Floating)) (symbol path : String) :
    Except Decision StoryNets :=
  match rez.orElse fun _ => if learn.resonanceBypass then some (bypassReading learn) else none with
  | none => .error (skip symbol path "resonance" "no resonance reading")
  | some rez =>
    if ¬ learn.resonanceBypass ∧ ¬ resonates learn rez then
      .error (skip symbol path "resonance" (gateReason learn rez))
    else match forwardStoryNets (forwardCurve rez) with
      | some nets => .ok nets
      | none =>
        if learn.resonanceBypass then .ok ⟨.finite 1, .finite 1, .finite 0, .finite 0⟩
        else .error (skip symbol path "resonance" "forward curve incomplete")

/-- The forward story is bullish. -/
def bullish (learn : Learning) (nets : StoryNets) : Bool :=
  learn.resonanceBypass ∨ (Floating.le (.finite learn.minEnterZ) nets.enterNet ∧
    Floating.le (.finite learn.minEnterZ) nets.holdNet ∧ nets.exitNet.le nets.holdNet ∧
    nets.risk.lt (.finite learn.minEnterZ))

/-- `Board.Tradable`: an approving region is lit and no vetoing one. -/
def tradable : List (Option Region) → Bool → Bool
  | [], approved => approved
  | none :: rest, approved => tradable rest approved
  | some region :: rest, approved =>
    if region.brightness ≤ 0 ∨ region.key < 9 ∨ 22 < region.key then tradable rest approved
    else if region.key % 2 = 1 then false
    else tradable rest true

namespace Model

/-! ## Lots -/

/-- The lot at an address. -/
def lot (model : Model) (ref : TierType × LotId) : Option Position := model.desk.lot ref.1 ref.2

/-- Write a member of a shared lot. -/
def modify (ref : TierType × LotId) (change : Position → Position) (model : Model) : Model :=
  match model.lot ref with
  | none => model
  | some position => { model with
      desk := model.desk.set ref.1 ((model.desk.tiers ref.1).setLot ref.2 (change position)) }

/-- `openLots`: the open lots of a symbol that are not closed. -/
def openLots (model : Model) (symbol : String) : List (TierType × LotId) :=
  (model.desk.positionsOf symbol).filter fun ref =>
    (model.lot ref).any fun position => position.closedAt.isNone

/-- `Model.Hold`. -/
def hold (path : String) (model : Model) (ref : TierType × LotId) : Model :=
  match model.lot ref with
  | none => model
  | some position =>
    if path = "" ∨ path = position.entryPath ∨ position.holdPaths = [path] then model
    else model.modify ref fun position => { position with holdPaths := [path] }

/-- The delta a lot is scored with. -/
def delta (position : Position) : ℚ := if position.pnl.any (0 < ·) then -1 / 20 else 1 / 20

/-- `Model.Exit`: record the exit path and score both paths of the lot. The lot
is not closed here. -/
def exit (learn : Learning) (path : String) (model : Model) (ref : TierType × LotId) : Model :=
  match model.lot ref with
  | none => model
  | some position =>
    if path = "" ∨ path = position.entryPath then model
    else
      let tree := (model.tree.ensure learn position.entryPath .enter).ensure learn path .exit
      let tree := (tree.update learn position.entryPath (delta position)).update learn path
        (delta position)
      { model.modify ref fun position => { position with exitPath := path } with
        tree := tree
        scores := model.scores ++
          [⟨ref.1, ref.2, position.entryPath, path, delta position⟩] }

/-- `resetPath`. -/
def reset (symbol : String) (model : Model) : Model :=
  { model with resets := model.resets ++ [symbol] }

/-! ## Settling -/

/-- `exitCut`: the live cut of the symbol, else the lot's exit path, else its
last hold path; none of them may be the entry path. -/
def exitCut (envelope : Envelope) (position : Position) : String :=
  let live := ((envelope.paths.lookup position.symbol).bind id).elim "" Cut.text
  let path := if live = "" then position.exitPath else live
  let path := if path = "" then position.holdPaths.getLastD "" else path
  if path = "" ∨ path = position.entryPath then "" else path

/-- The callback of `flushSettled`; `seen` holds the symbols already settled. -/
def settle (learn : Learning) (envelope : Envelope) (acc : Model × List String)
    (ref : TierType × LotId) : Model × List String :=
  let (model, seen) := acc
  match model.lot ref with
  | none => acc
  | some position =>
    let symbol := position.symbol
    if symbol ∈ seen then acc
    else if position.exitPath ≠ "" then
      ({ model with desk := model.desk.clearPending symbol }, symbol :: seen)
    else
      let path := exitCut envelope position
      if path = "" then acc
      else
        let model := model.exit learn path ref
        let model := { model with desk := model.desk.clearPending symbol }
        (model.reset symbol, symbol :: seen)

/-- The pending lots of one tier. -/
def pendingOf (model : Model) (tt : TierType) : List (TierType × LotId) :=
  ((model.desk.tiers tt).pending.entries.map Sigma.snd).map (tt, ·)

/-- Settle the pending lots of one tier; they are listed when the tier's turn
comes. -/
def settleTier (learn : Learning) (envelope : Envelope) (acc : Model × List String)
    (tt : TierType) : Model × List String :=
  (acc.1.pendingOf tt).foldl (settle learn envelope) acc

/-- `flushSettled`: the pending lots tier by tier, then the closed virtual lots. -/
def flushSettled (learn : Learning) (envelope : Envelope) (model : Model) : Model :=
  let acc := [TierType.virtual, .paper, .real].foldl (settleTier learn envelope) (model, [])
  ((acc.1.desk.closedVirtuals.map (TierType.virtual, ·)).foldl (settle learn envelope) acc).1

/-! ## Tasks -/

/-- `tryEnter`, the one function that calls `Desk.Enter`; no decision stands for a
panic, which ends the task. -/
def tryEnter (tick : Tick) (symbol path : String) (tt : TierType) (pathFound : Bool)
    (reason : String) (model : Model) : Model × Option Decision :=
  let (desk, err) := model.desk.enter (tick.env symbol tt) symbol path tt pathFound
  let model := { model with
    desk := desk
    calls := model.calls ++ [⟨symbol, path, tt, pathFound⟩] }
  let decision := fun action reason gate =>
    (⟨symbol, action, reason, gate, path, tt.string⟩ : Decision)
  match err with
  | none => (model, some (decision "enter" (.text reason) ""))
  | some (.panicked _) => (model, none)
  | some (.denied denial) =>
    let action := if denial.gate = "size" then "skip" else "blocked"
    (model, some (decision action (.refused (.denied denial)) denial.gate))
  | some err => (model, some (decision "blocked" (.refused err) "tier"))

/-- `enterTiers`: a virtual sample, or paper and then real once an enter path is
found under the paper floor. -/
def enterTiers (tick : Tick) (symbol path : String) (resistance : Floating) (pathFound : Bool)
    (model : Model) : Model × List Decision :=
  let learn := tick.cfg.learning
  if learn.resonanceBypass ∨ ¬ pathFound ∨
      Floating.lt (.finite learn.paperEligibleResistance) resistance then
    let (model, sample) := model.tryEnter tick symbol path .virtual false "virtual sample"
    (model, sample.toList)
  else
    match model.tryEnter tick symbol path .paper true "paper enter" with
    | (model, none) => (model, [])
    | (model, some paper) =>
      let (model, real) := model.tryEnter tick symbol path .real true "real enter"
      (model, paper :: real.toList)

/-- `applyAction`. -/
def applyAction (tick : Tick) (symbol path : String) (action : Action) (resistance : Floating)
    (bull : Bool) (lots : List (TierType × LotId)) (model : Model) : Model × List Decision :=
  let learn := tick.cfg.learning
  match action with
  | .none => (model, [])
  | .enter =>
    if ¬ bull then
      (model, [skip symbol path "story" "enter leaf but forward story not bullish"])
    else model.enterTiers tick symbol path resistance true
  | .exit =>
    if ¬ bull ∧ lots ≠ [] then
      ((lots.foldl (exit learn path) model).reset symbol,
        [act symbol path "exit" "tree exit · story no longer bullish"])
    else (model.reset symbol,
        [skip symbol path "story" "exit leaf without open lot or still bullish"])
  | .hold =>
    if lots ≠ [] then
      ((lots.foldl (hold path) model).reset symbol, [act symbol path "hold" "tree hold"])
    else (model.reset symbol, [skip symbol path "position" "hold leaf with no open lot"])

/-- The part of a task that follows the tree's prediction. -/
def conclude (tick : Tick) (symbol : String) (cut : Cut) (bull : Bool) (action : Action)
    (resistance : Floating) (lots : List (TierType × LotId)) (model : Model) :
    Model × List Decision :=
  let learn := tick.cfg.learning
  let path := cut.text
  let wantEnter : Bool := action = .enter ∨ (action = .none ∧ bull ∧ 0 < cut.len)
  if wantEnter ∧ ¬ learn.resonanceBypass ∧ ¬ tradable (tick.envelope.regions symbol) false then
    (model, [skip symbol path "oracle" "oracle veto lit — not tradable"])
  else if action ≠ .none then model.applyAction tick symbol path action resistance bull lots
  else if lots ≠ [] ∧ path ≠ "" ∧ learn.minPathLength ≤ cut.len then
    (lots.foldl (hold path) model, [act symbol path "hold" "open lot tracking live path"])
  else if 0 < cut.len ∧ lots = [] ∧ ¬ bull then
    (model, [skip symbol path "story" "forward story not bullish"])
  else if ¬ learn.resonanceBypass ∧ cut.len < learn.minPathLength then
    (model, [skip symbol path "path" "path shorter than min length"])
  else if wantEnter then model.enterTiers tick symbol path resistance false
  else (model, [])

/-- The task of one symbol. -/
def task (tick : Tick) (symbol : String) (cut : Cut) (model : Model) : Model × List Decision :=
  let learn := tick.cfg.learning
  match story learn (tick.envelope.resonance symbol) symbol cut.text with
  | .error decision => (model, [decision])
  | .ok nets =>
    let lots := model.openLots symbol
    let (tree, action, resistance, disagreed) := model.tree.predict learn cut
    let model := { model with tree := tree }
    if disagreed then (model, [skip symbol cut.text "tree" "tree leaves disagree under cut"])
    else model.conclude tick symbol cut (bullish learn nets) action resistance lots

/-- The task ends in the branch that calls `Model.Exit` on the open lots: an exit
leaf is lit under the cut and the forward story is not bullish. -/
def exitsLive (tick : Tick) (symbol : String) (cut : Cut) (model : Model) : Bool :=
  match story tick.cfg.learning (tick.envelope.resonance symbol) symbol cut.text with
  | .error _ => false
  | .ok nets =>
    let (_, action, _, disagreed) := model.tree.predict tick.cfg.learning cut
    ¬ disagreed ∧ action = .exit ∧ ¬ bullish tick.cfg.learning nets ∧ model.openLots symbol ≠ []

/-- The task comes to the tiers: past the story and the verdict, on a tradable board,
with an enter leaf under a bullish story, or with no leaf, a long enough cut and no
lot held on its path. -/
def asksEntry (tick : Tick) (symbol : String) (cut : Cut) (model : Model) : Bool :=
  match story tick.cfg.learning (tick.envelope.resonance symbol) symbol cut.text with
  | .error _ => false
  | .ok nets =>
    let (_, action, _, disagreed) := model.tree.predict tick.cfg.learning cut
    ¬ disagreed ∧ tradable (tick.envelope.regions symbol) false ∧
      bullish tick.cfg.learning nets ∧ (action = .enter ∨ (action = .none ∧ 0 < cut.len ∧
        tick.cfg.learning.minPathLength ≤ cut.len ∧
        (model.openLots symbol = [] ∨ cut.text = "")))

/-- A part of a step: the settling, or the task of one symbol. -/
inductive Work
  | flush
  | task (symbol : String) (cut : Cut)

/-- One part of a step. -/
def perform (tick : Tick) (model : Model) : Work → Model × List Decision
  | .flush => (model.flushSettled tick.cfg.learning tick.envelope, [])
  | .task symbol cut => model.task tick symbol cut

/-- The parts one after the other, with the decisions they record. -/
def runWorks (tick : Tick) : List Work → Model → Model × List Decision
  | [], model => (model, [])
  | work :: rest, model =>
    let (model, decisions) := model.perform tick work
    let (model, more) := runWorks tick rest model
    (model, decisions ++ more)

/-- The parts of a step: a nil cut has no task. -/
def works (tick : Tick) : List Work :=
  .flush :: tick.envelope.paths.entries.filterMap fun entry => entry.2.map (Work.task entry.1)

/-- `Model.Step`. -/
def step (tick : Tick) (model : Model) : Model × List Decision :=
  runWorks tick (works tick) model

/-- What may happen to a model and its desk. -/
inductive Event
  | mark (env : TierType → Env) (symbol : String) (price : Option Decimal)
  | apply (report : (TierType → Env) × ExecutionData)
  | step (tick : Tick)

/-- One event. -/
def next (model : Model) : Event → Model
  | .mark env symbol price => { model with desk := model.desk.mark env symbol price }
  | .apply report => { model with desk := model.desk.applyReport report }
  | .step tick => (model.step tick).1

/-- A model on a new desk. -/
def new (desk : Desk) (tree : Tree) : Model := ⟨desk, tree, [], [], []⟩

/-! ## A tree and a tick to run the model on -/

/-- A tree with one exit leaf. -/
def sampleTree : Tree := ⟨[("a/b", ⟨"exit", "a/b", 1 / 10⟩)], List.pairwise_singleton _ _⟩

/-- A bright cut on that leaf, under a calibrated reading with a flat story. -/
def sampleTick : Tick where
  cfg := Cfg.defaults
  envelope := {
    paths := ⟨[⟨"A/B", some ⟨"a/b", 2, .finite 1⟩⟩], List.nodup_singleton _⟩
    resonance := fun _ => some fun key =>
      if key = "calibrated" ∨ key = "surprise" ∨ key = "task_relative_precision" then
        some (.finite 1)
      else if key = "supported_horizon" then some (.finite 5)
      else some (.finite 0)
    regions := fun _ => [] }
  env := fun _ _ => Desk.sampleEnv "x" 9 99

end Model

end Symm.Strategy
