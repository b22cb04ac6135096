import Mathlib.Logic.Function.Basic
import Symm.Lib.Numbered
import Symm.Strategy.Entering

/-!
# The resonance solver (`logic/resonance/solver.go`, `logic/resonance/features.go`)

The solver keeps one predictive coder for each symbol. A tick carries readings of some
features; they are held, and once every feature has been seen each tick with a reading
is standardized and settles the coder, with the input that it settled before as its
target. The tasks of a step run on a pool, in any order.

The coder and the standardizers are parameters. A standardizer may err, which ends the tick
for its feature and for those that stand after it. The runs are those of a process whose
coder can be built or cannot, which depends on the configuration alone.

A standardizer that errs has measured all the same, as have those before it; the next
complete tick begins from there. So the history of a symbol tells more than the readings
that it last gave: it tells which of them each standardizer came to.

- `Coder`, `Standardizer`: what the solver calls;
- `Solver`, `Event`, `run`: the solver, and the readings of each step;
- `Track`: one symbol by the history of its ticks since the last reset;
- `solver_tracks`: every run shows each symbol what its own ticks give;
- `published_gated`: the model reads back the forward curve that the solver publishes,
  and the resonance gate holds back the first reading after a reset.

- `trackEvent`: what one symbol makes of an event, without the others;
- `Tracks`: the solver is the tracks of its symbols, side by side;
- `SettledAt`, `reported`: whether a symbol has settled since its last reset, told from
  the readings that were published.
-/

namespace Symm.Logic

open Symm.Lib Symm.System

universe u v

/-- `Feature`. -/
structure Feature where
  source : String
  label : String
  deriving DecidableEq

/-- `Features`. -/
def features : List Feature :=
  [⟨"pumpdump", "compression"⟩, ⟨"correlation", "herd_score"⟩, ⟨"cvd", "starvation"⟩,
    ⟨"pumpdump", "exhaustion"⟩, ⟨"depthflow", "thin_score"⟩, ⟨"morphology", "ask_vacuum"⟩,
    ⟨"hawkes", "spectral_radius"⟩, ⟨"depthflow", "loaded_score"⟩, ⟨"liquidity", "scarcity_score"⟩,
    ⟨"sentiment", "slump_score"⟩, ⟨"correlation", "peak_score"⟩,
    ⟨"leadlag", "decoupled_score"⟩, ⟨"leadlag", "sync_score"⟩,
    ⟨"toxicity", "vacuum_score"⟩, ⟨"liquidity", "depth_score"⟩]

/-- The readings of one symbol, by source and label. -/
abbrev Sources := String → Option (String → Option Floating)

/-- The reading of a feature. -/
def Sources.reading (sources : Sources) (feature : Feature) : Option Floating :=
  (sources feature.source).bind fun labels => labels feature.label

/-- `adaptive.Standardizer`: `measure` gives a value and whether it is ready, or an
error. -/
structure Standardizer (St : Type u) where
  fresh : St
  measure : St → Floating → St × Option (Floating × Bool)

/-- One layer of `WireSnapshot`. -/
structure Wire where
  errorNorm : Floating
  temporal : Bool
  state : List Floating
  prediction : List Floating

/-- What `publish` reads off a manifold. -/
structure Snapshot where
  layers : List Wire
  surprise : Floating
  energy : Floating
  latentState : List Floating
  taskSkill : Option Floating
  taskPrecision : Option Floating
  temporalError : Option Floating
  taskPrediction : List Floating

/-- `learning.ResonanceManifold`: `build` is `NewResonanceManifold` for the configured
layers, and `settle` is `SettleFromBatchOptions`, which says whether it succeeded. -/
structure Coder (M : Type v) where
  build : Option M
  settle : M → List Floating → Option (List Floating) → M × Bool
  resetState : M → Bool → M
  snapshot : M → Snapshot

/-- A reading that is published. -/
abbrev Reading := String → Option Floating

/-- The members of one layer. -/
def layerEntries (layer : String) (wire : Wire) : List (String × Floating) :=
  [(layer ++ "_error", wire.errorNorm),
      (layer ++ "_temporal", if wire.temporal then .finite 1 else .finite 0)] ++
    numbered (layer ++ "_state_") wire.state ++ numbered (layer ++ "_prediction_") wire.prediction

/-- The members that `publish` sets before the forward curve, in its order. -/
def leadingEntries (pace : Floating) (snapshot : Snapshot) : List (String × Floating) :=
  [("surprise", snapshot.surprise), ("energy", snapshot.energy), ("alpha", pace)] ++
    (match snapshot.taskSkill with
      | some skill => [("task_skill", skill), ("calibrated", .finite 1)]
      | none => [("calibrated", .finite 0)]) ++
    (snapshot.taskPrecision.toList.map fun precision => ("task_relative_precision", precision)) ++
    (snapshot.temporalError.toList.map fun temporal => ("temporal_error", temporal)) ++
    numbered "latent_" snapshot.latentState ++
    snapshot.layers.zipIdx.flatMap fun entry => layerEntries ("layer_" ++ toString entry.2) entry.1

/-- The horizon that `publish` supports. No curve is so long that its length is not a
float64. -/
def supportedHorizon (snapshot : Snapshot) (hadTarget : Bool) : Floating :=
  if hadTarget ∧ 0 < snapshot.taskPrediction.length then .finite snapshot.taskPrediction.length
  else .finite 0

/-- The members that `publish` sets. -/
def publishEntries (pace : Floating) (snapshot : Snapshot) (hadTarget : Bool) :
    List (String × Floating) :=
  leadingEntries pace snapshot ++ numbered "forward_curve_" snapshot.taskPrediction ++
    [("supported_horizon", supportedHorizon snapshot hadTarget)]

/-- `publish`: a member that is set twice keeps the last value. -/
def publish (pace : Floating) (snapshot : Snapshot) (hadTarget : Bool) : Reading :=
  fun key => (publishEntries pace snapshot hadTarget).reverse.lookup key

/-! ## The scorer of one symbol -/

/-- One feature of a `featureScorer`. -/
structure Cell (St : Type u) where
  standardizer : St
  held : Floating
  seen : Bool

/-- `symbolState`. -/
structure SymbolState (St : Type u) (M : Type v) where
  manifold : M
  scorer : List (Cell St)
  pending : List Floating

variable {St : Type u} {M : Type v} (standardizer : Standardizer St) (coder : Coder M)
  (pace : Floating)

/-- `newFeatureScorer`. -/
def newFeatureScorer : List (Cell St) :=
  List.replicate features.length ⟨standardizer.fresh, .finite 0, false⟩

/-- Hold the reading of a feature, where there is one. -/
def Cell.arrive (sources : Sources) (feature : Feature) (cell : Cell St) : Cell St :=
  match sources.reading feature with
  | some value => { cell with held := value, seen := true }
  | none => cell

/-- The loop that standardizes what is held; the first error ends it. -/
def measureAll : List (Cell St) → List (Cell St) × Option (List (Floating × Bool))
  | [] => ([], some [])
  | cell :: rest =>
    match standardizer.measure cell.standardizer cell.held with
    | (st, none) => ({ cell with standardizer := st } :: rest, none)
    | (st, some output) =>
      let (rest', outputs) := measureAll rest
      ({ cell with standardizer := st } :: rest', outputs.map (output :: ·))

/-- `Observe`: the scorer afterwards, and the input that it returns as ready. -/
def observe (sources : Sources) (scorer : List (Cell St)) :
    List (Cell St) × Option (List Floating) :=
  let arrived := List.zipWith (Cell.arrive sources) features scorer
  if ¬ features.any (fun feature => (sources.reading feature).isSome) then (arrived, none)
  else if ¬ arrived.all (·.seen) then (arrived, none)
  else
    match measureAll standardizer arrived with
    | (measured, none) => (measured, none)
    | (measured, some outputs) =>
      if outputs.any (·.2) then (measured, some (outputs.map (·.1))) else (measured, none)

/-- `stepSymbol`, once the state of the symbol is there. -/
def SymbolState.step (sources : Sources) (state : SymbolState St M) :
    SymbolState St M × Option Reading :=
  match observe standardizer sources state.scorer with
  | (scorer, none) => ({ state with scorer }, none)
  | (scorer, some input) =>
    let hadTarget := state.pending.length = input.length
    match coder.settle state.manifold input (if hadTarget then some state.pending else none) with
    | (manifold, false) => (⟨manifold, scorer, state.pending⟩, none)
    | (manifold, true) =>
      (⟨manifold, scorer, input⟩, some (publish pace (coder.snapshot manifold) hadTarget))

/-! ## The solver -/

/-- `Solver`; `failed` is the error that it keeps. -/
structure Solver (St : Type u) (M : Type v) where
  symbols : String → Option (SymbolState St M)
  failed : Bool

/-- `NewSolver`. -/
def Solver.new : Solver St M := ⟨fun _ => none, false⟩

/-- `state`: the symbol's state, which is built where there is none. -/
def Solver.state (solver : Solver St M) (symbol : String) :
    Solver St M × Option (SymbolState St M) :=
  match solver.symbols symbol with
  | some held => (solver, some held)
  | none =>
    match coder.build with
    | none => ({ solver with failed := true }, none)
    | some manifold =>
      let state : SymbolState St M := ⟨manifold, newFeatureScorer standardizer, []⟩
      ({ solver with symbols := Function.update solver.symbols symbol (some state) }, some state)

/-- `stepSymbol`. -/
def Solver.stepSymbol (solver : Solver St M) (symbol : String) (sources : Sources) :
    Solver St M × Option Reading :=
  if solver.failed then (solver, none)
  else
    match solver.state standardizer coder symbol with
    | (solver, none) => (solver, none)
    | (solver, some state) =>
      let (state, reading) := state.step standardizer coder pace sources
      ({ solver with symbols := Function.update solver.symbols symbol (some state) }, reading)

/-- `envelope.Metrics()`, in the order that the tasks run. -/
structure Metrics where
  entries : List (String × Sources)
  nodup : (entries.map Prod.fst).Nodup

/-- The symbol is one that a step passes over. -/
def passedOver (symbol : String) : Bool := symbol = "" ∨ symbol = "aggregate"

/-- The task of one symbol, which adds its reading to `envelope.Resonance`. -/
def task (acc : Solver St M × (String → Option Reading)) (entry : String × Sources) :
    Solver St M × (String → Option Reading) :=
  if passedOver entry.1 then acc
  else
    let (solver, reading) := acc.1.stepSymbol standardizer coder pace entry.1 entry.2
    match reading with
    | none => (solver, acc.2)
    | some reading => (solver, Function.update acc.2 entry.1 (some reading))

/-- `Step`: the solver afterwards, and the readings of the envelope. -/
def Solver.step (solver : Solver St M) (metrics : Metrics) :
    Solver St M × (String → Option Reading) :=
  if solver.failed then (solver, fun _ => none)
  else metrics.entries.foldl (task standardizer coder pace) (solver, fun _ => none)

/-- `Reset`. -/
def Solver.reset (solver : Solver St M) (resetPrecision : Bool) : Solver St M :=
  { solver with
    symbols := fun symbol => (solver.symbols symbol).map fun state =>
      ⟨coder.resetState state.manifold resetPrecision, newFeatureScorer standardizer, []⟩ }

/-- `Close`. -/
def Solver.close (solver : Solver St M) : Solver St M := { solver with symbols := fun _ => none }

inductive Event
  | step (metrics : Metrics)
  | reset (resetPrecision : Bool)
  | close

/-- One event, with the readings that it publishes. -/
def Solver.event (solver : Solver St M) : Event → Solver St M × (String → Option Reading)
  | .step metrics => solver.step standardizer coder pace metrics
  | .reset resetPrecision => (solver.reset standardizer coder resetPrecision, fun _ => none)
  | .close => (solver.close, fun _ => none)

/-- A run, with the readings of each event. -/
def Solver.run (solver : Solver St M) :
    List Event → Solver St M × List (String → Option Reading)
  | [] => (solver, [])
  | e :: events =>
    let (solver, readings) := solver.event standardizer coder pace e
    let (last, later) := solver.run events
    (last, readings :: later)

/-! ## One symbol by its history -/

/-- What a feature last read in the ticks, the newest of which is first. -/
def lastReading (feature : Feature) : List Sources → Option Floating
  | [] => none
  | sources :: older => (sources.reading feature).or (lastReading feature older)

/-- The newest tick has a reading, and every feature has been read. -/
def complete : List Sources → Bool
  | [] => false
  | sources :: older =>
    features.any (fun feature => (sources.reading feature).isSome) ∧
      ∀ feature ∈ features, (lastReading feature (sources :: older)).isSome

/-- The standardizers after these ticks. At a complete tick each measures what its feature
last read, in the order of the features and up to the first that errs. -/
def standardized : List Sources → Feature → St
  | [] => fun _ => standardizer.fresh
  | sources :: older => fun feature =>
    let measured := fun feature => standardizer.measure (standardized older feature)
      ((lastReading feature (sources :: older)).getD (.finite 0))
    if complete (sources :: older) ∧
        (features.takeWhile (· ≠ feature)).all fun earlier => (measured earlier).2.isSome then
      (measured feature).1
    else standardized older feature

/-- What the standardizer of a feature makes of a complete tick: an error is none. -/
def output (sources : Sources) (older : List Sources) (feature : Feature) :
    Option (Floating × Bool) :=
  (standardizer.measure (standardized standardizer older feature)
    ((lastReading feature (sources :: older)).getD (.finite 0))).2

/-- What the standardizers make of a complete tick at which none errs. -/
def outputs (sources : Sources) (older : List Sources) : Option (List (Floating × Bool)) :=
  if ∀ feature ∈ features, (output standardizer sources older feature).isSome then
    some (features.filterMap (output standardizer sources older))
  else none

/-- The input that the newest tick gives, if any. -/
def inputOf (sources : Sources) (older : List Sources) : Option (List Floating) :=
  if complete (sources :: older) then
    ((outputs standardizer sources older).filter fun measured => measured.any (·.2)).map
      fun measured => measured.map (·.1)
  else none

/-- A symbol: its ticks since the last reset, the newest first, its coder, and the input
that was settled last. -/
structure Track (M : Type v) where
  history : List Sources
  manifold : M
  settled : List Floating

/-- A tick settles the coder on the input that it gives, with the input that was settled
before as the target. -/
def Track.tick (sources : Sources) (track : Track M) : Track M × Option Reading :=
  match inputOf standardizer sources track.history with
  | none => ({ track with history := sources :: track.history }, none)
  | some input =>
    let hadTarget := track.settled.length = input.length
    match coder.settle track.manifold input (if hadTarget then some track.settled else none) with
    | (manifold, false) => (⟨sources :: track.history, manifold, track.settled⟩, none)
    | (manifold, true) =>
      (⟨sources :: track.history, manifold, input⟩,
        some (publish pace (coder.snapshot manifold) hadTarget))

/-- What an event is to one symbol. -/
inductive Seen
  | tick (sources : Sources)
  | unseen
  | reset (resetPrecision : Bool)
  | close

/-- What a symbol sees of the tasks of a step. -/
def seenIn (symbol : String) (entries : List (String × Sources)) : Seen :=
  if passedOver symbol then .unseen
  else
    match entries.lookup symbol with
    | some sources => .tick sources
    | none => .unseen

/-- What a symbol sees of an event. -/
def seenBy (symbol : String) : Event → Seen
  | .step metrics => seenIn symbol metrics.entries
  | .reset resetPrecision => .reset resetPrecision
  | .close => .close

/-- A symbol whose coder cannot be built is not tracked. -/
def trackEvent (track : Option (Track M)) : Seen → Option (Track M) × Option Reading
  | .tick sources =>
    match track.or (coder.build.map fun manifold => ⟨[], manifold, []⟩) with
    | none => (none, none)
    | some track =>
      let (track, reading) := track.tick standardizer coder pace sources
      (some track, reading)
  | .unseen => (track, none)
  | .reset resetPrecision =>
    (track.map fun track => ⟨[], coder.resetState track.manifold resetPrecision, []⟩, none)
  | .close => (none, none)

/-- The readings of a symbol along what it sees. -/
def trackRun (track : Option (Track M)) : List Seen → List (Option Reading)
  | [] => []
  | seen :: rest =>
    let (track, reading) := trackEvent standardizer coder pace track seen
    reading :: trackRun track rest

/-! ## The scorer follows the history -/

section Scorer

variable {standardizer}

/-- A feature after these ticks. -/
def cellOf (standardizer : Standardizer St) (history : List Sources) (feature : Feature) :
    Cell St where
  standardizer := standardized standardizer history feature
  held := (lastReading feature history).getD (.finite 0)
  seen := (lastReading feature history).isSome

/-- A feature that has not been standardized at the newest tick. -/
def arrivedOf (standardizer : Standardizer St) (sources : Sources) (older : List Sources)
    (feature : Feature) : Cell St :=
  { cellOf standardizer (sources :: older) feature with
    standardizer := standardized standardizer older feature }

/-- A reading arrives in the cell of its feature. -/
theorem arrive_cellOf (sources : Sources) (older : List Sources) (feature : Feature) :
    (cellOf standardizer older feature).arrive sources feature =
      arrivedOf standardizer sources older feature := by
  have hlast : lastReading feature (sources :: older) =
      (sources.reading feature).or (lastReading feature older) := rfl
  unfold Cell.arrive arrivedOf cellOf
  rw [hlast]
  cases sources.reading feature with
  | none => rfl
  | some value => rfl

/-- All readings arrive, each in its own cell. -/
theorem arrived_cells (sources : Sources) (older : List Sources) :
    List.zipWith (Cell.arrive sources) features (features.map (cellOf standardizer older)) =
      features.map (arrivedOf standardizer sources older) := by
  rw [List.zipWith_map_right, List.zipWith_self]
  exact List.map_congr_left fun feature _ => arrive_cellOf sources older feature

/-- At a tick that is not complete nothing is standardized. -/
theorem arrivedOf_incomplete {sources : Sources} {older : List Sources}
    (h : complete (sources :: older) = false) (feature : Feature) :
    arrivedOf standardizer sources older feature =
      cellOf standardizer (sources :: older) feature := by
  unfold arrivedOf cellOf
  rw [standardized, h]
  rfl

/-- A cell whose standardizer has measured what is held. -/
def Cell.measured (standardizer : Standardizer St) (cell : Cell St) : Cell St :=
  { cell with standardizer := (standardizer.measure cell.standardizer cell.held).1 }

/-- What the standardizer of a cell makes of what is held. -/
def Cell.output (standardizer : Standardizer St) (cell : Cell St) : Option (Floating × Bool) :=
  (standardizer.measure cell.standardizer cell.held).2

/-- The loop goes on behind a cell that gave an output, and stops behind one that did not.
-/
theorem measureAll_cons (cell : Cell St) (rest : List (Cell St)) :
    measureAll standardizer (cell :: rest) =
      if (cell.output standardizer).isSome then
        (cell.measured standardizer :: (measureAll standardizer rest).1,
          (measureAll standardizer rest).2.map ((cell.output standardizer).toList ++ ·))
      else (cell.measured standardizer :: rest, none) := by
  unfold Cell.output Cell.measured
  rw [measureAll]
  rcases standardizer.measure cell.standardizer cell.held with ⟨st, _ | output⟩
  · rfl
  · rfl

/-- A cell after the loop over these features: it is measured unless one before it errs. -/
def loopCell (standardizer : Standardizer St) (cell : Feature → Cell St) (fs : List Feature)
    (feature : Feature) : Cell St :=
  if (fs.takeWhile (· ≠ feature)).all fun earlier => ((cell earlier).output standardizer).isSome
  then (cell feature).measured standardizer
  else cell feature

theorem loopCell_self (cell : Feature → Cell St) (first : Feature) (rest : List Feature) :
    loopCell standardizer cell (first :: rest) first = (cell first).measured standardizer := by
  unfold loopCell
  rw [List.takeWhile_cons_of_neg (by simp), if_pos List.all_nil]

/-- What stands before a later feature is the first one and what the rest says. -/
theorem map_loopCell (cell : Feature → Cell St) {first : Feature} {rest : List Feature}
    (h : first ∉ rest) :
    rest.map (loopCell standardizer cell (first :: rest)) =
      if ((cell first).output standardizer).isSome then
        rest.map (loopCell standardizer cell rest)
      else rest.map cell := by
  have hlater : ∀ feature ∈ rest, loopCell standardizer cell (first :: rest) feature =
      if ((cell first).output standardizer).isSome then loopCell standardizer cell rest feature
      else cell feature := by
    intro feature hfeature
    have hne : first ≠ feature := fun heq => h (heq ▸ hfeature)
    have htake : (first :: rest).takeWhile (· ≠ feature) =
        first :: rest.takeWhile (· ≠ feature) :=
      List.takeWhile_cons_of_pos (decide_eq_true hne)
    unfold loopCell
    rw [htake, List.all_cons]
    cases ((cell first).output standardizer).isSome with
    | true => rfl
    | false => rfl
  rw [List.map_congr_left hlater]
  split
  · rfl
  · rfl

/-- The loop measures up to the first cell that errs, that one among them, and its outputs
count where there is none. -/
theorem measureAll_map (cell : Feature → Cell St) {fs : List Feature} (hnodup : fs.Nodup) :
    measureAll standardizer (fs.map cell) =
      (fs.map (loopCell standardizer cell fs),
        if ∀ feature ∈ fs, ((cell feature).output standardizer).isSome then
          some (fs.filterMap fun feature => (cell feature).output standardizer)
        else none) := by
  induction fs with
  | nil => rfl
  | cons first rest ih =>
    obtain ⟨hfirst, hrest⟩ := List.nodup_cons.mp hnodup
    rw [List.map_cons, measureAll_cons, ih hrest, List.map_cons, loopCell_self,
      map_loopCell cell hfirst, List.filterMap_cons]
    simp only [List.forall_mem_cons]
    cases (cell first).output standardizer with
    | none => rfl
    | some output =>
      simp only [Option.isSome_some, true_and, if_true]
      split
      · rfl
      · rfl

theorem nodup_features : features.Nodup := by decide

/-- A complete tick measures a feature if those before it gave an output. -/
theorem standardized_complete {sources : Sources} {older : List Sources}
    (h : complete (sources :: older) = true) (feature : Feature) :
    standardized standardizer (sources :: older) feature =
      if (features.takeWhile (· ≠ feature)).all fun earlier =>
          ((arrivedOf standardizer sources older earlier).output standardizer).isSome
      then ((arrivedOf standardizer sources older feature).measured standardizer).standardizer
      else standardized standardizer older feature := by
  rw [standardized]
  dsimp only
  simp only [h, true_and]
  rfl

/-- At a complete tick the cells are those of the longer history. -/
theorem measureAll_arrived {sources : Sources} {older : List Sources}
    (h : complete (sources :: older) = true) :
    measureAll standardizer (features.map (arrivedOf standardizer sources older)) =
      (features.map (cellOf standardizer (sources :: older)),
        outputs standardizer sources older) := by
  have hcell : ∀ feature, loopCell standardizer (arrivedOf standardizer sources older) features
      feature = cellOf standardizer (sources :: older) feature := by
    intro feature
    unfold loopCell cellOf
    rw [standardized_complete h]
    cases (features.takeWhile (· ≠ feature)).all fun earlier =>
        ((arrivedOf standardizer sources older earlier).output standardizer).isSome with
    | true => rfl
    | false => rfl
  rw [measureAll_map _ nodup_features, List.map_congr_left fun feature _ => hcell feature]
  rfl

/-- The scorer of a history observes a tick as the history says. -/
theorem observe_cells (sources : Sources) (older : List Sources) :
    observe standardizer sources (features.map (cellOf standardizer older)) =
      (features.map (cellOf standardizer (sources :: older)),
        inputOf standardizer sources older) := by
  -- every cell has been seen once its feature has a reading in the history
  have hseen : (features.map (arrivedOf standardizer sources older)).all (·.seen) = true ↔
      ∀ feature ∈ features, (lastReading feature (sources :: older)).isSome := by
    rw [List.all_map, List.all_eq_true]
    rfl
  unfold observe
  rw [arrived_cells]
  dsimp only
  by_cases hcomplete : complete (sources :: older) = true
  · obtain ⟨hany, hall⟩ := of_decide_eq_true hcomplete
    rw [if_neg (not_not.mpr hany), if_neg (not_not.mpr (hseen.mpr hall)),
      measureAll_arrived hcomplete]
    unfold inputOf
    rw [if_pos hcomplete]
    cases outputs standardizer sources older with
    | none => rfl
    | some measured =>
      dsimp only
      rw [Option.filter_some]
      split
      · rfl
      · rfl
  · -- no cell is measured before all features have arrived
    have hincomplete : complete (sources :: older) = false := Bool.eq_false_iff.mpr hcomplete
    have hcells : features.map (arrivedOf standardizer sources older) =
        features.map (cellOf standardizer (sources :: older)) :=
      List.map_congr_left fun feature _ => arrivedOf_incomplete hincomplete feature
    have hinput : inputOf standardizer sources older = none := if_neg hcomplete
    rw [hcells] at hseen ⊢
    rw [hinput]
    split
    · rfl
    · rename_i hany
      split
      · rfl
      · rename_i hall
        exact absurd (decide_eq_true ⟨not_not.mp hany, hseen.mp (not_not.mp hall)⟩) hcomplete

end Scorer

/-! ## The solver follows the tracks -/

section Tracks

variable {standardizer coder}

/-- The state of a symbol with this track. -/
def Track.toState (standardizer : Standardizer St) (track : Track M) : SymbolState St M :=
  ⟨track.manifold, features.map (cellOf standardizer track.history), track.settled⟩

/-- A step of a symbol's state is a tick of its track. -/
theorem step_toState (coder : Coder M)
    (sources : Sources) (track : Track M) :
    (track.toState standardizer).step standardizer coder pace sources =
      ((track.tick standardizer coder pace sources).1.toState standardizer,
        (track.tick standardizer coder pace sources).2) := by
  have hobserve : observe standardizer sources _ = _ := observe_cells sources track.history
  unfold SymbolState.step Track.tick
  show (match observe standardizer sources
    (features.map (cellOf standardizer track.history)) with | (_, none) => _ | (_, some _) => _) = _
  rw [hobserve]
  cases inputOf standardizer sources track.history with
  | none => rfl
  | some input =>
    dsimp only
    show (match coder.settle track.manifold input
      (if track.settled.length = input.length then some track.settled else none) with
      | (_, false) => _ | (_, true) => _) = _
    rcases coder.settle track.manifold input
      (if track.settled.length = input.length then some track.settled else none) with
      ⟨manifold, _ | _⟩
    · rfl
    · rfl

/-- The states of the solver are those of the tracks. -/
structure Tracks (standardizer : Standardizer St) (coder : Coder M)
    (tracks : String → Option (Track M)) (solver : Solver St M) : Prop where
  symbols : ∀ symbol, solver.symbols symbol = (tracks symbol).map (Track.toState standardizer)
  failed : solver.failed = true → coder.build = none
  unbuilt : coder.build = none → ∀ symbol, tracks symbol = none

variable {tracks : String → Option (Track M)} {solver : Solver St M}

theorem tracks_new : Tracks standardizer coder (fun _ => none) (.new : Solver St M) :=
  ⟨fun _ => rfl, nofun, fun _ _ => rfl⟩

/-- A tick goes on from the track there is, or from a new one. -/
theorem trackEvent_tick {track : Option (Track M)} {known : Track M} (sources : Sources)
    (h : track.or (coder.build.map fun manifold => ⟨[], manifold, []⟩) = some known) :
    trackEvent standardizer coder pace track (.tick sources) =
      (some (known.tick standardizer coder pace sources).1,
        (known.tick standardizer coder pace sources).2) := by
  unfold trackEvent
  rw [h]

/-- Where no coder can be built there is no track. -/
theorem trackEvent_unbuilt (sources : Sources) (h : coder.build = none) :
    trackEvent standardizer coder pace none (.tick sources) = (none, none) := by
  unfold trackEvent
  rw [h]
  rfl

/-- A symbol's state is stepped as its track. -/
theorem Tracks.put (h : Tracks standardizer coder tracks solver) (symbol : String)
    {track : Track M} (hbuilt : coder.build ≠ none) :
    Tracks standardizer coder (Function.update tracks symbol (some track))
      { solver with
        symbols := Function.update solver.symbols symbol (some (track.toState standardizer)) } := by
  refine ⟨fun other => ?_, h.failed, fun hnone => absurd hnone hbuilt⟩
  by_cases hother : other = symbol
  · rw [hother]
    show Function.update solver.symbols symbol (some (track.toState standardizer)) symbol =
      (Function.update tracks symbol (some track) symbol).map _
    rw [Function.update_self, Function.update_self]
    rfl
  · show Function.update solver.symbols symbol (some (track.toState standardizer)) other =
      (Function.update tracks symbol (some track) other).map _
    rw [Function.update_of_ne hother, Function.update_of_ne hother]
    exact h.symbols other

/-- A task keeps the solver in step with the tracks, and reads what the track gives. -/
theorem Tracks.stepSymbol (h : Tracks standardizer coder tracks solver) (symbol : String)
    (sources : Sources) :
    Tracks standardizer coder
        (Function.update tracks symbol
          (trackEvent standardizer coder pace (tracks symbol) (.tick sources)).1)
        (solver.stepSymbol standardizer coder pace symbol sources).1 ∧
      (solver.stepSymbol standardizer coder pace symbol sources).2 =
        (trackEvent standardizer coder pace (tracks symbol) (.tick sources)).2 := by
  have hsymbol := h.symbols symbol
  cases hbuild : coder.build with
  | none =>
    have hnone := h.unbuilt hbuild symbol
    have hsame : Function.update tracks symbol none = tracks := by
      rw [← hnone, Function.update_eq_self]
    rw [hnone] at hsymbol
    rw [hnone, trackEvent_unbuilt pace sources hbuild, hsame]
    unfold Solver.stepSymbol Solver.state
    rw [hsymbol, hbuild]
    split
    · exact ⟨h, rfl⟩
    · exact ⟨⟨h.symbols, fun _ => hbuild, h.unbuilt⟩, rfl⟩
  | some manifold =>
    have hbuilt : coder.build ≠ none := by
      rw [hbuild]
      nofun
    have hfailed : ¬ solver.failed = true := fun hfailed => hbuilt (h.failed hfailed)
    unfold Solver.stepSymbol Solver.state
    rw [if_neg hfailed]
    cases htrack : tracks symbol with
    | some track =>
      have hknown : (some track).or (coder.build.map fun manifold => ⟨[], manifold, []⟩) =
          some track := rfl
      rw [htrack] at hsymbol
      rw [hsymbol, trackEvent_tick pace sources hknown]
      dsimp only [Option.map_some]
      rw [step_toState pace coder]
      exact ⟨h.put symbol hbuilt, rfl⟩
    | none =>
      have hknown : (none : Option (Track M)).or
          (coder.build.map fun manifold => ⟨[], manifold, []⟩) = some ⟨[], manifold, []⟩ := by
        rw [hbuild]
        rfl
      rw [htrack] at hsymbol
      rw [hsymbol, hbuild, trackEvent_tick pace sources hknown]
      dsimp only [Option.map_none]
      have hstep : (Track.toState standardizer ⟨[], manifold, []⟩).step standardizer coder pace
          sources = _ := step_toState pace coder sources ⟨[], manifold, []⟩
      -- the state that is built is replaced by the one after the tick
      show Tracks standardizer coder _
          ⟨Function.update (Function.update solver.symbols symbol _) symbol
            (some ((Track.toState standardizer ⟨[], manifold, []⟩).step standardizer coder pace
              sources).1), solver.failed⟩ ∧
        ((Track.toState standardizer ⟨[], manifold, []⟩).step standardizer coder pace
          sources).2 = _
      rw [hstep, Function.update_idem]
      exact ⟨h.put symbol hbuilt, rfl⟩

section Seen

variable {symbol other : String} {sources : Sources} {entries : List (String × Sources)}

theorem seenIn_passed (h : passedOver symbol = true) (entries : List (String × Sources)) :
    seenIn symbol entries = .unseen := if_pos h

/-- Of the entries of a step a symbol sees its own. -/
theorem seenIn_self (h : passedOver symbol = false) :
    seenIn symbol ((symbol, sources) :: entries) = .tick sources := by
  unfold seenIn
  rw [h, List.lookup_cons_self]
  rfl

/-- Of the entries of a step a symbol sees no other one. -/
theorem seenIn_other (h : other ≠ symbol) :
    seenIn other ((symbol, sources) :: entries) = seenIn other entries := by
  unfold seenIn
  rw [List.lookup_cons, beq_false_of_ne h]

/-- An entry of a symbol that is passed over is seen by none. -/
theorem seenIn_skip (h : passedOver symbol = true) :
    seenIn other ((symbol, sources) :: entries) = seenIn other entries := by
  by_cases hother : other = symbol
  · rw [hother, seenIn_passed h, seenIn_passed h]
  · exact seenIn_other hother

theorem seenIn_absent (h : symbol ∉ entries.map Prod.fst) : seenIn symbol entries = .unseen := by
  induction entries with
  | nil =>
    unfold seenIn
    split
    · rfl
    · rfl
  | cons entry rest ih =>
    rw [List.map_cons, List.mem_cons, not_or] at h
    rw [seenIn_other h.1]
    exact ih h.2

end Seen

/-- A task steps its symbol and keeps the reading that the symbol has where it gives none. -/
theorem task_steps {symbol : String} (h : passedOver symbol = false) (sources : Sources)
    (solver : Solver St M) (acc : String → Option Reading) :
    task standardizer coder pace (solver, acc) (symbol, sources) =
      ((solver.stepSymbol standardizer coder pace symbol sources).1,
        Function.update acc symbol
          ((solver.stepSymbol standardizer coder pace symbol sources).2.or (acc symbol))) := by
  unfold task
  rw [if_neg (by simp [h])]
  dsimp only
  rcases solver.stepSymbol standardizer coder pace symbol sources with ⟨stepped, _ | reading⟩
  · dsimp only [Option.none_or]
    rw [Function.update_eq_self]
  · rfl

/-- The tasks of a step show each symbol its own entry, in whatever order they run. -/
theorem Tracks.tasks : ∀ (entries : List (String × Sources)) (tracks : String → Option (Track M))
      (solver : Solver St M) (acc : String → Option Reading),
      (entries.map Prod.fst).Nodup → Tracks standardizer coder tracks solver →
      Tracks standardizer coder
          (fun symbol => (trackEvent standardizer coder pace (tracks symbol)
            (seenIn symbol entries)).1)
          (entries.foldl (task standardizer coder pace) (solver, acc)).1 ∧
        ∀ symbol, (entries.foldl (task standardizer coder pace) (solver, acc)).2 symbol =
          (trackEvent standardizer coder pace (tracks symbol) (seenIn symbol entries)).2.or
            (acc symbol) := by
  intro entries
  induction entries with
  | nil =>
    intro tracks solver acc _ h
    have hunseen : ∀ symbol, seenIn symbol [] = .unseen := fun symbol =>
      seenIn_absent List.not_mem_nil
    refine ⟨?_, fun symbol => ?_⟩
    · simp only [hunseen]
      exact h
    · rw [hunseen]
      rfl
  | cons entry rest ih =>
    intro tracks solver acc hnodup h
    obtain ⟨symbol, sources⟩ := entry
    obtain ⟨habsent, hrest⟩ := List.nodup_cons.mp hnodup
    rw [List.foldl_cons]
    cases hpassed : passedOver symbol with
    | true =>
      -- a symbol that is passed over is one that the tick does not show
      have htask : task standardizer coder pace (solver, acc) (symbol, sources) = (solver, acc) :=
        if_pos hpassed
      simp only [seenIn_skip hpassed, htask]
      exact ih tracks solver acc hrest h
    | false =>
      -- the induction goes on from the solver that this task leaves
      have hstep := h.stepSymbol pace symbol sources
      obtain ⟨hkept, hreadings⟩ := ih _ _ (Function.update acc symbol
        ((solver.stepSymbol standardizer coder pace symbol sources).2.or (acc symbol)))
        hrest hstep.1
      rw [task_steps pace hpassed]
      -- the entries name a symbol once, so the rest does not show this one again
      have hseen : ∀ other, trackEvent standardizer coder pace (tracks other)
            (seenIn other ((symbol, sources) :: rest)) =
          if other = symbol then trackEvent standardizer coder pace (tracks symbol) (.tick sources)
          else trackEvent standardizer coder pace (tracks other) (seenIn other rest) := by
        intro other
        by_cases hother : other = symbol
        · rw [if_pos hother, hother, seenIn_self hpassed]
        · rw [if_neg hother, seenIn_other hother]
      refine ⟨?_, fun other => ?_⟩
      · convert hkept using 2 with other
        rw [hseen]
        by_cases hother : other = symbol
        · rw [if_pos hother, hother, Function.update_self, seenIn_absent habsent]
          rfl
        · rw [if_neg hother, Function.update_of_ne hother]
      · rw [hreadings, hseen]
        by_cases hother : other = symbol
        · rw [if_pos hother, hother, Function.update_self, Function.update_self,
            seenIn_absent habsent, hstep.2]
          rfl
        · rw [if_neg hother, Function.update_of_ne hother, Function.update_of_ne hother]

/-- Where no coder can be built, no event tracks a symbol. -/
theorem trackEvent_none (hbuild : coder.build = none) (seen : Seen) :
    trackEvent standardizer coder pace none seen = (none, none) := by
  cases seen with
  | tick sources => exact trackEvent_unbuilt pace sources hbuild
  | unseen => rfl
  | reset resetPrecision => rfl
  | close => rfl

/-- An event shows each symbol what the symbol sees of it. -/
theorem Tracks.event (h : Tracks standardizer coder tracks solver) (e : Event) :
    Tracks standardizer coder
        (fun symbol => (trackEvent standardizer coder pace (tracks symbol) (seenBy symbol e)).1)
        (solver.event standardizer coder pace e).1 ∧
      ∀ symbol, (solver.event standardizer coder pace e).2 symbol =
        (trackEvent standardizer coder pace (tracks symbol) (seenBy symbol e)).2 := by
  cases e with
  | step metrics =>
    -- a solver without a coder returns before it reads anything
    by_cases hfailed : solver.failed = true
    · have hbuild := h.failed hfailed
      have hstep : solver.event standardizer coder pace (.step metrics) =
          (solver, fun _ => none) := if_pos hfailed
      have hnone : ∀ symbol, trackEvent standardizer coder pace (tracks symbol)
          (seenBy symbol (.step metrics)) = (tracks symbol, none) := by
        intro symbol
        rw [h.unbuilt hbuild symbol, trackEvent_none pace hbuild]
      simp only [hstep, hnone, implies_true, and_true]
      exact h
    · have hstep : solver.event standardizer coder pace (.step metrics) =
          metrics.entries.foldl (task standardizer coder pace) (solver, fun _ => none) :=
        if_neg hfailed
      obtain ⟨hkept, hreadings⟩ := Tracks.tasks pace metrics.entries tracks
        solver (fun _ => none) metrics.nodup h
      rw [hstep]
      refine ⟨hkept, fun symbol => ?_⟩
      rw [hreadings, Option.or_none]
      rfl
  | reset resetPrecision =>
    refine ⟨⟨fun symbol => ?_, h.failed, fun hbuild symbol => ?_⟩, fun _ => rfl⟩
    · show (solver.symbols symbol).map _ = ((tracks symbol).map _).map _
      rw [h.symbols, Option.map_map, Option.map_map]
      rfl
    · show (tracks symbol).map _ = none
      rw [h.unbuilt hbuild]
      rfl
  | close => exact ⟨⟨fun _ => rfl, h.failed, fun _ _ => rfl⟩, fun _ => rfl⟩

/-- A run shows each symbol what its track shows. -/
theorem Tracks.run (h : Tracks standardizer coder tracks solver) (events : List Event)
    (symbol : String) :
    (solver.run standardizer coder pace events).2.map (fun readings => readings symbol) =
      trackRun standardizer coder pace (tracks symbol) (events.map (seenBy symbol)) := by
  induction events generalizing tracks solver with
  | nil => rfl
  | cons e events ih =>
    obtain ⟨hkept, hreadings⟩ := h.event pace e
    show (solver.event standardizer coder pace e).2 symbol ::
        ((solver.event standardizer coder pace e).1.run standardizer coder pace events).2.map
          (fun readings => readings symbol) =
      (trackEvent standardizer coder pace (tracks symbol) (seenBy symbol e)).2 ::
        trackRun standardizer coder pace
          (trackEvent standardizer coder pace (tracks symbol) (seenBy symbol e)).1
          (events.map (seenBy symbol))
    rw [hreadings, ih hkept]

/-- Every run shows each symbol what its own ticks give since the last reset, in whatever
order the tasks of a step run and whatever else is settled. -/
theorem solver_tracks (events : List Event) (symbol : String) :
    ((Solver.new.run standardizer coder pace events).2.map fun readings => readings symbol) =
      trackRun standardizer coder pace none (events.map (seenBy symbol)) :=
  tracks_new.run pace events symbol

end Tracks

/-! ## What is published is read back -/

section Published

variable {pace} {snapshot : Snapshot} {hadTarget : Bool}

/-- The name begins with this character. -/
def Leads (c : Char) (name : String) : Prop := name.toList.head? = some c

instance (c : Char) (name : String) : Decidable (Leads c name) :=
  inferInstanceAs (Decidable (_ = _))

/-- A name that leads with a letter goes on doing so. -/
theorem Leads.append {c : Char} {name : String} (h : Leads c name) (rest : String) :
    Leads c (name ++ rest) := by
  unfold Leads at *
  rw [String.toList_append, List.head?_append, h]
  rfl

/-- Names that lead with other letters are other names. -/
theorem Leads.ne {c d : Char} {name : String} (h : Leads c name) (hne : c ≠ d) :
    ¬ Leads d name := by
  intro hd
  exact hne (Option.some.inj (h.symm.trans hd))

theorem numbered_leads {c : Char} {name : String} (h : Leads c name) (values : List Floating) :
    ∀ entry ∈ numbered name values, Leads c entry.1 := by
  intro entry hentry
  obtain ⟨numberedEntry, _, rfl⟩ := List.mem_map.mp hentry
  exact h.append _

theorem layerEntries_leads {layer : String} (h : Leads 'l' layer) (wire : Wire) :
    ∀ entry ∈ layerEntries layer wire, Leads 'l' entry.1 := by
  unfold layerEntries
  simp only [List.forall_mem_append, List.forall_mem_cons, List.not_mem_nil, false_imp_iff,
    implies_true, and_true]
  exact ⟨⟨⟨h.append _, h.append _⟩, numbered_leads (h.append _) _⟩,
    numbered_leads (h.append _) _⟩

/-- No member before the forward curve has a name like those of the curve. -/
theorem leadingEntries_leads (pace : Floating) (snapshot : Snapshot) :
    ∀ entry ∈ leadingEntries pace snapshot, ¬ Leads 'f' entry.1 := by
  unfold leadingEntries
  simp only [List.forall_mem_append]
  refine ⟨⟨⟨⟨⟨?_, ?_⟩, ?_⟩, ?_⟩, ?_⟩, ?_⟩
  · simp only [List.forall_mem_cons, List.not_mem_nil, false_imp_iff, implies_true, and_true]
    exact ⟨by decide, by decide, by decide⟩
  · cases snapshot.taskSkill with
    | none =>
      simp only [List.forall_mem_singleton]
      decide
    | some skill =>
      simp only [List.forall_mem_cons, List.not_mem_nil, false_imp_iff, implies_true, and_true]
      exact ⟨by decide, by decide⟩
  · intro entry hentry
    obtain ⟨precision, _, rfl⟩ := List.mem_map.mp hentry
    exact show ¬ Leads 'f' "task_relative_precision" by decide
  · intro entry hentry
    obtain ⟨temporal, _, rfl⟩ := List.mem_map.mp hentry
    exact show ¬ Leads 'f' "temporal_error" by decide
  · intro entry hentry
    have hname : Leads 'l' "latent_" := rfl
    exact (numbered_leads hname _ entry hentry).ne (by decide)
  · intro entry hentry
    obtain ⟨layer, _, hlayer⟩ := List.mem_flatMap.mp hentry
    have hname : Leads 'l' "layer_" := rfl
    exact (layerEntries_leads (hname.append _) _ entry hlayer).ne (by decide)

/-- The horizon is set last. -/
theorem publish_horizon :
    publish pace snapshot hadTarget "supported_horizon" =
      some (supportedHorizon snapshot hadTarget) := by
  unfold publish publishEntries
  rw [List.reverse_append]
  exact List.lookup_cons_self

/-- Each value of the forward curve stands under its number, and no other member does. -/
theorem publish_curve (i : ℕ) :
    publish pace snapshot hadTarget ("forward_curve_" ++ toString i) =
      snapshot.taskPrediction[i]? := by
  have hname : Leads 'f' ("forward_curve_" ++ toString i) :=
    Leads.append (show Leads 'f' "forward_curve_" from rfl) _
  have hhorizon : "forward_curve_" ++ toString i ≠ "supported_horizon" := fun heq =>
    absurd (heq ▸ hname) (by decide)
  have hleading : (leadingEntries pace snapshot).reverse.lookup ("forward_curve_" ++ toString i) =
      none := by
    rw [List.lookup_eq_none_iff]
    intro entry hentry
    rw [bne_iff_ne]
    intro heq
    exact leadingEntries_leads pace snapshot entry (List.mem_reverse.mp hentry) (heq ▸ hname)
  unfold publish publishEntries
  rw [List.reverse_append, List.reverse_append, List.lookup_append, List.lookup_append,
    lookup_numbered_reverse, hleading, Option.or_none, List.reverse_singleton,
    List.lookup_cons, beq_false_of_ne hhorizon]
  rfl

/-- The model reads the forward curve back. -/
theorem forwardCurve_publish :
    Strategy.forwardCurve (publish pace snapshot hadTarget) =
      snapshot.taskPrediction.take Strategy.featureCount :=
  readNumbered_take publish_curve

end Published

/-! ## What the gate lets through -/

section Settled

/-- The loop neither adds nor loses cells, and its outputs are as many if there are any. -/
theorem length_measureAll (cells : List (Cell St)) :
    (measureAll standardizer cells).1.length = cells.length ∧
      ∀ outputs ∈ (measureAll standardizer cells).2, outputs.length = cells.length := by
  induction cells with
  | nil => exact ⟨rfl, fun _ h => Option.some.inj h ▸ rfl⟩
  | cons cell rest ih =>
    unfold measureAll
    rcases standardizer.measure cell.standardizer cell.held with ⟨st, _ | output⟩
    · exact ⟨rfl, nofun⟩
    · refine ⟨congrArg (· + 1) ih.1, ?_⟩
      intro outputs houtputs
      obtain ⟨later, hlater, rfl⟩ := Option.map_eq_some_iff.mp houtputs
      exact congrArg (· + 1) (ih.2 later hlater)

/-- An input has one value for each feature. -/
theorem length_observe (sources : Sources) {scorer : List (Cell St)}
    (h : scorer.length = features.length) :
    (observe standardizer sources scorer).1.length = features.length ∧
      ∀ input ∈ (observe standardizer sources scorer).2, input.length = features.length := by
  have harrived : (List.zipWith (Cell.arrive sources) features scorer).length =
      features.length := by
    rw [List.length_zipWith, h, Nat.min_self]
  have hmeasured := length_measureAll standardizer
    (List.zipWith (Cell.arrive sources) features scorer)
  rw [harrived] at hmeasured
  unfold observe
  dsimp only
  split
  · exact ⟨harrived, nofun⟩
  split
  · exact ⟨harrived, nofun⟩
  generalize measureAll standardizer (List.zipWith (Cell.arrive sources) features scorer) =
    result at hmeasured ⊢
  rcases result with ⟨measured, _ | outputs⟩
  · exact ⟨hmeasured.1, nofun⟩
  · dsimp only
    split
    · refine ⟨hmeasured.1, fun input hinput => ?_⟩
      rw [← Option.some.inj hinput, List.length_map]
      exact hmeasured.2 outputs rfl
    · exact ⟨hmeasured.1, nofun⟩

/-- A state whose last input is there exactly when one was settled. -/
structure Settled (known : Bool) (state : SymbolState St M) : Prop where
  scorer : state.scorer.length = features.length
  pending : state.pending.length = if known then features.length else 0

/-- A step publishes with a target exactly when an input was settled before it. -/
theorem Settled.step {known : Bool} {state : SymbolState St M} (h : Settled known state)
    (sources : Sources) :
    Settled (known || (state.step standardizer coder pace sources).2.isSome)
        (state.step standardizer coder pace sources).1 ∧
      ∀ reading ∈ (state.step standardizer coder pace sources).2,
        reading = publish pace
          (coder.snapshot (state.step standardizer coder pace sources).1.manifold) known := by
  have hlength := length_observe standardizer sources h.scorer
  unfold SymbolState.step
  generalize observe standardizer sources state.scorer = observed at hlength ⊢
  rcases observed with ⟨scorer, _ | input⟩
  · exact ⟨⟨hlength.1, by rw [Option.isSome_none, Bool.or_false]; exact h.pending⟩, nofun⟩
  · have hinput := hlength.2 input rfl
    -- an input of the right length was settled before, as the target of this one
    have htarget : state.pending.length = input.length ↔ known = true := by
      rw [h.pending, hinput]
      cases known with
      | true => exact ⟨fun _ => rfl, fun _ => rfl⟩
      | false => exact ⟨fun heq => absurd heq (by decide), nofun⟩
    dsimp only
    rcases coder.settle state.manifold input
      (if state.pending.length = input.length then some state.pending else none) with
      ⟨manifold, _ | _⟩
    · exact ⟨⟨hlength.1, by rw [Option.isSome_none, Bool.or_false]; exact h.pending⟩, nofun⟩
    · refine ⟨⟨hlength.1, ?_⟩, fun reading hreading => ?_⟩
      · rw [Option.isSome_some, Bool.or_true]
        exact hinput
      · rw [← Option.some.inj hreading]
        congr 1
        exact Bool.eq_iff_iff.mpr (decide_eq_true_iff.trans htarget)

/-- Whether the symbol has had a reading since it was last cleared. -/
def reported (symbol : String) (known : Bool)
    (entries : List (Event × (String → Option Reading))) : Bool :=
  entries.foldl (fun known entry =>
    match entry.1 with
    | .step _ => known || (entry.2 symbol).isSome
    | .reset _ => false
    | .close => false) known

/-- The same of a symbol in a solver. -/
def SettledAt (symbol : String) (known : Bool) (solver : Solver St M) : Prop :=
  match solver.symbols symbol with
  | none => known = false
  | some state => Settled known state

/-- What an event makes of a symbol: it published with a target exactly when an input was
settled before. -/
structure Continues (symbol : String) (known : Bool) (out : Solver St M × Option Reading) :
    Prop where
  settled : SettledAt symbol (known || out.2.isSome) out.1
  published : ∀ reading ∈ out.2, ∃ state, out.1.symbols symbol = some state ∧
    reading = publish pace (coder.snapshot state.manifold) known

section Solver

variable {standardizer coder pace} {symbol : String} {known : Bool} {solver : Solver St M}

theorem SettledAt.congr {other : Solver St M} (h : SettledAt symbol known solver)
    (hsame : other.symbols symbol = solver.symbols symbol) : SettledAt symbol known other := by
  unfold SettledAt at *
  rwa [hsame]

/-- An event that publishes nothing for the symbol and keeps its state. -/
theorem SettledAt.idle {other : Solver St M} (h : SettledAt symbol known solver)
    (hsame : other.symbols symbol = solver.symbols symbol) :
    Continues coder pace symbol known (other, none) := by
  refine ⟨?_, nofun⟩
  rw [Option.isSome_none, Bool.or_false]
  exact h.congr hsame

theorem Continues.congr {out other : Solver St M × Option Reading}
    (h : Continues coder pace symbol known out)
    (hsymbols : other.1.symbols symbol = out.1.symbols symbol) (hreading : other.2 = out.2) :
    Continues coder pace symbol known other := by
  refine ⟨?_, ?_⟩
  · rw [hreading]
    exact h.settled.congr hsymbols
  · rw [hreading, hsymbols]
    exact h.published

theorem settled_new (manifold : M) :
    Settled false (⟨manifold, newFeatureScorer standardizer, []⟩ : SymbolState St M) :=
  ⟨List.length_replicate, rfl⟩

/-- A state that is stepped in place of the one the solver had. -/
theorem Settled.put {state : SymbolState St M} (h : Settled known state) (sources : Sources)
    (held : Solver St M) :
    Continues coder pace symbol known
      (⟨Function.update held.symbols symbol
          (some (state.step standardizer coder pace sources).1), held.failed⟩,
        (state.step standardizer coder pace sources).2) := by
  obtain ⟨hsettled, hpublished⟩ := h.step standardizer coder pace sources
  refine ⟨?_, fun reading hreading => ⟨_, Function.update_self .., hpublished reading hreading⟩⟩
  unfold SettledAt
  dsimp only
  rw [Function.update_self]
  exact hsettled

/-- A task of the symbol goes on from what it had settled. -/
theorem SettledAt.stepSymbol (h : SettledAt symbol known solver) (sources : Sources) :
    Continues coder pace symbol known
      (solver.stepSymbol standardizer coder pace symbol sources) := by
  unfold Solver.stepSymbol Solver.state
  split
  · exact h.idle rfl
  cases hsymbol : solver.symbols symbol with
  | some state =>
    unfold SettledAt at h
    rw [hsymbol] at h
    exact h.put sources solver
  | none =>
    cases coder.build with
    | none => exact h.idle rfl
    | some manifold =>
      have hknown : known = false := by
        unfold SettledAt at h
        rwa [hsymbol] at h
      rw [hknown]
      exact (settled_new manifold).put sources _

/-- A task of another symbol leaves it alone. -/
theorem stepSymbol_other {other : String} (h : symbol ≠ other) (sources : Sources) :
    (solver.stepSymbol standardizer coder pace other sources).1.symbols symbol =
      solver.symbols symbol := by
  unfold Solver.stepSymbol Solver.state
  split
  · rfl
  cases solver.symbols other with
  | some state => exact Function.update_of_ne h _ _
  | none =>
    cases coder.build with
    | none => rfl
    | some manifold => exact (Function.update_of_ne h _ _).trans (Function.update_of_ne h _ _)

/-- The tasks of other symbols leave a symbol as it is. -/
theorem tasks_absent {entries : List (String × Sources)} (h : symbol ∉ entries.map Prod.fst)
    (acc : Solver St M × (String → Option Reading)) :
    (entries.foldl (task standardizer coder pace) acc).1.symbols symbol = acc.1.symbols symbol ∧
      (entries.foldl (task standardizer coder pace) acc).2 symbol = acc.2 symbol := by
  induction entries generalizing acc with
  | nil => exact ⟨rfl, rfl⟩
  | cons entry rest ih =>
    obtain ⟨solver, readings⟩ := acc
    obtain ⟨other, sources⟩ := entry
    rw [List.map_cons, List.mem_cons, not_or] at h
    rw [List.foldl_cons, (ih h.2 _).1, (ih h.2 _).2]
    cases hpassed : passedOver other with
    | true =>
      have hsame : task standardizer coder pace (solver, readings) (other, sources) =
          (solver, readings) := if_pos hpassed
      rw [hsame]
      exact ⟨rfl, rfl⟩
    | false =>
      rw [task_steps pace hpassed]
      exact ⟨stepSymbol_other h.1 _, Function.update_of_ne h.1 _ _⟩

theorem SettledAt.tasks {entries : List (String × Sources)} (h : SettledAt symbol known solver)
    (hnodup : (entries.map Prod.fst).Nodup) {acc : String → Option Reading}
    (hacc : acc symbol = none) :
    Continues coder pace symbol known
      ((entries.foldl (task standardizer coder pace) (solver, acc)).1,
        (entries.foldl (task standardizer coder pace) (solver, acc)).2 symbol) := by
  induction entries generalizing solver acc with
  | nil =>
    dsimp only [List.foldl_nil]
    rw [hacc]
    exact h.idle rfl
  | cons entry rest ih =>
    obtain ⟨other, sources⟩ := entry
    have habsent : other ∉ rest.map Prod.fst := (List.nodup_cons.mp hnodup).1
    have hrest := (List.nodup_cons.mp hnodup).2
    rw [List.foldl_cons]
    cases hpassed : passedOver other with
    | true =>
      have hsame : task standardizer coder pace (solver, acc) (other, sources) = (solver, acc) :=
        if_pos hpassed
      rw [hsame]
      exact ih h hrest hacc
    | false =>
      rw [task_steps pace hpassed]
      by_cases hother : symbol = other
      · -- the tasks that are left are those of other symbols
        subst hother
        have hstep : Continues coder pace symbol known
            (solver.stepSymbol standardizer coder pace symbol sources) := h.stepSymbol sources
        refine hstep.congr (tasks_absent habsent _).1 ?_
        rw [(tasks_absent habsent _).2]
        show Function.update acc symbol _ symbol = _
        rw [Function.update_self, hacc, Option.or_none]
      · refine ih (h.congr (stepSymbol_other hother sources)) hrest ?_
        rw [Function.update_of_ne hother, hacc]

/-- An event continues every symbol from what it had. -/
theorem SettledAt.step (h : SettledAt symbol known solver) (metrics : Metrics) :
    Continues coder pace symbol known
      ((solver.step standardizer coder pace metrics).1,
        (solver.step standardizer coder pace metrics).2 symbol) := by
  unfold Solver.step
  split
  · exact h.idle rfl
  · exact h.tasks metrics.nodup rfl

/-- `Reset` leaves no input that was settled. -/
theorem settledAt_reset (resetPrecision : Bool) :
    SettledAt symbol false (solver.reset standardizer coder resetPrecision) := by
  have hreset : (solver.reset standardizer coder resetPrecision).symbols symbol =
      (solver.symbols symbol).map fun state =>
        ⟨coder.resetState state.manifold resetPrecision, newFeatureScorer standardizer, []⟩ := rfl
  unfold SettledAt
  rw [hreset]
  cases solver.symbols symbol with
  | none => rfl
  | some state => exact settled_new _

/-- A run settles a symbol as its readings say. -/
theorem SettledAt.run (h : SettledAt symbol known solver) (events : List Event) :
    SettledAt symbol
      (reported symbol known (events.zip (solver.run standardizer coder pace events).2))
      (solver.run standardizer coder pace events).1 := by
  induction events generalizing known solver with
  | nil => exact h
  | cons e events ih =>
    refine ih ?_
    cases e with
    | step metrics => exact (h.step metrics).settled
    | reset resetPrecision => exact settledAt_reset resetPrecision
    | close => exact rfl

end Solver

/-- The horizon that is published is the length of the curve, or zero without a target. -/
theorem supportedHorizon_eq (snapshot : Snapshot) (hadTarget : Bool) :
    supportedHorizon snapshot hadTarget =
      .finite (if hadTarget then snapshot.taskPrediction.length else 0 : ℕ) := by
  unfold supportedHorizon
  cases hadTarget with
  | false => rfl
  | true =>
    cases snapshot.taskPrediction with
    | nil => rfl
    | cons value rest =>
      rw [if_pos ⟨rfl, Nat.succ_pos _⟩]
      rfl

/-- What has no int converts to less than any minimum. -/
theorem le_of_le_truncInt {least : ℤ} (hleast : 1 ≤ least) {n : ℕ}
    (h : least ≤ Strategy.truncInt (.finite n)) : least ≤ n := by
  unfold Strategy.truncInt at h
  dsimp only at h
  rw [if_pos (Nat.cast_nonneg n), Int.floor_natCast] at h
  split at h
  · exact h
  · exact absurd (hleast.trans h) (by decide)

/-- In every run, a reading that is published carries the coder's forward curve to the
model, and supports it exactly when the symbol had a reading before since it was last
cleared. Only then does the resonance gate let it through. -/
theorem published_gated (learn : Learning) (hlearn : 1 ≤ learn.minSupportedHorizon)
    (before : List Event) (metrics : Metrics) (symbol : String) (reading : Reading)
    (hreading : ((Solver.new.run standardizer coder pace before).1.step standardizer coder pace
      metrics).2 symbol = some reading) :
    ∃ state, ((Solver.new.run standardizer coder pace before).1.step standardizer coder pace
        metrics).1.symbols symbol = some state ∧
      Strategy.forwardCurve reading =
        (coder.snapshot state.manifold).taskPrediction.take Strategy.featureCount ∧
      reading "supported_horizon" = some (.finite (if reported symbol false
          (before.zip (Solver.new.run standardizer coder pace before).2) then
        (coder.snapshot state.manifold).taskPrediction.length else 0 : ℕ)) ∧
      (Strategy.resonates learn reading = true →
        reported symbol false
            (before.zip (Solver.new.run standardizer coder pace before).2) = true ∧
          learn.minSupportedHorizon ≤ (coder.snapshot state.manifold).taskPrediction.length) := by
  have hnew : SettledAt symbol false (.new : Solver St M) := rfl
  -- what is published is made of the state that the step has left
  obtain ⟨state, hstate, rfl⟩ := ((hnew.run before).step metrics).published reading hreading
  generalize reported symbol false
    (before.zip (Solver.new.run standardizer coder pace before).2) = known
  refine ⟨state, hstate, forwardCurve_publish, ?_, fun hresonates => ?_⟩
  · rw [publish_horizon, supportedHorizon_eq]
  · have hgate := of_decide_eq_true hresonates
    rw [not_or, not_or, not_lt, publish_horizon, supportedHorizon_eq] at hgate
    have hhorizon : learn.minSupportedHorizon ≤
        (if known then (coder.snapshot state.manifold).taskPrediction.length else 0 : ℕ) :=
      le_of_le_truncInt hlearn hgate.2.1
    cases known with
    -- before a settled tick the horizon is zero, which no floor lets pass
    | false => exact absurd (hlearn.trans hhorizon : (1 : Int) ≤ (0 : ℕ)) (by decide)
    | true => exact ⟨rfl, hhorizon⟩

/-- A standardizer that errs on what is no number. It answers zero at its first moment, and
from then on how far a value lies from the mean of those before it. -/
def sampleStandardizer : Standardizer (List Floating) where
  fresh := []
  measure := fun moments value =>
    if value = .nan then (moments, none)
    else if moments = [] then ([value], some (.finite 0, false))
    else (moments ++ [value], some (value.sub (Floating.average moments), true))

/-- A coder that counts what it settles and predicts ones. -/
def sampleCoder : Coder ℕ where
  build := some 0
  settle := fun m _ _ => (m + 1, true)
  resetState := fun _ _ => 0
  snapshot := fun m =>
    { layers := [], surprise := .finite 2, energy := .finite m, latentState := [.finite m]
      taskSkill := some (.finite 1), taskPrecision := some (.finite 1), temporalError := none
      taskPrediction := List.replicate Strategy.featureCount (.finite 1) }

/-- A tick that reads every feature of one symbol. -/
def sampleMetrics : Metrics := ⟨[("BTC/USD", fun _ => some fun _ => some (.finite 1))], by decide⟩

/-- The second reading of a symbol has the first as its target. -/
theorem published_gated_sample :
    ∃ state, ((Solver.new.run sampleStandardizer sampleCoder (.finite (1 / 100))
        [.step sampleMetrics, .step sampleMetrics]).1.step sampleStandardizer sampleCoder
          (.finite (1 / 100)) sampleMetrics).1.symbols "BTC/USD" = some state ∧
      Strategy.forwardCurve (publish (.finite (1 / 100)) (sampleCoder.snapshot 2) true) =
        (sampleCoder.snapshot state.manifold).taskPrediction.take Strategy.featureCount :=
  (published_gated _ _ _ Cfg.defaults.learning (by decide) _ sampleMetrics "BTC/USD" _ rfl).imp
    fun _ h => ⟨h.1, h.2.1⟩

end Settled

end Symm.Logic
