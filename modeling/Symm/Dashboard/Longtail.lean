import Mathlib.Data.Finset.Card
import Symm.Dashboard.Circular
import Symm.Dashboard.DeskStats
import Symm.Dashboard.Explore
import Symm.Lib.Machine

/-!
# The trajectory of the charts (`collections/longtail.ts`)

The charts of a book go back further than the desk does. A recorder takes a sample of the
figures every five seconds and shows the last of them. While it has nothing to show it
puts a past together from the closed lots, one sample for each few of them.

- `captureSample`: the figures at one moment, with what came and went of the paths;
- `seedSamples`: the past that closed lots make;
- `Recorder`, `Event`, `step`: the window of samples over time.

What the page knows at an event is in its `World`; that a capture hands the desk's rows
to the store of the round trips is left out here. The requests that the recorder sends
to the hub are left out as well, and so is the import of a saved history, which nothing
calls.
-/

namespace Symm.Dashboard.Longtail

open Symm.Lib

/-- `CHART_SAMPLES`. -/
def chartSamples : ℕ := 240

/-- `SAMPLE_EVERY_MS`. -/
def sampleEveryMs : ℚ := 5000

/-! ## Figures -/

/-- `PathBookSnapshot`. -/
structure PathBookSnapshot where
  developed : Option ℕ
  promoted : Option ℕ
  meanResistance : Option ℚ
  added : Option ℕ
  removed : Option ℕ

/-- `emptyPaths`. -/
def emptyPaths : PathBookSnapshot := ⟨none, none, none, none, none⟩

/-- `PolicySnapshot`. -/
structure PolicySnapshot where
  checks : ℕ
  hits : ℕ
  hitRate : Option ℚ

/-- `emptyPolicy`. -/
def emptyPolicy : PolicySnapshot := ⟨0, 0, none⟩

/-- `OpenLotTelemetry`. -/
structure OpenLotTelemetry where
  «open» : Option ℕ
  invalidation : Option ℚ
  trailing : Option ℚ
  damage : Option ℚ
  armed : Option ℕ
  maxProximity : Option ℚ

/-- `emptyStops`. -/
def emptyStops : OpenLotTelemetry := ⟨none, none, none, none, none, none⟩

/-- `LongtailSample`. -/
structure LongtailSample where
  «at» : ℚ
  books : Book → BookDeskStats
  paperWin : Option ℚ
  paperEdge : Option ℚ
  realWin : Option ℚ
  realEdge : Option ℚ
  realArmed : Option ℚ
  eligibleResistance : ℚ
  paths : PathBookSnapshot
  policy : PolicySnapshot
  exits : Book → ExitMix
  stops : Book → OpenLotTelemetry

/-- `rowArmed` in `summarizeStops`. -/
def rowArmed (stop : DynamicStoploss) : Bool :=
  stop.state = some .critical || stop.state = some .dangerous || stop.state = some .triggered ||
    7 / 10 ≤ stop.proximity || 7 / 10 ≤ stop.downsidePressure

/-- `summarizeStops`. -/
def summarizeStops (host : Host) (rows : List Row) (book : Book) : OpenLotTelemetry :=
  let held := openOnBook host rows book
  let stops := held.filterMap fun row => normalizeStoploss (row.get "stoploss")
  let maxProximity := stops.foldl (fun top stop => max top stop.proximity) 0
  { «open» := if held.length > 0 then some held.length else none
    invalidation := mean ((stops.map DynamicStoploss.downsidePressure).filter (0 < ·))
    trailing := mean ((stops.filter fun stop => stop.hasFloor && 0 < stop.proximity).map
      DynamicStoploss.proximity)
    damage := mean ((stops.map DynamicStoploss.downsideMagnitudeRatio).filter (0 < ·))
    armed := if stops.length > 0 then some (stops.filter rowArmed).length else none
    maxProximity := if stops.length > 0 ∧ 0 < maxProximity then some maxProximity else none }

/-- A path that is listed without a resistance, or with one that is not pruned. -/
def isDeveloped (thresholds : Objects ℚ) (key : String) : Bool :=
  match thresholds.lookup key with
  | none => true
  | some resistance => resistance ≤ explorePruneThreshold

/-- `summarizePathBook`. -/
def summarizePathBook (thresholds : Objects ℚ) (policyKeys : List String) (eligible : ℚ)
    (priorKeys : Option (Finset String)) : PathBookSnapshot :=
  let keys := policyKeys.filter isPathBookKey
  if keys.length = 0 ∧ thresholds.keys.length = 0 then emptyPaths
  else
    let active := if keys.length > 0 then keys else thresholds.keys.filter isPathBookKey
    let developed := (active.filter (isDeveloped thresholds)).length
    let resistances := (active.filter (isDeveloped thresholds)).filterMap thresholds.lookup
    let promoted := (resistances.filter (· ≤ eligible)).length
    let current := active.toFinset
    { developed := if developed > 0 then some developed else none
      promoted := if developed > 0 then some promoted else none
      meanResistance := mean resistances
      added := priorKeys.map fun prior => (current \ prior).card
      removed := priorKeys.map fun prior => (prior \ current).card }

/-- `summarizePolicy`, of the `stored` members of the matches. -/
def summarizePolicy (matched : List Bool) : PolicySnapshot :=
  if matched.length = 0 then emptyPolicy
  else
    let hits := (matched.filter id).length
    ⟨matched.length, hits, some (hits / matched.length)⟩

/-! ## What the page knows -/

/-- `BookConfidence`, as far as samples read it. -/
structure BookConfidence where
  armed : Bool
  closed : ℚ
  winRate : Option ℚ
  edge : Option ℚ

/-- `ConfidenceFrame`. -/
structure ConfidenceFrame where
  books : Book → BookConfidence
  eligibleResistance : ℚ
  realCeiling : Bool

/-- What the page knows when a sample is taken. -/
structure World where
  /-- `Date.now()`. -/
  now : ℚ
  store : Store
  positions : List Row
  cognition : Cognition
  /-- Whether each match of the cognition store is stored. -/
  matched : List Bool
  confidence : ConfidenceFrame

variable (host : Host) (localeCompare : String → String → ℤ)

/-- The rows of the desk. -/
def World.desk (w : World) : List Row := deskRowsForStats host localeCompare w.store w.positions

/-- `activeKeys` of `captureSample`. -/
def activeKeys (cognition : Cognition) : List String :=
  if cognition.policyKeys.length > 0 then cognition.policyKeys.filter isPathBookKey
  else cognition.thresholds.keys.filter isPathBookKey

/-- A figure of a frame, where the book has closed lots. -/
def BookConfidence.figure (book : BookConfidence) (value : Option ℚ) : Option ℚ :=
  if 0 < book.closed then value else none

/-- `captureSample`, but for the keys that it remembers. -/
def captureSample (w : World) (priorPathKeys : Option (Finset String)) : LongtailSample :=
  let desk := w.desk host localeCompare
  let paper := w.confidence.books .paper
  let real := w.confidence.books .real
  { «at» := w.now
    books := summarizeBook host desk
    paperWin := paper.figure paper.winRate
    paperEdge := paper.figure paper.edge
    realWin := real.figure real.winRate
    realEdge := real.figure real.edge
    realArmed := if w.confidence.realCeiling then some (if real.armed then 1 else 0) else none
    eligibleResistance := w.confidence.eligibleResistance
    paths := summarizePathBook w.cognition.thresholds w.cognition.policyKeys
      w.confidence.eligibleResistance priorPathKeys
    policy := summarizePolicy w.matched
    exits := summarizeExits host desk
    stops := summarizeStops host desk }

/-! ## The past -/

/-- A closed lot and when it was closed, as far as that is known. -/
def dated (w : World) : List (Row × ℚ) :=
  let rows := (w.desk host localeCompare).filter fun row => (positionReadout host row).closed
  let dated := rows.map fun row =>
    (row, (((positionReadout host row).closedAt.filter (· ≠ "")).map host.parse).getD 0)
  dated.mergeSort fun a b => a.2 ≤ b.2

/-- `step`: how many lots a sample of the past stands for. -/
def stride (lots : ℕ) : ℕ := max 1 ((lots + (chartSamples - 1)) / chartSamples)

/-- The lots after which the past has a sample. -/
def picked (lots : ℕ) : List ℕ :=
  (List.range lots).filter fun i => (i + 1) % stride lots = 0 ∨ i = lots - 1

/-- The sample of the past after the lot of number `i`. -/
def seedSample (w : World) (lots : List (Row × ℚ)) (i : ℕ) : LongtailSample :=
  let closed := (lots.map Prod.snd).getD i 0
  let cumulative := (lots.take (i + 1)).map Prod.fst
  { «at» := if closed ≠ 0 then closed else w.now - (lots.length - 1 - i : ℕ) * sampleEveryMs
    books := summarizeBook host cumulative
    paperWin := none
    paperEdge := none
    realWin := none
    realEdge := none
    realArmed := none
    eligibleResistance := w.confidence.eligibleResistance
    paths := emptyPaths
    policy := emptyPolicy
    exits := summarizeExits host cumulative
    stops := fun _ => emptyStops }

/-- The samples that `seedFromClosedLots` installs. -/
def seedSamples (w : World) : List LongtailSample :=
  let lots := dated host localeCompare w
  (picked lots.length).map (seedSample host w lots)

/-- `windowIsWarmupOnly`. -/
def windowIsWarmupOnly (samples : List LongtailSample) : Bool :=
  samples.length = 0 ||
    (samples.length ≤ 2 && samples.all fun sample =>
      (sample.books .paper).closed = 0 && (sample.books .virtual).closed = 0 &&
        (sample.books .real).closed = 0 && sample.paths.developed.isNone)

/-! ## The recorder -/

/-- The variables of the module and the store of the charts. -/
structure Recorder where
  chartWindow : Circular LongtailSample chartSamples
  priorPathKeys : Option (Finset String)
  /-- `recorderHandle`. -/
  running : Bool
  samples : List LongtailSample
  lastSampleAt : ℚ
  /-- Every sample taken since the last reset, which only the results read. -/
  recorded : List LongtailSample

def Recorder.new : Recorder where
  chartWindow := .empty chartSamples
  priorPathKeys := none
  running := false
  samples := []
  lastSampleAt := 0
  recorded := []

namespace Recorder

/-- `publishWindow`. -/
def publishWindow (r : Recorder) (lastSampleAt : Option ℚ) : Recorder :=
  let samples := r.chartWindow.values
  let last := (samples.getLast?.map LongtailSample.at).getD 0
  { r with samples := samples, lastSampleAt := lastSampleAt.getD last }

/-- `installWindow`. -/
def installWindow (r : Recorder) (rows : List LongtailSample) : Recorder :=
  { r with chartWindow := rows.foldl Circular.push (.empty chartSamples) }.publishWindow none

/-- `pushSample`. -/
def pushSample (r : Recorder) (sample : LongtailSample) : Recorder :=
  { r with chartWindow := r.chartWindow.push sample }.publishWindow (some sample.at)

/-- `recordLongtailSample`. -/
def recordLongtailSample (r : Recorder) (w : World) : Recorder :=
  let sample := captureSample host localeCompare w r.priorPathKeys
  { r with
    priorPathKeys := some (activeKeys w.cognition).toFinset
    recorded := r.recorded ++ [sample] }.pushSample sample

/-- `maybeRecordLongtailSample`. -/
def maybeRecordLongtailSample (r : Recorder) (w : World) : Recorder :=
  if r.samples.length > 0 ∧ w.now - r.lastSampleAt < sampleEveryMs then r
  else r.recordLongtailSample host localeCompare w

/-- `seedFromClosedLots`. -/
def seedFromClosedLots (r : Recorder) (w : World) : Recorder :=
  if ¬ windowIsWarmupOnly r.chartWindow.values then r
  else if (dated host localeCompare w).length < 2 then r
  else if (seedSamples host localeCompare w).length < 2 then r
  else r.installWindow (seedSamples host localeCompare w)

/-- `ensureLongtailRecorder`. -/
def ensureLongtailRecorder (r : Recorder) (w : World) : Recorder :=
  if r.running then r
  else
    { (r.seedFromClosedLots host localeCompare w).recordLongtailSample host localeCompare w with
      running := true }

/-- The interval of the recorder. -/
def tick (r : Recorder) (w : World) : Recorder :=
  if r.running then
    (r.seedFromClosedLots host localeCompare w).maybeRecordLongtailSample host localeCompare w
  else r

end Recorder

/-- What happens next: the recorder is started, its interval is over, closed lots have
arrived, or it is reset. -/
inductive Event
  | start (w : World)
  | tick (w : World)
  | closed (w : World)
  | reset

def step (r : Recorder) : Event → Recorder
  | .start w => r.ensureLongtailRecorder host localeCompare w
  | .tick w => r.tick host localeCompare w
  | .closed w => r.seedFromClosedLots host localeCompare w
  | .reset => .new

end Symm.Dashboard.Longtail
