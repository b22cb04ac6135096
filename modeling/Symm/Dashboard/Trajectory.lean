import Mathlib.Data.List.Chain
import Symm.Dashboard.Longtail

/-!
# What the charts keep of the trajectory

Putting a past together replaces the window, and it may run at any time, so what was
recorded could be lost to it. It looks whether the window shows anything first, and a
window that does keeps doing so: each sample pushes at most the oldest one out.

The churn of the paths is counted against the keys of the sample before, whether or not
that sample is still in the window.

- `Sync`: what the store of the charts has to do with the window;
- `series_slides`: a window that shows something only slides, by samples taken at least
  the interval apart;
- `churn_adds_up`: the keys that came and went account for the keys there are.
-/

namespace Symm.Dashboard.Longtail

open Symm.Lib

variable {host : Host} {localeCompare : String → String → ℤ} {r : Recorder} {w : World}

/-! ## The store and the window -/

/-- The store has the samples of the window, and the time of the last. -/
structure Sync (r : Recorder) : Prop where
  samples : r.samples = r.chartWindow.values
  last : r.lastSampleAt = (r.samples.getLast?.map LongtailSample.at).getD 0

theorem sync_new : Sync .new := ⟨rfl, rfl⟩

theorem samples_pushSample (r : Recorder) (sample : LongtailSample) :
    (r.pushSample sample).samples = (r.chartWindow.values ++ [sample]).rtake chartSamples :=
  Circular.values_push _ _

/-- Pushing a sample publishes the window. -/
theorem sync_pushSample (r : Recorder) (sample : LongtailSample) :
    Sync (r.pushSample sample) where
  samples := rfl
  last := by
    rw [samples_pushSample, getLast?_rtake (by decide), List.getLast?_append]
    rfl

theorem sync_installWindow (r : Recorder) (rows : List LongtailSample) :
    Sync (r.installWindow rows) := ⟨rfl, rfl⟩

/-- Of the rows that are installed the last ones are shown. -/
theorem samples_installWindow (r : Recorder) (rows : List LongtailSample) :
    (r.installWindow rows).samples = rows.rtake chartSamples := by
  have hvalues := Circular.values_foldl_push (Circular.empty chartSamples) rows
  rwa [Circular.values_empty, List.nil_append] at hvalues

/-- Putting a past together leaves the recorder as it is, or gives it another window. -/
theorem seedFromClosedLots_cases (r : Recorder) (w : World) :
    r.seedFromClosedLots host localeCompare w = r ∨
      r.seedFromClosedLots host localeCompare w =
        r.installWindow (seedSamples host localeCompare w) := by
  unfold Recorder.seedFromClosedLots
  split
  · exact Or.inl rfl
  · split
    · exact Or.inl rfl
    · split
      · exact Or.inl rfl
      · exact Or.inr rfl

namespace Sync

theorem recordLongtailSample (r : Recorder) (w : World) :
    Sync (r.recordLongtailSample host localeCompare w) := sync_pushSample _ _

theorem seedFromClosedLots (hs : Sync r) (w : World) :
    Sync (r.seedFromClosedLots host localeCompare w) := by
  have hcases : r.seedFromClosedLots host localeCompare w = r ∨
      r.seedFromClosedLots host localeCompare w =
        r.installWindow (seedSamples host localeCompare w) := seedFromClosedLots_cases r w
  rcases hcases with hsame | hinstalled
  · rw [hsame]
    exact hs
  · rw [hinstalled]
    exact sync_installWindow r _

/-- Every event keeps the store in step with the window. -/
theorem step (hs : Sync r) (e : Event) : Sync (step host localeCompare r e) := by
  cases e with
  | start w =>
    show Sync (r.ensureLongtailRecorder host localeCompare w)
    unfold Recorder.ensureLongtailRecorder
    split
    · exact hs
    · have htaken : Sync ((r.seedFromClosedLots host localeCompare w).recordLongtailSample host
          localeCompare w) := recordLongtailSample _ w
      exact ⟨htaken.samples, htaken.last⟩
  | tick w =>
    show Sync (r.tick host localeCompare w)
    unfold Recorder.tick
    split
    · unfold Recorder.maybeRecordLongtailSample
      split
      · exact hs.seedFromClosedLots w
      · exact recordLongtailSample _ w
    · exact hs
  | closed w => exact hs.seedFromClosedLots w
  | reset => exact sync_new

/-- The charts never show more samples than the window has places. -/
theorem length_le (hs : Sync r) : r.samples.length ≤ chartSamples := by
  rw [hs.samples]
  exact r.chartWindow.length_values_le

end Sync

theorem sync_run (events : List Event) :
    Sync (runFrom (step host localeCompare) .new events) :=
  always_runFrom (fun _ e hs => hs.step e) sync_new events

/-! ## A window that shows something -/

/-- The sample shows a closed lot or a path. -/
def Shows (sample : LongtailSample) : Bool :=
  !((sample.books .paper).closed = 0 && (sample.books .virtual).closed = 0 &&
    (sample.books .real).closed = 0 && sample.paths.developed.isNone)

/-- The window is more than a warm-up. -/
def Live (samples : List LongtailSample) : Prop := windowIsWarmupOnly samples = false

/-- The window is no warm-up if it has more than two samples or one that shows something. -/
theorem live_iff {samples : List LongtailSample} :
    Live samples ↔ 2 < samples.length ∨ ∃ sample ∈ samples, Shows sample := by
  unfold Live windowIsWarmupOnly
  rw [Bool.or_eq_false_iff, Bool.and_eq_false_iff, List.all_eq_false, decide_eq_false_iff_not,
    decide_eq_false_iff_not, Nat.not_le]
  constructor
  · rintro ⟨-, hlong | ⟨sample, hmem, hshows⟩⟩
    · exact Or.inl hlong
    · exact Or.inr ⟨sample, hmem, (Bool.not_eq_true' _).mpr (eq_false_of_ne_true hshows)⟩
  · rintro (hlong | ⟨sample, hmem, hshows⟩)
    · exact ⟨by omega, Or.inl hlong⟩
    · refine ⟨?_, Or.inr ⟨sample, hmem, ne_true_of_eq_false ((Bool.not_eq_true' _).mp hshows)⟩⟩
      exact Nat.ne_of_gt (List.length_pos_of_mem hmem)

/-- A window that shows something still does after a push. -/
theorem Live.push {samples : List LongtailSample} (h : Live samples) (sample : LongtailSample) :
    Live ((samples ++ [sample]).rtake chartSamples) := by
  rcases Nat.lt_or_ge samples.length chartSamples with hlt | hge
  · -- nothing is pushed out
    rw [rtake_of_length_le (by rw [List.length_append]; exact hlt)]
    rcases live_iff.mp h with hlong | ⟨x, hx, hshows⟩
    · refine live_iff.mpr (Or.inl ?_)
      rw [List.length_append]
      omega
    · exact live_iff.mpr (Or.inr ⟨x, List.mem_append_left _ hx, hshows⟩)
  · -- a full window stays full, and is too long for a warm-up
    refine live_iff.mpr (Or.inl ?_)
    rw [length_rtake, List.length_append]
    have : chartSamples = 240 := rfl
    omega

/-- A window that is no warm-up is not replaced. -/
theorem seedFromClosedLots_of_live (hs : Sync r) (hlive : Live r.samples) (w : World) :
    r.seedFromClosedLots host localeCompare w = r := by
  have hwarm : windowIsWarmupOnly r.chartWindow.values = false := by
    rw [← hs.samples]
    exact hlive
  unfold Recorder.seedFromClosedLots
  rw [hwarm]
  rfl

/-- What an event does to a recorder whose window shows something: nothing, or it takes a
sample, and not before the interval is over. -/
theorem step_cases (hs : Sync r) (hrun : r.running = true) (hlive : Live r.samples) {e : Event}
    (he : e ≠ .reset) :
    step host localeCompare r e = r ∨ ∃ w,
      step host localeCompare r e = r.recordLongtailSample host localeCompare w ∧
        sampleEveryMs ≤ w.now - r.lastSampleAt := by
  cases e with
  | start w =>
    refine Or.inl ?_
    show r.ensureLongtailRecorder host localeCompare w = r
    rw [Recorder.ensureLongtailRecorder, if_pos hrun]
  | tick w =>
    -- a window that shows something is not replaced by a past
    have htick : step host localeCompare r (.tick w) =
        r.maybeRecordLongtailSample host localeCompare w := by
      show r.tick host localeCompare w = _
      rw [Recorder.tick, if_pos hrun, seedFromClosedLots_of_live hs hlive]
    have hpos : r.samples.length > 0 := by
      rcases live_iff.mp hlive with hlong | ⟨x, hx, -⟩
      · omega
      · exact List.length_pos_of_mem hx
    rw [htick, Recorder.maybeRecordLongtailSample]
    -- a sample that comes too soon is not taken
    rcases lt_or_ge (w.now - r.lastSampleAt) sampleEveryMs with hsoon | hlate
    · rw [if_pos ⟨hpos, hsoon⟩]
      exact Or.inl rfl
    · rw [if_neg fun h => absurd h.2 (not_lt_of_ge hlate)]
      exact Or.inr ⟨w, rfl, hlate⟩
  | closed w => exact Or.inl (seedFromClosedLots_of_live hs hlive w)
  | reset => exact absurd rfl he

/-- Two samples are at least the interval apart. -/
def Apart (a b : LongtailSample) : Prop := sampleEveryMs ≤ b.at - a.at

/-- What a run adds to a window that shows something. -/
theorem slides (hs : Sync r) (hrun : r.running = true) (hlive : Live r.samples)
    {events : List Event} (hevents : ∀ e ∈ events, e ≠ .reset) :
    ∃ taken, (runFrom (step host localeCompare) r events).recorded = r.recorded ++ taken ∧
      (runFrom (step host localeCompare) r events).samples =
        (r.samples ++ taken).rtake chartSamples ∧
      ∀ last, r.samples.getLast? = some last → List.IsChain Apart (last :: taken) := by
  induction events generalizing r with
  | nil =>
    refine ⟨[], (List.append_nil _).symm, ?_, fun last _ => List.isChain_singleton last⟩
    rw [List.append_nil, rtake_of_length_le hs.length_le]
    rfl
  | cons e events ih =>
    have hrest : ∀ e ∈ events, e ≠ .reset := fun e he => hevents e (List.mem_cons_of_mem _ he)
    rw [runFrom, List.foldl_cons]
    have hcases : step host localeCompare r e = r ∨ ∃ w,
        step host localeCompare r e = r.recordLongtailSample host localeCompare w ∧
          sampleEveryMs ≤ w.now - r.lastSampleAt :=
      step_cases hs hrun hlive (hevents e List.mem_cons_self)
    rcases hcases with hsame | ⟨w, hrecord, hlate⟩
    · rw [hsame]
      exact ih hs hrun hlive hrest
    · have hsamples : (r.recordLongtailSample host localeCompare w).samples =
          (r.samples ++ [captureSample host localeCompare w r.priorPathKeys]).rtake
            chartSamples := by
        rw [hs.samples]
        exact samples_pushSample _ _
      rw [hrecord]
      obtain ⟨taken, htaken, hend, hchain⟩ := ih (Sync.recordLongtailSample r w) hrun
        (by rw [hsamples]; exact hlive.push _) hrest
      refine ⟨captureSample host localeCompare w r.priorPathKeys :: taken, ?_, ?_, ?_⟩
      · rw [List.append_cons]
        exact htaken
      · rw [List.append_cons, ← rtake_rtake_append, ← hsamples]
        exact hend
      · -- the time of the last sample is the one that the interval is counted from
        intro last hlast
        refine List.IsChain.cons_cons ?_ (hchain _ ?_)
        · have hlastAt : r.lastSampleAt = last.at := by
            rw [hs.last, hlast]
            rfl
          rw [hlastAt] at hlate
          exact hlate
        · rw [hsamples, getLast?_rtake (by decide), List.getLast?_append]
          rfl

/-- Once the window of a running recorder shows something, every run slides it: until a
reset the charts show the last samples of what they showed and what was taken since, and
these were taken at least the interval apart. -/
theorem series_slides {before events : List Event}
    (hrun : (runFrom (step host localeCompare) .new before).running = true)
    (hlive : Live (runFrom (step host localeCompare) .new before).samples)
    (hevents : ∀ e ∈ events, e ≠ .reset) :
    let shown := runFrom (step host localeCompare) .new before
    let later := runFrom (step host localeCompare) .new (before ++ events)
    ∃ taken, later.recorded = shown.recorded ++ taken ∧
      later.samples = (shown.samples ++ taken).rtake chartSamples ∧
      ∀ last, shown.samples.getLast? = some last → List.IsChain Apart (last :: taken) := by
  intro shown later
  have hlater : later = runFrom (step host localeCompare) shown events := runFrom_append _ _ _ _
  rw [hlater]
  exact slides (sync_run before) hrun hlive hevents

/-- A page that knows two paths and no lot. -/
def World.quiet (now : ℚ) : World where
  now := now
  store := .empty
  positions := []
  cognition := ⟨"0", ["model/paths/a", "model/paths/b"], ∅⟩
  matched := []
  confidence := ⟨fun _ => ⟨false, 0, none, none⟩, 1 / 5, false⟩

/-- The first sample shows two paths; of two ticks a second apart one takes a sample. -/
theorem series_slides_quiet :
    let shown := runFrom (step Host.plain fun _ _ => 0) .new [.start (.quiet 0)]
    let later := runFrom (step Host.plain fun _ _ => 0) .new
      ([.start (.quiet 0)] ++ [.tick (.quiet 6000), .closed (.quiet 6500), .tick (.quiet 7000)])
    ∃ taken, later.recorded = shown.recorded ++ taken ∧
      later.samples = (shown.samples ++ taken).rtake chartSamples ∧
      ∀ last, shown.samples.getLast? = some last → List.IsChain Apart (last :: taken) :=
  series_slides (by decide +kernel) (by unfold Live; decide +kernel) (by simp)

/-! ## The churn -/

/-- The keys that a sample counts are the ones that the recorder remembers. -/
def Counted (cognition : Cognition) : Prop :=
  (cognition.policyKeys.filter isPathBookKey).length > 0 ∨
    cognition.policyKeys.length = 0 ∧ cognition.thresholds.keys.length > 0

/-- The event is no reset, and where it takes a sample the keys are counted. -/
def Event.Counted (host : Host) (localeCompare : String → String → ℤ) (r : Recorder) :
    Event → Prop
  | .start w => (r.ensureLongtailRecorder host localeCompare w).recorded ≠ r.recorded →
      Longtail.Counted w.cognition
  | .tick w => (r.tick host localeCompare w).recorded ≠ r.recorded →
      Longtail.Counted w.cognition
  | .closed _ => True
  | .reset => False

/-- The churn of a sample is between the keys before and the keys that are remembered. -/
theorem churn_summarizePathBook {cognition : Cognition} (h : Counted cognition) (eligible : ℚ)
    (prior : Option (Finset String)) :
    (summarizePathBook cognition.thresholds cognition.policyKeys eligible prior).added =
        prior.map (fun keys => ((activeKeys cognition).toFinset \ keys).card) ∧
      (summarizePathBook cognition.thresholds cognition.policyKeys eligible prior).removed =
        prior.map fun keys => (keys \ (activeKeys cognition).toFinset).card := by
  have hlisted : ¬((cognition.policyKeys.filter isPathBookKey).length = 0 ∧
      cognition.thresholds.keys.length = 0) := by
    rcases h with hkeys | ⟨-, hthresholds⟩
    · omega
    · omega
  have hactive : (if (cognition.policyKeys.filter isPathBookKey).length > 0 then
      cognition.policyKeys.filter isPathBookKey
      else cognition.thresholds.keys.filter isPathBookKey) = activeKeys cognition := by
    have hle := List.length_filter_le isPathBookKey cognition.policyKeys
    unfold activeKeys
    rcases h with hkeys | ⟨hnone, -⟩
    · rw [if_pos hkeys, if_pos (by omega)]
    · rw [if_neg (by omega), if_neg (by omega)]
  unfold summarizePathBook
  dsimp only
  rw [if_neg hlisted, hactive]
  exact ⟨rfl, rfl⟩

/-- No sample is taken, or one whose churn is between the keys remembered before and after
it. -/
def Churned (keys : Finset String) (r r' : Recorder) : Prop :=
  r'.recorded = r.recorded ∧ r'.priorPathKeys = some keys ∨
    ∃ sample later, r'.recorded = r.recorded ++ [sample] ∧ r'.priorPathKeys = some later ∧
      sample.paths.added = some (later \ keys).card ∧
      sample.paths.removed = some (keys \ later).card

/-- Another window is no sample, and the keys that are remembered stay. -/
theorem seedFromClosedLots_keeps (r : Recorder) (w : World) :
    (r.seedFromClosedLots host localeCompare w).recorded = r.recorded ∧
      (r.seedFromClosedLots host localeCompare w).priorPathKeys = r.priorPathKeys := by
  have hcases : r.seedFromClosedLots host localeCompare w = r ∨
      r.seedFromClosedLots host localeCompare w =
        r.installWindow (seedSamples host localeCompare w) := seedFromClosedLots_cases r w
  rcases hcases with hsame | hinstalled
  · rw [hsame]
    exact ⟨rfl, rfl⟩
  · rw [hinstalled]
    exact ⟨rfl, rfl⟩

/-- Putting a past together counts no churn. -/
theorem churned_seedFromClosedLots {keys : Finset String} (hkeys : r.priorPathKeys = some keys)
    (w : World) : Churned keys r (r.seedFromClosedLots host localeCompare w) := by
  obtain ⟨hrecorded, hprior⟩ := seedFromClosedLots_keeps r w
  exact Or.inl ⟨hrecorded, hprior.trans hkeys⟩

/-- A sample whose keys are counted has the churn since the keys before it. -/
theorem churned_recordLongtailSample (hw : Counted w.cognition) {keys : Finset String}
    (hkeys : r.priorPathKeys = some keys) :
    Churned keys r (r.recordLongtailSample host localeCompare w) := by
  obtain ⟨hadded, hremoved⟩ :=
    churn_summarizePathBook hw w.confidence.eligibleResistance r.priorPathKeys
  refine Or.inr ⟨captureSample host localeCompare w r.priorPathKeys,
    (activeKeys w.cognition).toFinset, rfl, rfl, ?_, ?_⟩
  · rw [hkeys] at hadded ⊢
    exact hadded
  · rw [hkeys] at hremoved ⊢
    exact hremoved

/-- A sample is one more. -/
theorem recorded_recordLongtailSample (r : Recorder) (w : World) :
    ((r.seedFromClosedLots host localeCompare w).recordLongtailSample host
      localeCompare w).recorded ≠ r.recorded := by
  have hrecorded : (r.seedFromClosedLots host localeCompare w).recorded = r.recorded :=
    (seedFromClosedLots_keeps r w).1
  show (r.seedFromClosedLots host localeCompare w).recorded ++ [_] ≠ r.recorded
  rw [hrecorded]
  exact fun h => List.cons_ne_nil _ _ (List.append_right_eq_self.mp h)

/-- A sample, whether or not the past is put together before it, counts what came and
went against the keys that were remembered. -/
theorem churned_sample {keys : Finset String} (hkeys : r.priorPathKeys = some keys) {w : World}
    (hw : Counted w.cognition) : Churned keys r
      ((r.seedFromClosedLots host localeCompare w).recordLongtailSample host localeCompare w) := by
  obtain ⟨hrecorded, hprior⟩ : (r.seedFromClosedLots host localeCompare w).recorded = r.recorded ∧
      (r.seedFromClosedLots host localeCompare w).priorPathKeys = r.priorPathKeys :=
    seedFromClosedLots_keeps r w
  have hchurned : Churned keys (r.seedFromClosedLots host localeCompare w)
      ((r.seedFromClosedLots host localeCompare w).recordLongtailSample host localeCompare w) :=
    churned_recordLongtailSample hw (hprior.trans hkeys)
  rwa [Churned, hrecorded] at hchurned

/-- An event takes no sample, or one with the churn since the keys remembered. -/
theorem churn_step {e : Event} (he : e.Counted host localeCompare r) {keys : Finset String}
    (hkeys : r.priorPathKeys = some keys) : Churned keys r (step host localeCompare r e) := by
  cases e with
  | start w =>
    have hstep : step host localeCompare r (.start w) =
        r.ensureLongtailRecorder host localeCompare w := rfl
    rw [Event.Counted] at he
    rw [hstep]
    by_cases hrunning : r.running = true
    · rw [Recorder.ensureLongtailRecorder, if_pos hrunning]
      exact Or.inl ⟨rfl, hkeys⟩
    · rw [Recorder.ensureLongtailRecorder, if_neg hrunning] at he ⊢
      exact churned_sample hkeys (he (recorded_recordLongtailSample r w))
  | tick w =>
    have hstep : step host localeCompare r (.tick w) = r.tick host localeCompare w := rfl
    rw [Event.Counted] at he
    rw [hstep]
    by_cases hrunning : r.running = true
    · rw [Recorder.tick, if_pos hrunning, Recorder.maybeRecordLongtailSample] at he ⊢
      -- putting the past together counts nothing, whether or not a sample follows
      by_cases hearly : (r.seedFromClosedLots host localeCompare w).samples.length > 0 ∧
          w.now - (r.seedFromClosedLots host localeCompare w).lastSampleAt < sampleEveryMs
      · rw [if_pos hearly]
        exact churned_seedFromClosedLots hkeys w
      · rw [if_neg hearly] at he ⊢
        exact churned_sample hkeys (he (recorded_recordLongtailSample r w))
    · rw [Recorder.tick, if_neg hrunning]
      exact Or.inl ⟨rfl, hkeys⟩
  | closed w => exact churned_seedFromClosedLots hkeys w
  | reset => exact absurd he not_false

/-- The keys that have come in and those that have gone since any sample account for the
keys there are. -/
theorem churn_adds_up {events : List Event}
    (hevents : Along (step host localeCompare) (Event.Counted host localeCompare) r events)
    {keys : Finset String} (hkeys : r.priorPathKeys = some keys) :
    ∃ taken later,
      (runFrom (step host localeCompare) r events).recorded = r.recorded ++ taken ∧
      (runFrom (step host localeCompare) r events).priorPathKeys = some later ∧
      later.card + (taken.map fun sample => sample.paths.removed.getD 0).sum =
        keys.card + (taken.map fun sample => sample.paths.added.getD 0).sum := by
  induction events generalizing r keys with
  | nil => exact ⟨[], keys, (List.append_nil _).symm, hkeys, rfl⟩
  | cons e events ih =>
    rw [runFrom, List.foldl_cons]
    have hchurn : Churned keys r (step host localeCompare r e) :=
      churn_step hevents.1 hkeys
    rcases hchurn with ⟨hrecorded, hprior⟩ | ⟨sample, next, hrecorded, hprior, hadded, hremoved⟩
    · rw [← hrecorded]
      exact ih hevents.2 hprior
    · obtain ⟨taken, later, htaken, hlater, hsum⟩ := ih hevents.2 hprior
      refine ⟨sample :: taken, later, ?_, hlater, ?_⟩
      · rw [List.append_cons, ← hrecorded]
        exact htaken
      · -- both sides count the keys that are known before or after the sample
        have hboth : (next \ keys).card + keys.card = (keys \ next).card + next.card := by
          rw [Finset.card_sdiff_add_card, Finset.card_sdiff_add_card, Finset.union_comm]
        rw [List.map_cons, List.map_cons, List.sum_cons, List.sum_cons, hadded, hremoved]
        simp only [Option.getD_some]
        omega

/-- A page that knows these paths. -/
def World.listing (now : ℚ) (policyKeys : List String) : World :=
  { World.quiet now with cognition := ⟨"0", policyKeys, ∅⟩ }

/-- The page shows `b` and `c`, then nothing for less than the interval, then `b` alone. -/
def sampleChurn : List Event :=
  [.tick (.listing 6000 ["model/paths/b", "model/paths/c"]), .tick (.listing 7000 []),
    .tick (.listing 12000 ["model/paths/b"])]

/-- Of two paths that were known one path came in, two went, and one is left. The tick that
takes no sample may show nothing. -/
theorem churn_adds_up_quiet :
    let shown := runFrom (step Host.plain fun _ _ => 0) .new [.start (.quiet 0)]
    let last := runFrom (step Host.plain fun _ _ => 0) shown sampleChurn
    ∃ taken later, last.recorded = shown.recorded ++ taken ∧ last.priorPathKeys = some later ∧
      later.card + (taken.map fun sample => sample.paths.removed.getD 0).sum =
        ({"model/paths/a", "model/paths/b"} : Finset String).card +
          (taken.map fun sample => sample.paths.added.getD 0).sum := by
  intro shown last
  have hevents : Along (step Host.plain fun _ _ => 0) (Event.Counted Host.plain fun _ _ => 0)
      shown sampleChurn := by
    refine ⟨fun _ => Or.inl ?_, fun h => absurd ?_ h, fun _ => Or.inl ?_, trivial⟩
    · decide +kernel
    · rw [Recorder.tick, if_pos (by decide +kernel), Recorder.maybeRecordLongtailSample,
        if_pos (by decide +kernel)]
      exact (seedFromClosedLots_keeps _ _).1
    · decide +kernel
  have hkeys : shown.priorPathKeys = some {"model/paths/a", "model/paths/b"} := by
    decide +kernel
  exact churn_adds_up hevents hkeys

end Symm.Dashboard.Longtail
