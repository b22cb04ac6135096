import Symm.Tokenizer.Restart

/-!
# A repeated symbol

A symbol that comes in twice in a row is fed once: the second call finds it in
`lastEmitted` and only shows the cut again. But a break the first call left
pending is carried out before that test, and then the root is dropped.

- `Cuts`: the segmenter cuts at the tail that a new symbol makes;
- `Refreshed`: the second call only changes the brightness of the last token;
- `repeat_refreshes_iff`: it does so exactly when the first call does not cut.

The second of two steps with the same symbol goes through the pending break first. If
there is one it empties the root and feeds the symbol again; if not, it finds the symbol
in `lastEmitted` and shows the cut at the new brightness. So `refreshed_iff` says of any
sequencer whose last symbol was this one that it refreshes exactly if no break is
pending, and `step_spec` gives both facts after the first step.

The condition of `repeat_refreshes_iff` is about the state before the first call: `Cuts`
computes the tail that the grammar will show, and asks the segmenter for a boundary in
it.
-/

namespace Symm.Tokenizer

universe u

/-- The tokens with another brightness at the end. -/
def Tokens.relit (tokens : Tokens) (brightness : ℚ) : Tokens :=
  tokens.zipIdx.map fun token =>
    if token.2 = tokens.length - 1 then { token.1 with brightness := brightness } else token.1

namespace Sequencer

variable {K : Type u} [Field K] [LinearOrder K] (log : K → K)

/-- The symbol is new, and the segmenter cuts at the tail the grammar shows for
it. -/
def Cuts (seq : Sequencer K) (symbol : String) : Prop :=
  symbol ≠ seq.lastEmitted ∧ ∃ r tail rest, seq.breakSentence.grammar.analyze [symbol] = some r ∧
    r.1.tail 1 = tail :: rest ∧ (seq.mdl.analyze log tail).2.1 = true

/-- From one answer to the next, only the last token is lit anew: the root, the
rules and the segmenter are as they were. -/
structure Refreshed (first second : Sequencer K × Tokens) (brightness : ℚ) : Prop where
  tokens : second.2 = first.2.relit brightness
  rootSequence : second.1.grammar.rootSequence = first.1.grammar.rootSequence
  tail : ∀ n, second.1.grammar.tail n = first.1.grammar.tail n
  rules : second.1.grammar.rules = first.1.grammar.rules
  mdl : second.1.mdl = first.1.mdl

omit [Field K] [LinearOrder K] in
@[simp] theorem lastEmitted_breakSentence (seq : Sequencer K) :
    seq.breakSentence.lastEmitted = seq.lastEmitted := by
  unfold breakSentence
  split <;> rfl

omit [Field K] [LinearOrder K] in
@[simp] theorem mdl_breakSentence (seq : Sequencer K) : seq.breakSentence.mdl = seq.mdl := by
  unfold breakSentence
  split <;> rfl

omit [Field K] [LinearOrder K] in
@[simp] theorem sentenceBreak_breakSentence (seq : Sequencer K) :
    seq.breakSentence.sentenceBreak = false := by
  unfold breakSentence
  split
  · rfl
  · next h => exact Bool.eq_false_of_not_eq_true h

omit [Field K] [LinearOrder K] in
/-- Lighting the last symbol of a cut anew is the cut at the new brightness. -/
theorem relit_cut (seq : Sequencer K) (maxPathLength : ℤ) (a b : ℚ) :
    Tokens.relit (seq.cut maxPathLength a) b = seq.cut maxPathLength b := by
  rw [cut_eq, cut_eq]
  generalize seq.grammar.tail maxPathLength = segments
  refine List.ext_getElem (by simp [Tokens.relit, lit]) fun i h h' => ?_
  simp only [Tokens.relit, lit, List.getElem_map, List.getElem_zipIdx, List.length_map,
    List.length_zipIdx, Nat.zero_add]
  split <;> rfl

/-- A step with a symbol: the pending break first, then the symbol if it is new. -/
theorem step_eq (seq : Sequencer K) {symbol : String} (hne : symbol ≠ "") (maxPathLength : ℤ)
    (brightness : ℚ) :
    seq.step log maxPathLength symbol brightness =
      if symbol = seq.lastEmitted then
        some (seq.breakSentence, seq.breakSentence.cut maxPathLength brightness)
      else (seq.breakSentence.feed log symbol).map fun seq =>
        ({ seq with lastEmitted := symbol }, seq.cut maxPathLength brightness) := by
  have hparts : [symbol].filter (· ≠ "") = [symbol] := by
    simpa using hne
  unfold step stepPath
  dsimp only
  rw [hparts, if_neg (List.cons_ne_nil _ _), lastEmitted_breakSentence, List.foldlM_cons]
  cases seq.breakSentence.feed log symbol with
  | none => rfl
  | some fed => rfl

/-- After a symbol is fed, a break is pending if and only if the segmenter cut. -/
theorem feed_cuts {seq fed : Sequencer K} {symbol : String} (hnew : symbol ≠ seq.lastEmitted)
    (h : seq.breakSentence.feed log symbol = some fed) :
    (fed.sentenceBreak = true ↔ seq.Cuts log symbol) ∧
      (fed.sentenceBreak = true → fed.grammar.tail 1 ≠ []) := by
  obtain ⟨r, hr, rfl⟩ := Option.map_eq_some_iff.mp h
  dsimp only
  cases htail : r.1.tail 1 with
  | nil =>
    dsimp only
    rw [sentenceBreak_breakSentence]
    refine ⟨iff_of_false Bool.false_ne_true ?_, fun hbreak => absurd hbreak Bool.false_ne_true⟩
    rintro ⟨-, r', tail, rest, hr', htail', -⟩
    obtain rfl := Option.some.inj (hr.symm.trans hr')
    rw [htail] at htail'
    cases htail'
  | cons tail rest =>
    dsimp only
    rw [sentenceBreak_breakSentence, mdl_breakSentence, Bool.false_or]
    refine ⟨⟨fun hcut => ⟨hnew, r, tail, rest, hr, htail, hcut⟩, ?_⟩, fun _ => ?_⟩
    · rintro ⟨-, r', tail', rest', hr', htail', hcut⟩
      obtain rfl := Option.some.inj (hr.symm.trans hr')
      rw [htail] at htail'
      rwa [(List.cons.inj htail').1]
    · rw [htail]
      exact List.cons_ne_nil tail rest

/-- What the first of two steps leaves: the symbol as the last one emitted, the
cut that was returned, and a pending break exactly if the segmenter cut. -/
theorem step_spec {seq : Sequencer K} {symbol : String} (hne : symbol ≠ "") {maxPathLength : ℤ}
    {brightness : ℚ} {r : Sequencer K × Tokens}
    (h : seq.step log maxPathLength symbol brightness = some r) :
    r.1.lastEmitted = symbol ∧ r.2 = r.1.cut maxPathLength brightness ∧
      (r.1.sentenceBreak = true ↔ seq.Cuts log symbol) ∧
      (r.1.sentenceBreak = true → r.1.grammar.tail 1 ≠ []) := by
  rw [step_eq log seq hne] at h
  by_cases hkey : symbol = seq.lastEmitted
  · rw [if_pos hkey] at h
    obtain rfl := Option.some.inj h
    have hstill := sentenceBreak_breakSentence seq
    refine ⟨(lastEmitted_breakSentence seq).trans hkey.symm, rfl, ?_, fun hbreak => ?_⟩
    · rw [hstill]
      exact iff_of_false Bool.false_ne_true fun hcuts => hcuts.1 hkey
    · rw [hstill] at hbreak
      cases hbreak
  · rw [if_neg hkey] at h
    obtain ⟨fed, hfed, rfl⟩ := Option.map_eq_some_iff.mp h
    obtain ⟨hcuts, htail⟩ := feed_cuts log hkey hfed
    exact ⟨rfl, rfl, hcuts, htail⟩

omit [Field K] [LinearOrder K] in
/-- The second of two steps only refreshes the brightness if and only if no break
is pending before it. -/
theorem refreshed_iff {first : Sequencer K × Tokens} {maxPathLength : ℤ} {a : ℚ}
    (htokens : first.2 = first.1.cut maxPathLength a)
    (htail : first.1.sentenceBreak = true → first.1.grammar.tail 1 ≠ []) (b : ℚ) :
    Refreshed first (first.1.breakSentence, first.1.breakSentence.cut maxPathLength b) b ↔
      first.1.sentenceBreak = false := by
  cases hbreak : first.1.sentenceBreak with
  | false =>
    rw [breakSentence_of_not hbreak]
    refine iff_of_true ⟨?_, rfl, fun _ => rfl, rfl, rfl⟩ rfl
    rw [htokens, relit_cut]
  | true =>
    refine iff_of_false (fun hrefreshed => htail hbreak ?_) Bool.true_eq_false.mp
    -- the dropped root shows nothing
    rw [← hrefreshed.tail 1, breakSentence, if_pos hbreak]
    exact if_pos (Or.inr rfl)

/-- A repeated symbol: the second call returns, and it only refreshes the
brightness if and only if the first one did not cut. -/
theorem repeat_refreshes_iff (seq : Sequencer K) {symbol : String} (hne : symbol ≠ "")
    (maxPathLength : ℤ) (a b : ℚ) {first : Sequencer K × Tokens}
    (hfirst : seq.step log maxPathLength symbol a = some first) :
    ∃ second, first.1.step log maxPathLength symbol b = some second ∧
      (Refreshed first second b ↔ ¬ seq.Cuts log symbol) := by
  obtain ⟨hlast, htokens, hcuts, htail⟩ := step_spec log hne hfirst
  refine ⟨_, (step_eq log first.1 hne maxPathLength b).trans (if_pos hlast.symm), ?_⟩
  rw [refreshed_iff htokens htail b, ← hcuts, Bool.not_eq_true]

/-- One region twice: the second call shows it again. -/
theorem repeat_refreshes_sample : ∃ first second,
    (new : Sequencer ℝ).step Real.log 8 "R00" 1 = some first ∧
    first.1.step Real.log 8 "R00" (1 / 2) = some second ∧ Refreshed first second (1 / 2) := by
  obtain ⟨first, hfirst⟩ : ∃ first, (new : Sequencer ℝ).step Real.log 8 "R00" 1 = some first :=
    Option.isSome_iff_exists.mp (by decide +kernel)
  obtain ⟨second, hsecond, hiff⟩ :=
    repeat_refreshes_iff Real.log new (by decide) 8 1 (1 / 2) hfirst
  have hbreak : ((new : Sequencer ℝ).step Real.log 8 "R00" 1).map (·.1.sentenceBreak) =
      some false := by
    decide +kernel
  rw [hfirst, Option.map_some, Option.some.injEq] at hbreak
  refine ⟨first, second, hfirst, hsecond, hiff.mpr fun hcuts => ?_⟩
  rw [(step_spec Real.log (by decide) hfirst).2.2.1.mpr hcuts] at hbreak
  cases hbreak

def threeRegions : List Call := [.step 8 "R00" 1, .step 8 "R01" 1, .step 8 "R02" 1]

/-- The segmenter cuts at the region that comes next. -/
theorem cuts_threeRegions : ∃ live, (new : Sequencer ℝ).run Real.log threeRegions = some live ∧
    live.1.Cuts Real.log "R03" := by
  obtain ⟨live, hlive⟩ : ∃ live, (new : Sequencer ℝ).run Real.log threeRegions = some live :=
    Option.isSome_iff_exists.mp (by decide +kernel)
  -- what the segmenter has read after the regions
  have hread : ((new : Sequencer ℝ).run Real.log threeRegions).map (fun r =>
      ((r.1.mdl.read "R03").segment, (r.1.mdl.read "R03").minSegmentSymbols, r.1.lastEmitted)) =
      some ([1, 2, 3, 4], 2, "R02") := by
    decide +kernel
  have hcounts : ((new : Sequencer ℝ).run Real.log threeRegions).map (fun r =>
      ((r.1.mdl.read "R03").dist.counts.entries, (r.1.mdl.read "R03").dist.total,
        (r.1.mdl.read "R03").dist.numDistinct)) =
      some (sampleDist.counts.entries, sampleDist.total, sampleDist.numDistinct) := by
    decide +kernel
  -- and what is shown if it cuts here
  have hshown : ((new : Sequencer ℝ).run Real.log threeRegions).bind (fun r =>
      (r.1.breakSentence.grammar.analyze ["R03"]).map fun r => r.1.tail 1) = some ["R03"] := by
    decide +kernel
  rw [hlive, Option.map_some, Option.some.injEq, Prod.mk.injEq, Prod.mk.injEq] at hread hcounts
  obtain ⟨hsegment, hbound, hlast⟩ := hread
  -- the counts are those for which the cut was computed
  have hdist : (live.1.mdl.read "R03").dist = sampleDist := by
    obtain ⟨hentries, htotal, hdistinct⟩ := hcounts
    generalize (live.1.mdl.read "R03").dist = dist at hentries htotal hdistinct
    cases dist with
    | mk counts total numDistinct =>
      rw [show counts = sampleDist.counts from AList.ext hentries,
        show total = sampleDist.total from htotal,
        show numDistinct = sampleDist.numDistinct from hdistinct]
  rw [hlive, Option.bind_some] at hshown
  obtain ⟨r, hr, htail⟩ := Option.map_eq_some_iff.mp hshown
  exact ⟨live, hlive, by rw [hlast]; decide, r, "R03", [], hr, htail,
    cut_fourth hsegment hdist hbound⟩

/-- Four different regions: the fourth is cut, and a repetition of it drops the
root. -/
theorem repeated_cut_drops : ¬ ∀ (history : List Call) (live : Sequencer ℝ × List (Option Tokens))
    (symbol : String) (maxPathLength : ℤ) (a b : ℚ) (first second : Sequencer ℝ × Tokens),
    new.run Real.log history = some live → symbol ≠ "" →
    live.1.step Real.log maxPathLength symbol a = some first →
    first.1.step Real.log maxPathLength symbol b = some second → Refreshed first second b := by
  intro hall
  obtain ⟨live, hlive, hcuts⟩ := cuts_threeRegions
  obtain ⟨first, hfirst⟩ : ∃ first, live.1.step Real.log 8 "R03" 1 = some first := by
    obtain ⟨hnew, r, -, -, hr, -, -⟩ := hcuts
    rw [step_eq Real.log live.1 (by decide), if_neg hnew, feed, hr]
    exact ⟨_, rfl⟩
  obtain ⟨hemitted, htokens, hpending, hshows⟩ := step_spec Real.log (by decide) hfirst
  have hsecond := (step_eq Real.log first.1 (show "R03" ≠ "" by decide) 8 1).trans
    (if_pos hemitted.symm)
  have hrefreshed :=
    hall threeRegions live "R03" 8 1 1 first _ hlive (by decide) hfirst hsecond
  have hstill := (refreshed_iff htokens hshows 1).mp hrefreshed
  rw [hpending.mpr hcuts] at hstill
  cases hstill

end Sequencer

end Symm.Tokenizer
