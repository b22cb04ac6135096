import Symm.Tokenizer.Cascade
import Symm.Tokenizer.Sequencer

/-!
# What the sequencer keeps

A sequencer is fed region names. Whatever its clients call, its grammar keeps
spelling what it heard since the last sentence, and every call returns.

- `shown`, `feedAll_eq`: the grammar does not read the segmenter, so feeding is
  the grammar's run followed by the segmenter's;
- `Fed ok seq`: the grammar is sound over terminals that satisfy `ok`;
- `Fed.feed`, `Fed.call`: what one symbol and one call keep;
- `Fed.run`: what a whole run keeps.

Feeding interleaves two machines, but only one reads the other: the segmenter is shown
tails of the root, and the grammar never asks the segmenter. So a call is the grammar's
run over the new symbols, and then the segmenter's over the tails that were shown on the
way. With that, what the grammar keeps is `Tokenizer.Lossless`, and what the segmenter
does is `Tokenizer.Segmenter`, each without the other.

A break is pending only where a sentence has begun, which `Fed` records: carrying it out
never empties a root that is empty already.
-/

namespace Symm.Tokenizer

universe u

variable {K : Type u} [Field K] [LinearOrder K] (log : K → K)

/-! ## The grammar and the segmenter apart -/

/-- The grammar after some symbols, and the tails it shows on the way. -/
def Sequitur.shown : Sequitur → List String → Option (Sequitur × List String)
  | s, [] => some (s, [])
  | s, symbol :: rest => (s.analyze [symbol]).bind fun r =>
      (shown r.1 rest).map fun last => (last.1, (r.1.tail 1).take 1 ++ last.2)

/-- One symbol is analyzed and shown as the last of the root. -/
theorem Sequitur.shown_singleton (s : Sequitur) (symbol : String) :
    s.shown [symbol] = (s.analyze [symbol]).map fun r => (r.1, (r.1.tail 1).take 1) := by
  rw [shown]
  cases s.analyze [symbol] with
  | none => rfl
  | some r =>
    show some (r.1, (r.1.tail 1).take 1 ++ []) = some (r.1, (r.1.tail 1).take 1)
    rw [List.append_nil]

/-- The segmenter after some symbols, and whether it cut at one of them. -/
def MDL.analyzeAll : MDL K → List String → MDL K × Bool
  | mdl, [] => (mdl, false)
  | mdl, symbol :: rest =>
    let last := analyzeAll (mdl.analyze log symbol).1 rest
    (last.1, (mdl.analyze log symbol).2.1 || last.2)

/-- Symbols are analyzed one after the other, and a cut anywhere is one. -/
theorem MDL.analyzeAll_append (mdl : MDL K) (a b : List String) :
    mdl.analyzeAll log (a ++ b) = (((mdl.analyzeAll log a).1.analyzeAll log b).1,
      (mdl.analyzeAll log a).2 || ((mdl.analyzeAll log a).1.analyzeAll log b).2) := by
  induction a generalizing mdl with
  | nil => rfl
  | cons symbol a ih =>
    rw [List.cons_append, analyzeAll, analyzeAll, ih]
    dsimp only
    rw [Bool.or_assoc]

namespace Sequencer

open Sequitur

/-- Feeding runs the grammar over the symbols and the segmenter over the tails. -/
theorem feedAll_eq (seq : Sequencer K) (parts : List String) :
    parts.foldlM (feed log) seq = (seq.grammar.shown parts).map fun r =>
      { seq with
        grammar := r.1
        mdl := (seq.mdl.analyzeAll log r.2).1
        sentenceBreak := seq.sentenceBreak || (seq.mdl.analyzeAll log r.2).2 } := by
  induction parts generalizing seq with
  | nil =>
    show some seq = some { seq with sentenceBreak := seq.sentenceBreak || false }
    rw [Bool.or_false]
  | cons symbol parts ih =>
    rw [List.foldlM_cons, shown, feed]
    cases seq.grammar.analyze [symbol] with
    | none => rfl
    | some r =>
      rw [Option.map_some, Option.bind_some, Option.map_map]
      refine Eq.trans (ih _) ?_
      dsimp only
      cases r.1.tail 1 with
      | nil => rfl
      | cons tail _ =>
        refine congrArg (fun f => Option.map f (r.1.shown parts)) (funext fun last => ?_)
        show Sequencer.mk _ _ _ ((_ || _) || _) = Sequencer.mk _ _ _ (_ || (_ || _))
        rw [Bool.or_assoc]
        rfl

/-- The tokens of a tail: one for each symbol, the last one lit. -/
def lit (segments : List String) (brightness : ℚ) : Tokens :=
  segments.zipIdx.map fun segment =>
    ⟨[segment.1], if segment.2 = segments.length - 1 then brightness else 0⟩

/-- The symbols can be read back. -/
theorem flatMap_lit (segments : List String) (brightness : ℚ) :
    (lit segments brightness).flatMap Token.symbols = segments := by
  unfold lit
  rw [List.flatMap_map]
  show segments.zipIdx.flatMap (fun segment => [segment.1]) = segments
  rw [← List.map_eq_flatMap, List.zipIdx_map_fst]

theorem lit_injective {a a' : List String} {b : ℚ} (h : lit a b = lit a' b) : a = a' := by
  rw [← flatMap_lit a b, h, flatMap_lit]

omit [Field K] [LinearOrder K] in
theorem cut_eq (seq : Sequencer K) (maxPathLength : ℤ) (brightness : ℚ) :
    seq.cut maxPathLength brightness = lit (seq.grammar.tail maxPathLength) brightness := rfl

omit [Field K] [LinearOrder K] in
/-- Without a pending break the sentence goes on. -/
theorem breakSentence_of_not {seq : Sequencer K} (h : seq.sentenceBreak = false) :
    seq.breakSentence = seq := by
  rw [breakSentence, h, if_neg Bool.false_ne_true]

/-- What a call does that brings new symbols. -/
theorem stepPath_eq (seq : Sequencer K) {symbols parts : List String}
    (hparts : symbols.filter (· ≠ "") = parts) (hne : parts ≠ [])
    (hkey : ".".intercalate parts ≠ seq.breakSentence.lastEmitted) (maxPathLength : ℤ)
    (brightness : ℚ) :
    seq.stepPath log maxPathLength symbols brightness =
      (seq.breakSentence.grammar.shown parts).map fun r =>
        ({ grammar := r.1
           mdl := (seq.breakSentence.mdl.analyzeAll log r.2).1
           lastEmitted := ".".intercalate parts
           sentenceBreak := seq.breakSentence.sentenceBreak ||
            (seq.breakSentence.mdl.analyzeAll log r.2).2 },
          lit (r.1.tail maxPathLength) brightness) := by
  unfold stepPath
  dsimp only
  rw [hparts, if_neg hne, if_neg hkey, feedAll_eq, Option.map_map]
  rfl

/-- The tokens of one call that brings one new symbol. -/
theorem run_step (seq : Sequencer K) {symbol : String} (hne : symbol ≠ "")
    (hkey : symbol ≠ seq.breakSentence.lastEmitted) (maxPathLength : ℤ) (brightness : ℚ) :
    (seq.run log [.step maxPathLength symbol brightness]).map Prod.snd =
      (seq.breakSentence.grammar.shown [symbol]).map fun r =>
        [some (lit (r.1.tail maxPathLength) brightness)] := by
  have hparts : [symbol].filter (· ≠ "") = [symbol] := by
    simpa using hne
  have hstep := stepPath_eq log seq hparts (List.cons_ne_nil _ _) hkey maxPathLength brightness
  rw [Sequencer.run, Sequencer.call, step, hstep]
  cases seq.breakSentence.grammar.shown [symbol] with
  | none => rfl
  | some r => rfl

/-- The same of a sequencer that takes over from a saved state. -/
theorem run_restore_step (state : SequencerState K) {symbol : String} (hne : symbol ≠ "")
    (hkey : symbol ≠ state.lastEmitted) (maxPathLength : ℤ) (brightness : ℚ) :
    ((new.restore state).run log [.step maxPathLength symbol brightness]).map Prod.snd =
      ((restoreGrammar Sequitur.new state.root state.rules).shown [symbol]).map fun r =>
        [some (lit (r.1.tail maxPathLength) brightness)] := by
  have hstill : (new.restore state).breakSentence = new.restore state := breakSentence_of_not rfl
  have hstep := run_step log (new.restore state) hne (by rw [hstill]; exact hkey) maxPathLength
    brightness
  rw [hstill] at hstep
  exact hstep

/-- The grammar is sound, a pending break ends a sentence that has begun, and the
segmenter cuts at two symbols or more. -/
structure Fed (ok : String → Prop) (seq : Sequencer K) : Prop where
  inv : ∃ l ts, Inv ok seq.grammar l ts ∧ (seq.sentenceBreak = true → ts ≠ [])
  segments : seq.mdl.minSegmentSymbols = 2

namespace Fed

variable {ok : String → Prop} {seq : Sequencer K}

omit [LinearOrder K] in
theorem new (ok : String → Prop) : Fed ok (Sequencer.new : Sequencer K) :=
  ⟨⟨[], [], inv_new ok, fun hbreak => absurd hbreak Bool.false_ne_true⟩, rfl⟩

omit [Field K] [LinearOrder K] in
/-- After a reset it counts as fed with nothing. -/
theorem reset (h : Fed ok seq) : Fed ok seq.reset := by
  obtain ⟨l, ts, hinv, -⟩ := h.inv
  exact ⟨⟨[], [], hinv.sentence, fun hbreak => absurd hbreak Bool.false_ne_true⟩, h.segments⟩

omit [Field K] [LinearOrder K] in
theorem breakSentence (h : Fed ok seq) : Fed ok seq.breakSentence := by
  unfold Sequencer.breakSentence
  split
  · obtain ⟨l, ts, hinv, -⟩ := h.inv
    exact ⟨⟨[], [], hinv.sentence, fun hbreak => absurd hbreak Bool.false_ne_true⟩, h.segments⟩
  · exact h

/-- Feeding a good symbol returns, and the sequencer stays fed. -/
theorem feed (hok : ∀ t, ok t → t ≠ "" ∧ Plain t) (h : Fed ok seq) {symbol : String}
    (hs : ok symbol) : ∃ seq', seq.feed log symbol = some seq' ∧ Fed ok seq' := by
  obtain ⟨l, ts, hinv, -⟩ := h.inv
  have htokens : ∀ token ∈ [symbol], token ≠ "" → ok token := fun token ht _ => by
    rw [List.mem_singleton.mp ht]
    exact hs
  obtain ⟨grammar, r, l', hanalyze, hinv'⟩ := inv_analyze hok hinv htokens
  have hbegun : ts ++ [symbol].filter (· ≠ "") ≠ [] := by
    rw [List.filter_cons_of_pos (by simpa using (hok symbol hs).1)]
    exact List.append_ne_nil_of_right_ne_nil ts (List.cons_ne_nil symbol _)
  unfold Sequencer.feed
  rw [hanalyze, Option.map_some]
  refine ⟨_, rfl, ?_⟩
  dsimp only
  cases htail : grammar.tail 1 with
  | nil => exact ⟨⟨l', _, hinv', fun _ => hbegun⟩, h.segments⟩
  | cons tail _ =>
    exact ⟨⟨l', _, hinv', fun _ => hbegun⟩,
      (MDL.minSegmentSymbols_analyze log seq.mdl tail).trans h.segments⟩

/-- So does feeding several. -/
theorem feedAll (hok : ∀ t, ok t → t ≠ "" ∧ Plain t) (h : Fed ok seq) (parts : List String)
    (hs : ∀ symbol ∈ parts, ok symbol) :
    ∃ seq', parts.foldlM (Sequencer.feed log) seq = some seq' ∧ Fed ok seq' := by
  induction parts generalizing seq with
  | nil => exact ⟨seq, rfl, h⟩
  | cons symbol parts ih =>
    obtain ⟨seq1, h1, hfed1⟩ := h.feed log hok (hs symbol List.mem_cons_self)
    obtain ⟨seq', h', hfed'⟩ := ih hfed1 fun s hm => hs s (List.mem_cons_of_mem _ hm)
    refine ⟨seq', ?_, hfed'⟩
    rw [List.foldlM_cons, h1]
    exact h'

/-- So does a step over a path. -/
theorem stepPath (hok : ∀ t, ok t → t ≠ "" ∧ Plain t) (h : Fed ok seq) (maxPathLength : ℤ)
    {symbols : List String} (hs : ∀ symbol ∈ symbols, symbol ≠ "" → ok symbol)
    (brightness : ℚ) :
    ∃ r, seq.stepPath log maxPathLength symbols brightness = some r ∧ Fed ok r.1 := by
  unfold Sequencer.stepPath
  dsimp only
  by_cases hparts : symbols.filter (· ≠ "") = []
  · rw [if_pos hparts]
    exact ⟨_, rfl, h⟩
  · rw [if_neg hparts]
    by_cases hkey : ".".intercalate (symbols.filter (· ≠ "")) = seq.breakSentence.lastEmitted
    · rw [if_pos hkey]
      exact ⟨_, rfl, h.breakSentence⟩
    · rw [if_neg hkey]
      obtain ⟨seq', hfeed, hfed⟩ := h.breakSentence.feedAll log hok (symbols.filter (· ≠ ""))
        fun s hm => hs s (List.mem_of_mem_filter hm) (of_decide_eq_true (List.mem_filter.mp hm).2)
      rw [hfeed, Option.map_some]
      exact ⟨_, rfl, hfed.inv, hfed.segments⟩

/-- Every call returns and keeps the grammar sound. -/
theorem call (hok : ∀ t, ok t → t ≠ "" ∧ Plain t) (h : Fed ok seq) {c : Call}
    (hs : ∀ symbol ∈ c.symbols, symbol ≠ "" → ok symbol) :
    ∃ r, seq.call log c = some r ∧ Fed ok r.1 := by
  cases c with
  | step maxPathLength symbol brightness =>
    obtain ⟨r, hr, hfed⟩ := h.stepPath log hok maxPathLength hs brightness
    exact ⟨(r.1, some r.2), Option.map_eq_some_iff.mpr ⟨r, hr, rfl⟩, hfed⟩
  | stepPath maxPathLength symbols brightness =>
    obtain ⟨r, hr, hfed⟩ := h.stepPath log hok maxPathLength hs brightness
    exact ⟨(r.1, some r.2), Option.map_eq_some_iff.mpr ⟨r, hr, rfl⟩, hfed⟩
  | reset => exact ⟨_, rfl, h.reset⟩

/-- A whole run returns and keeps the grammar sound. -/
theorem run (hok : ∀ t, ok t → t ≠ "" ∧ Plain t) (h : Fed ok seq) (calls : List Call)
    (hs : ∀ c ∈ calls, ∀ symbol ∈ c.symbols, symbol ≠ "" → ok symbol) :
    ∃ r, seq.run log calls = some r ∧ Fed ok r.1 := by
  induction calls generalizing seq with
  | nil => exact ⟨_, rfl, h⟩
  | cons c rest ih =>
    obtain ⟨r, hr, hfed⟩ := h.call log hok (hs c List.mem_cons_self)
    obtain ⟨last, hlast, hlastfed⟩ := ih hfed fun c' hm => hs c' (List.mem_cons_of_mem _ hm)
    refine ⟨(last.1, r.2 :: last.2), ?_, hlastfed⟩
    rw [Sequencer.run, hr, Option.bind_some, hlast]
    rfl

end Fed

end Sequencer

end Symm.Tokenizer
