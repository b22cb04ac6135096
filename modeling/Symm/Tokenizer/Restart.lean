import Mathlib.Analysis.SpecialFunctions.Log.Basic
import Symm.Tokenizer.Rebuilt
import Symm.Tokenizer.Renaming
import Symm.Tokenizer.SequencerSpec

/-!
# Restarting a sequencer

`State` keeps neither the digram index nor a pending sentence break, and
`Restore` rebuilds the first by a rule of its own and clears the second. So a
restarted sequencer goes on as the live one where nothing of that was lost, or
where the next call that matters is a reset.

- `Intact`: no break is pending, and the index is the one a restart rebuilds;
- `Harmless`: the sequencer is intact, or nothing is fed before the next reset;
- `Same`, `Blurred`: what a restart keeps in the two cases;
- `restart_unnoticed`: after a harmless restart, every call returns the same
  tokens;
- `pending_break_noticed`: a restart that loses a pending break is noticed at the
  next new region.

The proof is a simulation. The live sequencer and the restarted one have grammars that
are alike: the nodes of a restarted root have other addresses, and no call returns an
address. Beside the grammar only the segmenter and the last region are compared, and
both are saved as they are.

The condition looks at the sequencer before the restart. Where a break is pending the
next new region clears the root of the live sequencer, and extends that of the restarted
one.
-/

namespace Symm.Tokenizer

open Symm.Lib Sequitur

universe u

namespace Sequitur

/-- The nodes of two roots, place by place. -/
def facing {s t : Sequitur} {l l' : List Ptr} (h : Shape s l) (h' : Shape t l') : Matching where
  rel := Facing (sentinel :: l) (sentinel :: l')
  sentinel := facing_head sentinel sentinel
  ne_nil := fun hp => ⟨h.ne_nil hp.mem.1, h'.ne_nil hp.mem.2⟩
  eq_iff := Facing.eq_iff h.ring.nodup h'.ring.nodup

/-- With the rebuilt index in place of its own, a grammar cannot be told from its
restart. -/
theorem Rebuilt.alike {s t : Sequitur} {l l' : List Ptr} (hr : Rebuilt s l t l')
    (h : Shape s l) : ∃ B, Alike B { s with digrams := indexOf s l } t := by
  have hlen : l.length = l'.length := by
    have := congrArg List.length hr.symbols
    rwa [List.length_map, List.length_map, eq_comm] at this
  have hval : (sentinel :: l).map s.val = (sentinel :: l').map t.val := by
    rw [List.map_cons, List.map_cons, h.blank, hr.shape.blank, hr.symbols]
  -- nodes are matched by their place in the root
  refine ⟨facing h hr.shape, fun hp => hp.map_eq hval,
    fun hp => .inl (hp.behind h.ring hr.shape.ring hlen),
    fun hp => .inl (hp.before h.ring hr.shape.ring hlen), fun {p p'} hp => ⟨?_, ?_⟩, fun d => ?_,
    hr.nextID.symm, hr.rules, hr.ruleByDigram.symm, ?_⟩
  · rcases List.mem_cons.mp hp.mem.1 with rfl | hmem
    · exact h.fresh
    · exact (h.alloc p hmem).2
  · rcases List.mem_cons.mp hp.mem.2 with rfl | hmem
    · exact hr.shape.fresh
    · exact (hr.shape.alloc p' hmem).2
  · rw [hr.index]
    show Option.Rel _ (if _ then _ else _) (if _ then _ else _)
    rw [hr.ruleByDigram]
    -- a digram of a rule is in neither index; of the others the first place is
    by_cases hd : s.ruleByDigram d = none
    · rw [if_pos hd, if_pos hd]
      have hfirst := firstAt_facing hr.symbols.symm d
      generalize firstAt s.val l d = e, firstAt t.val l' d = e' at hfirst
      cases hfirst with
      | none => exact .none
      | some hp => exact .some (hp.cons sentinel sentinel)
    · rw [if_neg hd, if_neg hd]
      exact .none
  · rw [h.length, hr.shape.length, hlen]

end Sequitur

namespace Sequencer

variable {K : Type u} [Field K] [LinearOrder K] (log : K → K)

/-! ## What a restart loses -/

/-- Nothing is lost: no break is pending, and the index holds each digram
without a rule at its first place in the root, and nothing else. -/
def Intact (seq : Sequencer K) : Prop :=
  seq.sentenceBreak = false ∧
    ∀ d, seq.grammar.digrams d = seq.grammar.indexOf seq.grammar.rootNodes d

/-- A call that feeds nothing: it brings no symbols, or the same ones again while
no break is pending. -/
def Passive (seq : Sequencer K) (c : Call) : Prop :=
  c.symbols.filter (· ≠ "") = [] ∨
    seq.sentenceBreak = false ∧ ".".intercalate (c.symbols.filter (· ≠ "")) = seq.lastEmitted

def Call.isReset : Call → Bool
  | .reset => true
  | _ => false

/-- Nothing is lost, or nothing is fed before the next reset. -/
def Harmless (seq : Sequencer K) (calls : List Call) : Prop :=
  Intact seq ∨ ∀ c ∈ calls.takeWhile fun c => !c.isReset, Passive seq c

/-- The tokens of a run are those of its first call and those of the rest. -/
theorem tokens_cons (seq : Sequencer K) (c : Call) (rest : List Call) :
    (seq.run log (c :: rest)).map Prod.snd = (seq.call log c).bind fun r =>
      ((r.1.run log rest).map Prod.snd).map (r.2 :: ·) := by
  rw [Sequencer.run]
  cases seq.call log c with
  | none => rfl
  | some r =>
    rw [Option.bind_some, Option.bind_some, Option.map_map, Option.map_map]
    rfl

/-! ## Two sequencers no client can tell apart -/

/-- The grammars are alike and the rest is equal. -/
structure Same (seq seq' : Sequencer K) : Prop where
  grammar : ∃ B, Alike B seq.grammar seq'.grammar
  mdl : seq.mdl = seq'.mdl
  lastEmitted : seq.lastEmitted = seq'.lastEmitted
  sentenceBreak : seq.sentenceBreak = seq'.sentenceBreak

namespace Same

variable {seq seq' : Sequencer K}

omit [Field K] [LinearOrder K] in
theorem cut (h : Same seq seq') (maxPathLength : ℤ) (brightness : ℚ) :
    seq.cut maxPathLength brightness = seq'.cut maxPathLength brightness := by
  obtain ⟨B, hB⟩ := h.grammar
  unfold Sequencer.cut
  rw [hB.tail]

omit [Field K] [LinearOrder K] in
theorem reset (h : Same seq seq') : Same seq.reset seq'.reset := by
  obtain ⟨B, hB⟩ := h.grammar
  exact ⟨⟨B, hB.sentence⟩, h.mdl, rfl, rfl⟩

omit [Field K] [LinearOrder K] in
theorem breakSentence (h : Same seq seq') : Same seq.breakSentence seq'.breakSentence := by
  unfold Sequencer.breakSentence
  rw [← h.sentenceBreak]
  split
  · obtain ⟨B, hB⟩ := h.grammar
    exact ⟨⟨B, hB.sentence⟩, h.mdl, h.lastEmitted, rfl⟩
  · exact h

theorem feed (h : Same seq seq') (symbol : String) :
    Option.Rel Same (seq.feed log symbol) (seq'.feed log symbol) := by
  obtain ⟨B, hB⟩ := h.grammar
  obtain ⟨B', hanalyze⟩ := hB.analyze [symbol]
  unfold Sequencer.feed
  generalize seq.grammar.analyze [symbol] = r, seq'.grammar.analyze [symbol] = r' at hanalyze
  cases hanalyze with
  | none => exact .none
  | @some a b hab =>
    rw [Option.map_some, Option.map_some]
    refine .some ?_
    dsimp only
    rw [← hab.1.tail 1]
    cases a.1.tail 1 with
    | nil => exact ⟨⟨B', hab.1⟩, h.mdl, h.lastEmitted, h.sentenceBreak⟩
    | cons tail _ =>
      dsimp only
      rw [← h.mdl, ← h.sentenceBreak]
      exact ⟨⟨B', hab.1⟩, rfl, h.lastEmitted, rfl⟩

theorem feedAll (h : Same seq seq') (parts : List String) :
    Option.Rel Same (parts.foldlM (Sequencer.feed log) seq)
      (parts.foldlM (Sequencer.feed log) seq') := by
  induction parts generalizing seq seq' with
  | nil => exact .some h
  | cons symbol parts ih =>
    have hfeed := h.feed log symbol
    rw [List.foldlM_cons, List.foldlM_cons]
    generalize seq.feed log symbol = r, seq'.feed log symbol = r' at hfeed
    cases hfeed with
    | none => exact .none
    | some hab => exact ih hab

/-- Both fail, or both answer the same tokens and stay the same. -/
def Answers {A : Type*} (r r' : Option (Sequencer K × A)) : Prop :=
  Option.Rel (fun a b => Same a.1 b.1 ∧ a.2 = b.2) r r'

theorem stepPath (h : Same seq seq') (maxPathLength : ℤ) (symbols : List String)
    (brightness : ℚ) : Answers (seq.stepPath log maxPathLength symbols brightness)
      (seq'.stepPath log maxPathLength symbols brightness) := by
  have hbreak := h.breakSentence
  unfold Sequencer.stepPath
  dsimp only
  rw [← hbreak.lastEmitted]
  split
  · exact .some ⟨h, rfl⟩
  · split
    · exact .some ⟨hbreak, hbreak.cut maxPathLength brightness⟩
    · have hfeed := hbreak.feedAll log (symbols.filter (· ≠ ""))
      generalize List.foldlM (Sequencer.feed log) seq.breakSentence (symbols.filter (· ≠ "")) = r,
        List.foldlM (Sequencer.feed log) seq'.breakSentence (symbols.filter (· ≠ "")) = r' at hfeed
      cases hfeed with
      | none => exact .none
      | some hab => exact .some ⟨⟨hab.grammar, hab.mdl, rfl, hab.sentenceBreak⟩, hab.cut _ _⟩

theorem call (h : Same seq seq') (c : Call) : Answers (seq.call log c) (seq'.call log c) := by
  have hmap : ∀ {r r' : Option (Sequencer K × Tokens)}, Answers r r' →
      Answers (r.map fun r => (r.1, some r.2)) (r'.map fun r => (r.1, some r.2)) := by
    intro r r' hr
    cases hr with
    | none => exact .none
    | some hab => exact .some ⟨hab.1, congrArg some hab.2⟩
  cases c with
  | step maxPathLength symbol brightness =>
    exact hmap (h.stepPath log maxPathLength [symbol] brightness)
  | stepPath maxPathLength symbols brightness =>
    exact hmap (h.stepPath log maxPathLength symbols brightness)
  | reset => exact .some ⟨h.reset, rfl⟩

/-- A whole run returns the same tokens. -/
theorem run (h : Same seq seq') (calls : List Call) :
    (seq.run log calls).map Prod.snd = (seq'.run log calls).map Prod.snd := by
  induction calls generalizing seq seq' with
  | nil => rfl
  | cons c rest ih =>
    have hcall := h.call log c
    rw [tokens_cons, tokens_cons]
    generalize seq.call log c = r, seq'.call log c = r' at hcall
    cases hcall with
    | none => rfl
    | some hab => rw [Option.bind_some, Option.bind_some, ih hab.1, hab.2]

end Same

/-! ## Where something was lost -/

/-- The grammars are alike but for the index, and the restarted side has no
break pending. -/
structure Blurred (seq seq' : Sequencer K) : Prop where
  grammar : ∃ B D, Alike B { seq.grammar with digrams := D } seq'.grammar
  mdl : seq.mdl = seq'.mdl
  lastEmitted : seq.lastEmitted = seq'.lastEmitted
  sentenceBreak : seq'.sentenceBreak = false

namespace Blurred

variable {seq seq' : Sequencer K}

omit [Field K] [LinearOrder K] in
/-- A reset drops the index and the break on both sides. -/
theorem reset (h : Blurred seq seq') : Same seq.reset seq'.reset := by
  obtain ⟨B, D, hB⟩ := h.grammar
  exact ⟨⟨B, hB.sentence⟩, h.mdl, rfl, rfl⟩

omit [Field K] [LinearOrder K] in
theorem cut (h : Blurred seq seq') (maxPathLength : ℤ) (brightness : ℚ) :
    seq.cut maxPathLength brightness = seq'.cut maxPathLength brightness := by
  obtain ⟨B, D, hB⟩ := h.grammar
  have htail : seq.grammar.tail maxPathLength = seq'.grammar.tail maxPathLength :=
    hB.tail maxPathLength
  unfold Sequencer.cut
  rw [htail]

/-- Where nothing is fed, both sides stand still and show the same cut. -/
theorem stepPath_passive (h : Blurred seq seq') (maxPathLength : ℤ) (symbols : List String)
    (brightness : ℚ) (hp : symbols.filter (· ≠ "") = [] ∨ seq.sentenceBreak = false ∧
      ".".intercalate (symbols.filter (· ≠ "")) = seq.lastEmitted) :
    ∃ tokens, seq.stepPath log maxPathLength symbols brightness = some (seq, tokens) ∧
      seq'.stepPath log maxPathLength symbols brightness = some (seq', tokens) := by
  unfold Sequencer.stepPath
  dsimp only
  by_cases hparts : symbols.filter (· ≠ "") = []
  · rw [if_pos hparts, if_pos hparts]
    exact ⟨[], rfl, rfl⟩
  · obtain ⟨hbreak, hkey⟩ := hp.resolve_left hparts
    rw [if_neg hparts, if_neg hparts, breakSentence_of_not hbreak,
      breakSentence_of_not h.sentenceBreak, if_pos hkey, if_pos (hkey.trans h.lastEmitted)]
    exact ⟨_, rfl, by rw [h.cut]⟩

/-- A call that feeds nothing is answered from what is kept. -/
theorem call_passive (h : Blurred seq seq') {c : Call} (hc : c.isReset = false)
    (hp : Passive seq c) : ∃ out, seq.call log c = some (seq, out) ∧
      seq'.call log c = some (seq', out) := by
  cases c with
  | step maxPathLength symbol brightness =>
    obtain ⟨tokens, ht, ht'⟩ := h.stepPath_passive log maxPathLength [symbol] brightness hp
    exact ⟨some tokens, Option.map_eq_some_iff.mpr ⟨_, ht, rfl⟩,
      Option.map_eq_some_iff.mpr ⟨_, ht', rfl⟩⟩
  | stepPath maxPathLength symbols brightness =>
    obtain ⟨tokens, ht, ht'⟩ := h.stepPath_passive log maxPathLength symbols brightness hp
    exact ⟨some tokens, Option.map_eq_some_iff.mpr ⟨_, ht, rfl⟩,
      Option.map_eq_some_iff.mpr ⟨_, ht', rfl⟩⟩
  | reset => cases hc

/-- A run that feeds nothing before its first reset returns the same tokens. -/
theorem run (h : Blurred seq seq') (calls : List Call)
    (hp : ∀ c ∈ calls.takeWhile fun c => !c.isReset, Passive seq c) :
    (seq.run log calls).map Prod.snd = (seq'.run log calls).map Prod.snd := by
  induction calls with
  | nil => rfl
  | cons c rest ih =>
    rw [tokens_cons, tokens_cons]
    cases hc : c.isReset with
    | true =>
      -- from the reset on the two are the same
      cases c with
      | step => cases hc
      | stepPath => cases hc
      | reset =>
        rw [Sequencer.call, Sequencer.call, Option.bind_some, Option.bind_some, h.reset.run]
    | false =>
      have htake : (c :: rest).takeWhile (fun c => !c.isReset) =
          c :: rest.takeWhile fun c => !c.isReset := by
        rw [List.takeWhile_cons, hc]
        rfl
      rw [htake] at hp
      obtain ⟨out, hout, hout'⟩ := h.call_passive log hc (hp c List.mem_cons_self)
      have hrest := ih fun c' hm => hp c' (List.mem_cons_of_mem _ hm)
      rw [hout, hout', Option.bind_some, Option.bind_some, hrest]

end Blurred

/-! ## Restarting after any history -/

/-- The tokens of `calls` where the sequencer goes on after `history`. -/
def continued (history calls : List Call) : Option (List (Option Tokens)) :=
  ((new : Sequencer K).run log history).bind fun live => (live.1.run log calls).map Prod.snd

/-- The tokens of `calls` where a new sequencer takes over after `history`. -/
def restarted (history calls : List Call) : Option (List (Option Tokens)) :=
  ((new : Sequencer K).run log history).bind fun live => live.1.state.bind fun state =>
    ((new.restore state).run log calls).map Prod.snd

/-- A region name: neither an internal nor a displayed rule reference. -/
def Region (t : String) : Prop := t ≠ "" ∧ Plain t ∧ displayRuleID t = none

omit [LinearOrder K] in
/-- The state of a fed sequencer can be read, and a new one takes over from it. -/
theorem exists_state {seq : Sequencer K} (h : Fed Region seq) (hid : seq.mdl.nextID ≠ 0) :
    ∃ state, seq.state = some state ∧ Blurred seq (new.restore state) ∧
      (Intact seq → Same seq (new.restore state)) := by
  obtain ⟨l, ts, hinv, -⟩ := h.inv
  obtain ⟨views, l', hviews, hrebuilt⟩ := hinv.rebuilt fun t ht => ht
  have hmdl : seq.mdl = MDL.new.restore seq.mdl.state :=
    (MDL.restore_state (by rw [h.segments]; rfl) hid).symm
  obtain ⟨B, hB⟩ := hrebuilt.alike hinv.shape
  refine ⟨⟨seq.lastEmitted, seq.grammar.rootSequence, views, seq.mdl.state⟩,
    congrArg (Option.map _) hviews, ⟨⟨B, _, hB⟩, hmdl, rfl, rfl⟩,
    fun hintact => ⟨⟨B, ?_⟩, hmdl, rfl, hintact.1⟩⟩
  -- an intact grammar has the rebuilt index already
  have hindex : seq.grammar.digrams = seq.grammar.indexOf l := by
    funext d
    rw [hintact.2 d, hinv.shape.rootNodes]
  rw [← hindex] at hB
  exact hB

/-- After every history, a new sequencer that takes over from the state of the live one
answers every continuation as that would, if the restart is harmless. -/
theorem restart_unnoticed (history calls : List Call)
    (hdisplay : ∀ c ∈ history ++ calls, ∀ symbol ∈ c.symbols, displayRuleID symbol = none)
    (hplain : ∀ c ∈ history ++ calls, ∀ symbol ∈ c.symbols, Plain symbol) :
    ∃ live, (new : Sequencer K).run log history = some live ∧
      (live.1.mdl.nextID ≠ 0 → Harmless live.1 calls →
        ∃ tokens, continued log history calls = some tokens ∧
          restarted log history calls = some tokens) := by
  have hok : ∀ t, Region t → t ≠ "" ∧ Plain t := fun t ht => ⟨ht.1, ht.2.1⟩
  have hregion : ∀ c ∈ history ++ calls, ∀ symbol ∈ c.symbols, symbol ≠ "" → Region symbol :=
    fun c hc symbol hs hne => ⟨hne, hplain c hc symbol hs, hdisplay c hc symbol hs⟩
  obtain ⟨live, hlive, hfed⟩ := (Fed.new Region : Fed Region (new : Sequencer K)).run log hok
    history fun c hc => hregion c (List.mem_append_left _ hc)
  refine ⟨live, hlive, fun hid hharmless => ?_⟩
  obtain ⟨last, hlast, -⟩ := hfed.run log hok calls fun c hc =>
    hregion c (List.mem_append_right _ hc)
  obtain ⟨state, hstate, hblurred, hsame⟩ := exists_state hfed hid
  have hrun : (live.1.run log calls).map Prod.snd =
      ((new.restore state).run log calls).map Prod.snd := by
    rcases hharmless with hintact | hpassive
    · exact (hsame hintact).run log calls
    · exact hblurred.run log calls hpassive
  refine ⟨last.2, ?_, ?_⟩
  · rw [continued, hlive, Option.bind_some, hlast, Option.map_some]
  · rw [restarted, hlive, Option.bind_some, hstate, Option.bind_some, ← hrun, hlast,
      Option.map_some]

/-! ## A pending break is always noticed -/

/-- The tail of a root that spells one region. -/
theorem tail_of_spells_one {s : Sequitur} {l : List Ptr} {symbol : String}
    (h : Inv Region s l [symbol]) (hregion : Region symbol) : s.tail 2 = [symbol] := by
  have hlen := h.sound.length_le_of_spells h.spells
  rw [List.length_map, List.length_singleton] at hlen
  cases l with
  | nil => cases h.spells
  | cons p rest =>
    obtain rfl : rest = [] := List.length_eq_zero_iff.mp (by rw [List.length_cons] at hlen; omega)
    have hval : s.val p = symbol := by
      rcases h.sound.singleton_of_spells h.spells with heq | ⟨id, -, -, hlong⟩
      · exact (List.cons.inj heq).1.symm
      · rw [List.length_singleton] at hlong
        omega
    rw [h.shape.tail, h.shape.rootSequence, List.map_singleton, List.map_singleton, hval,
      display_plain hregion.2.1]
    rfl

/-- A root that spells more than one region does not show one region alone. -/
theorem tail_ne_of_spells {s : Sequitur} {l : List Ptr} {ts : List String} {symbol : String}
    (h : Inv Region s l ts) (hlong : 2 ≤ ts.length) (hregion : Region symbol) :
    s.tail 2 ≠ [symbol] := by
  intro htail
  rw [h.shape.tail, h.shape.rootSequence] at htail
  have hlen := congrArg List.length htail
  rw [List.length_drop, List.length_map, List.length_map, List.length_singleton] at hlen
  obtain ⟨p, rfl⟩ : ∃ p, l = [p] := List.length_eq_one_iff.mp (by omega)
  -- the only symbol is a reference, and no region is displayed like one
  rcases h.sound.singleton_of_spells h.spells with rfl | ⟨id, hpos, hval, -⟩
  · rw [List.length_singleton] at hlong
    omega
  · have hshow : display (s.val p) = symbol := (List.cons.inj htail).1
    rw [hval, display_ruleSymbol hpos] at hshow
    have hid := displayRuleID_ruleRef hpos
    rw [hshow, hregion.2.2] at hid
    cases hid

/-- Where a restart loses a pending break, the next new region shows it. -/
theorem pending_break_noticed {seq : Sequencer K} (h : Fed Region seq)
    (hbreak : seq.sentenceBreak = true) {symbol : String} (hregion : Region symbol)
    (hkey : symbol ≠ seq.lastEmitted) :
    ∃ state, seq.state = some state ∧ (seq.run log [.step 2 symbol 1]).map Prod.snd ≠
      ((new.restore state).run log [.step 2 symbol 1]).map Prod.snd := by
  have hok : ∀ t, Region t → t ≠ "" ∧ Plain t := fun t ht => ⟨ht.1, ht.2.1⟩
  have htokens : ∀ token ∈ [symbol], token ≠ "" → Region token := fun token ht _ => by
    rw [List.mem_singleton.mp ht]
    exact hregion
  have hparts : [symbol].filter (· ≠ "") = [symbol] := by
    simpa using hregion.1
  obtain ⟨l, ts, hinv, hbegun⟩ := h.inv
  obtain ⟨views, l', hviews, hrebuilt⟩ := hinv.rebuilt fun t ht => ht
  refine ⟨⟨seq.lastEmitted, seq.grammar.rootSequence, views, seq.mdl.state⟩,
    congrArg (Option.map _) hviews, ?_⟩
  -- the live side begins a sentence with the region
  obtain ⟨live, r, l1, hlive, hinv1⟩ := inv_analyze hok hinv.sentence htokens
  rw [hparts, List.nil_append] at hinv1
  have hfresh : seq.breakSentence =
      { seq with grammar := seq.grammar.sentence, sentenceBreak := false } := if_pos hbreak
  -- the restarted side reads as the live one would without the break
  obtain ⟨B, hB⟩ := hrebuilt.alike hinv.shape
  obtain ⟨kept, r', l2, hkept, hinv2⟩ := inv_analyze hok
    (hinv.digrams hinv.shape.reindexed) htokens
  rw [hparts] at hinv2
  obtain ⟨B', hanswers⟩ := hB.analyze [symbol]
  rw [hkept] at hanswers
  rw [run_step log seq hregion.1 (by rw [hfresh]; exact hkey), hfresh,
    run_restore_step log _ hregion.1 hkey, shown_singleton, shown_singleton, hlive]
  dsimp only
  generalize (restoreGrammar Sequitur.new seq.grammar.rootSequence views).analyze [symbol] = t
    at hanswers ⊢
  cases hanswers with
  | @some _ restarted hab =>
    rw [Option.map_some, Option.map_some, Option.map_some, Option.map_some, Ne, Option.some.injEq,
      List.cons.injEq, Option.some.injEq]
    dsimp only
    rw [tail_of_spells_one hinv1 hregion, ← hab.1.tail 2]
    rintro ⟨heq, -⟩
    refine tail_ne_of_spells hinv2 ?_ hregion (lit_injective heq).symm
    rw [List.length_append, List.length_singleton]
    have := List.length_pos_iff.mpr (hbegun hbreak)
    omega

end Sequencer

/-! ## A restart that is noticed

Four regions the grammar has not seen: the segmenter cuts them in the middle, so
the live sequencer begins a new sentence with the next region. The restarted one
goes on with the old sentence. -/

section Sample

open Sequencer

/-- Four different symbols, once each. -/
def sampleDist : SymbolHistogram := [1, 2, 3, 4].foldl SymbolHistogram.add .new

def sampleLeft : SymbolHistogram := [1, 2].foldl SymbolHistogram.add .new

def sampleRight : SymbolHistogram := [1, 2].foldl SymbolHistogram.remove sampleDist

theorem log_four : Real.log 4 = 2 * Real.log 2 := by
  rw [show (4 : ℝ) = 2 ^ 2 by norm_num, Real.log_pow, Nat.cast_ofNat]

theorem cost_sampleDist : sampleDist.cost Real.log = 8 * Real.log 2 := by
  have hentries : sampleDist.counts.entries = [⟨4, 1⟩, ⟨3, 1⟩, ⟨2, 1⟩, ⟨1, 1⟩] := rfl
  have htotal : sampleDist.total = 4 := rfl
  rw [SymbolHistogram.cost, hentries, htotal]
  simp [log_four]
  ring

/-- Both halves cost as much as two different symbols. -/
theorem cost_half (hist : SymbolHistogram) (a b : UInt32)
    (hentries : hist.counts.entries = [⟨a, 1⟩, ⟨b, 1⟩]) (htotal : hist.total = 2) :
    hist.cost Real.log = 2 * Real.log 2 := by
  rw [SymbolHistogram.cost, hentries, htotal]
  simp
  ring

/-- The split in the middle gains six bits. -/
theorem gain_sample : sampleDist.cost Real.log -
    (sampleLeft.cost Real.log + sampleRight.cost Real.log) -
    ((MDL.penalty Real.log sampleLeft 2 + MDL.penalty Real.log sampleRight 2) -
      MDL.penalty Real.log sampleDist 4) = 6 * Real.log 2 := by
  have hdist : sampleDist.numDistinct = 4 := rfl
  have hleft : sampleLeft.numDistinct = 2 := rfl
  have hright : sampleRight.numDistinct = 2 := rfl
  rw [cost_sampleDist, cost_half sampleLeft 2 1 rfl rfl, cost_half sampleRight 4 3 rfl rfl]
  simp [MDL.penalty, hdist, hleft, hright, log_four]
  ring

theorem six_bits_pos : 0 < 6 * Real.log 2 := by positivity

/-- The loop finds the split in the middle, the only one with two symbols on
each side. -/
theorem scan_sample : [1, 2, 3].zipIdx.foldl (MDL.scan Real.log sampleDist 4 2)
    ⟨.new, sampleDist, 0, 0⟩ =
      ⟨sampleLeft.add 3, sampleRight.remove 3, 2, 6 * Real.log 2⟩ := by
  have hfirst : MDL.scan Real.log sampleDist 4 2 ⟨.new, sampleDist, 0, 0⟩ (1, 0) =
      ⟨SymbolHistogram.new.add 1, sampleDist.remove 1, 0, 0⟩ :=
    MDL.scan_of_short Real.log (by decide)
  have hmiddle : MDL.scan Real.log sampleDist 4 2
      ⟨SymbolHistogram.new.add 1, sampleDist.remove 1, 0, 0⟩ (2, 1) =
        ⟨sampleLeft, sampleRight, 2, 6 * Real.log 2⟩ := by
    unfold MDL.scan
    dsimp only
    rw [if_neg (by decide), ← gain_sample, if_pos]
    · rfl
    · exact six_bits_pos.trans_eq gain_sample.symm
  have hlast : MDL.scan Real.log sampleDist 4 2
      ⟨sampleLeft, sampleRight, 2, 6 * Real.log 2⟩ (3, 2) =
        ⟨sampleLeft.add 3, sampleRight.remove 3, 2, 6 * Real.log 2⟩ :=
    MDL.scan_of_short Real.log (by decide)
  show MDL.scan Real.log sampleDist 4 2 (MDL.scan Real.log sampleDist 4 2
    (MDL.scan Real.log sampleDist 4 2 _ (1, 0)) (2, 1)) (3, 2) = _
  rw [hfirst, hmiddle, hlast]

theorem detect_sample {mdl : MDL ℝ} (hseg : mdl.minSegmentSymbols = 2) :
    mdl.detectBoundary Real.log [1, 2, 3, 4] sampleDist = (true, 2, 6 * Real.log 2) := by
  unfold MDL.detectBoundary
  dsimp only
  rw [hseg, if_neg (by decide)]
  have hscan := scan_sample
  show (decide (0 < ([1, 2, 3].zipIdx.foldl (MDL.scan Real.log sampleDist 4 2) _).maxGain),
    ([1, 2, 3].zipIdx.foldl (MDL.scan Real.log sampleDist 4 2) _).bestK,
    ([1, 2, 3].zipIdx.foldl (MDL.scan Real.log sampleDist 4 2) _).maxGain) = _
  rw [hscan, decide_eq_true six_bits_pos]

def sampleRegions : List String := ["R00", "R01", "R02", "R03"]

/-- The segmenter cuts when it is shown the fourth region. -/
theorem cut_fourth {mdl : MDL ℝ} (hsegment : (mdl.read "R03").segment = [1, 2, 3, 4])
    (hdist : (mdl.read "R03").dist = sampleDist)
    (hbound : (mdl.read "R03").minSegmentSymbols = 2) :
    (mdl.analyze Real.log "R03").2.1 = true := by
  refine MDL.analyze_cuts Real.log (by decide) ?_ ?_ six_bits_pos (k := 2) (by decide) ?_
  · rw [hsegment, hbound]
    decide
  · rw [hsegment, hdist]
    exact detect_sample hbound
  · rw [hsegment]
    decide

theorem cut_sampleRegions : ((MDL.new : MDL ℝ).analyzeAll Real.log sampleRegions).2 = true := by
  have hsplit : sampleRegions = ["R00", "R01", "R02"] ++ ["R03"] := rfl
  rw [hsplit, MDL.analyzeAll_append]
  have hcut : (((MDL.new : MDL ℝ).analyzeAll Real.log ["R00", "R01", "R02"]).1.analyze
      Real.log "R03").2.1 = true := cut_fourth rfl rfl rfl
  rw [MDL.analyzeAll, hcut, Bool.true_or, Bool.or_true]

def sampleHistory : List Call := [.stepPath 8 sampleRegions 1]

def sampleCalls : List Call := [.step 8 "R04" 1]

/-- The sequencer after the four regions: a break is pending. -/
theorem run_sampleHistory : ∃ live, (Sequencer.new : Sequencer ℝ).run Real.log sampleHistory =
    some live ∧ live.1.sentenceBreak = true ∧ live.1.lastEmitted = "R00.R01.R02.R03" ∧
      Sequitur.new.shown sampleRegions = some (live.1.grammar, sampleRegions) := by
  have hshown : (Sequitur.new.shown sampleRegions).map Prod.snd = some sampleRegions := by
    decide +kernel
  obtain ⟨⟨grammar, regions⟩, hgrammar, rfl⟩ := Option.map_eq_some_iff.mp hshown
  have hparts : sampleRegions.filter (· ≠ "") = sampleRegions := by decide
  have hstep := stepPath_eq Real.log (Sequencer.new : Sequencer ℝ) hparts (by decide) (by decide)
    8 1
  have hbreak : (Sequencer.new : Sequencer ℝ).breakSentence = Sequencer.new := rfl
  have hnew : (Sequencer.new : Sequencer ℝ).grammar = Sequitur.new := rfl
  rw [hbreak, hnew, hgrammar, Option.map_some] at hstep
  rw [sampleHistory, Sequencer.run, Sequencer.call, hstep]
  exact ⟨_, rfl, cut_sampleRegions, rfl, hgrammar⟩

/-- A repeated region, a reset and new regions after it: nothing is noticed. -/
theorem restart_unnoticed_sample : ∃ tokens,
    continued Real.log [.step 8 "R02" 1, .step 8 "R00" 1]
      [.step 8 "R00" 0, .reset, .stepPath 8 ["R02", "R00"] 1] = some tokens ∧
    restarted Real.log [.step 8 "R02" 1, .step 8 "R00" 1]
      [.step 8 "R00" 0, .reset, .stepPath 8 ["R02", "R00"] 1] = some tokens := by
  obtain ⟨live, hlive, hsame⟩ := restart_unnoticed Real.log
    [.step 8 "R02" 1, .step 8 "R00" 1] [.step 8 "R00" 0, .reset, .stepPath 8 ["R02", "R00"] 1]
    (by decide +kernel) (by decide +kernel)
  have hread : ((Sequencer.new : Sequencer ℝ).run Real.log
      [.step 8 "R02" 1, .step 8 "R00" 1]).map (fun r =>
        (r.1.sentenceBreak, r.1.lastEmitted, r.1.mdl.nextID)) = some (false, "R00", 3) := by
    decide +kernel
  rw [hlive, Option.map_some, Option.some.injEq, Prod.mk.injEq, Prod.mk.injEq] at hread
  obtain ⟨hbreak, hlast, hid⟩ := hread
  refine hsame (by rw [hid]; decide) (.inr fun c hc => ?_)
  -- the only call before the reset
  obtain rfl := List.mem_singleton.mp hc
  exact .inr ⟨hbreak, hlast.symm⟩

/-- The live sequencer begins a sentence, the restarted one goes on with the old one. -/
theorem sampleRestart_noticed : ¬ ∀ history calls : List Call,
    (∀ c ∈ history ++ calls, ∀ symbol ∈ c.symbols, displayRuleID symbol = none) →
      restarted Real.log history calls = continued Real.log history calls := by
  intro hall
  have hsame := hall sampleHistory sampleCalls (by decide +kernel)
  obtain ⟨live, hlive, hbreak, hlast, hshown⟩ := run_sampleHistory
  -- the live one shows the new region alone
  have hnext : ((Sequitur.new.shown sampleRegions).bind fun r =>
      (r.1.sentence.shown ["R04"]).map fun q => [some (lit (q.1.tail 8) 1)]) =
        some [some [⟨["R04"], 1⟩]] := by decide +kernel
  -- the restarted one shows it behind the four regions
  have hviews : (Sequitur.new.shown sampleRegions).bind (fun r => r.1.ruleViews) = some [] := by
    decide +kernel
  have hroot : (Sequitur.new.shown sampleRegions).map (fun r => r.1.rootSequence) =
      some sampleRegions := by decide +kernel
  have hback : (((restoreGrammar Sequitur.new sampleRegions []).shown ["R04"]).map
      fun q => [some (lit (q.1.tail 8) 1)]) = some [some [⟨["R00"], 0⟩, ⟨["R01"], 0⟩, ⟨["R02"], 0⟩,
        ⟨["R03"], 0⟩, ⟨["R04"], 1⟩]] := by decide +kernel
  rw [hshown, Option.bind_some] at hnext hviews
  rw [hshown, Option.map_some] at hroot
  have hcontinued : continued Real.log sampleHistory sampleCalls = some [some [⟨["R04"], 1⟩]] := by
    have hfresh : live.1.breakSentence =
        { live.1 with grammar := live.1.grammar.sentence, sentenceBreak := false } :=
      if_pos hbreak
    have hkey : "R04" ≠ live.1.breakSentence.lastEmitted := by
      rw [hfresh, hlast]
      decide
    rw [continued, hlive, Option.bind_some, sampleCalls, run_step Real.log live.1 (by decide) hkey,
      hfresh]
    exact hnext
  have hrestarted : restarted Real.log sampleHistory sampleCalls = some [some [⟨["R00"], 0⟩,
      ⟨["R01"], 0⟩, ⟨["R02"], 0⟩, ⟨["R03"], 0⟩, ⟨["R04"], 1⟩]] := by
    have hstate : live.1.state = some ⟨live.1.lastEmitted, sampleRegions, [], live.1.mdl.state⟩ := by
      rw [Sequencer.state, hviews, Option.map_some, Option.some.inj hroot]
    have hkey : "R04" ≠ live.1.lastEmitted := by
      rw [hlast]
      decide
    rw [restarted, hlive, Option.bind_some, hstate, Option.bind_some, sampleCalls,
      run_restore_step Real.log _ (by decide) hkey]
    exact hback
  rw [hcontinued, hrestarted] at hsame
  revert hsame
  decide

end Sample

end Symm.Tokenizer
