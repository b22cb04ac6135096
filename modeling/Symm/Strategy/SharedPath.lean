import Mathlib.Analysis.SpecialFunctions.Log.Basic
import Symm.Strategy.TokenPath
import Symm.Tokenizer.SequencerSpec
import Symm.Tokenizer.Views

/-!
# One path for every symbol

Each market symbol has a sequencer of its own, and all of them look their cuts
up in one tree, under the displayed path. Rule ids are minted from 1 in each
grammar, so a reference in the path may stand for different regions.

- `symbols_eq_of_path_eq`: the path fixes the displayed symbols of the cut;
- `Agree`: the references of a cut are spelled by the same terminals;
- `shared_path_meaning`: for any two histories, cuts that render to one path
  expand to the same regions where their references agree.

The path fixes what is displayed, symbol by symbol, and nothing else: a displayed
reference names a rule of the grammar that displays it. `Agree` asks for the references
of a cut what is not in the path, that both grammars spell them by the same terminals,
and under it equal paths expand alike.

It is asked reference by reference, so cuts without references meet it for any two
histories.
-/

namespace Symm.Strategy

open Symm.Tokenizer Sequitur

universe u

variable {K : Type u}

/-! ## Paths and expansions of cuts -/

/-- The displayed symbols of a cut, one after another. -/
def symbols (tokens : Tokens) : List String := tokens.flatMap Tokenizer.Token.symbols

/-- `Tokens.String`. -/
def pathOf (tokens : Tokens) : String :=
  "/".intercalate (tokens.map fun token => ".".intercalate token.symbols)

/-- The region terminals a cut expands to through a grammar. -/
def regions (s : Sequitur) (tokens : Tokens) : Option (List String) :=
  ((symbols tokens).mapM s.terminalsForRef).map List.flatten

theorem symbols_lit (segments : List String) (brightness : ℚ) :
    symbols (Sequencer.lit segments brightness) = segments :=
  Sequencer.flatMap_lit segments brightness

/-- The path of tokens is their texts with slashes between. -/
theorem pathOf_lit (segments : List String) (brightness : ℚ) :
    pathOf (Sequencer.lit segments brightness) = "/".intercalate segments := by
  unfold pathOf Sequencer.lit
  rw [List.map_map]
  have htext : (fun token : Tokenizer.Token => ".".intercalate token.symbols) ∘
      (fun segment : String × ℕ => (⟨[segment.1],
        if segment.2 = segments.length - 1 then brightness else 0⟩ : Tokenizer.Token)) =
      Prod.fst := by
    funext segment
    exact (String.intercalate_singleton : ".".intercalate [segment.1] = segment.1)
  rw [htext, List.zipIdx_map_fst]

/-! ## What a path tells -/

/-- A region name a path can hold: it does not look like an internal reference
and has no separator in it. -/
def Named (t : String) : Prop := t ≠ "" ∧ Plain t ∧ '/' ∉ t.toList

/-- A displayed symbol is a token of a path. -/
theorem exists_token_display {n : ℕ} {sym : Symbol} (h : Known Named n sym) :
    ∃ token : Token, token.text = display sym := by
  rcases h with h | ⟨id, hpos, -, rfl⟩
  · rw [display_plain h.2.1]
    exact ⟨⟨sym, h.1, h.2.2⟩, rfl⟩
  · rw [display_ruleSymbol hpos]
    exact ⟨Token.rule id, rfl⟩

/-- Texts that are tokens come from tokens. -/
theorem exists_tokens {segments : List String}
    (h : ∀ segment ∈ segments, ∃ token : Token, token.text = segment) :
    ∃ tokens : List Token, tokens.map Token.text = segments := by
  induction segments with
  | nil => exact ⟨[], rfl⟩
  | cons segment segments ih =>
    obtain ⟨token, rfl⟩ := h segment List.mem_cons_self
    obtain ⟨tokens, rfl⟩ := ih fun s hs => h s (List.mem_cons_of_mem _ hs)
    exact ⟨token :: tokens, rfl⟩

/-- The cut of a fed sequencer is a rendered sequence of tokens. -/
theorem exists_tokens_cut {seq : Sequencer K} (h : Sequencer.Fed Named seq) (maxPathLength : ℤ)
    (brightness : ℚ) : ∃ tokens : List Token,
      tokens.map Token.text = symbols (seq.cut maxPathLength brightness) ∧
        render tokens = pathOf (seq.cut maxPathLength brightness) := by
  obtain ⟨l, ts, hinv, -⟩ := h.inv
  rw [Sequencer.cut_eq, symbols_lit, pathOf_lit, hinv.shape.tail, hinv.shape.rootSequence]
  have hall : ∀ segment ∈ ((l.map seq.grammar.val).map display).drop
      (l.length - maxPathLength.toNat), ∃ token : Token, token.text = segment := by
    intro segment hsegment
    obtain ⟨sym, hsym, rfl⟩ := List.mem_map.mp (List.mem_of_mem_drop hsegment)
    obtain ⟨p, hp, rfl⟩ := List.mem_map.mp hsym
    exact exists_token_display (hinv.known p hp)
  obtain ⟨tokens, htokens⟩ := exists_tokens hall
  exact ⟨tokens, htokens, congrArg _ htokens⟩

/-- The path fixes the displayed symbols of the cut. -/
theorem symbols_eq_of_path_eq {one other : Sequencer K} (h : Sequencer.Fed Named one)
    (h' : Sequencer.Fed Named other) {n n' : ℤ} {b b' : ℚ}
    (hpath : pathOf (one.cut n b) = pathOf (other.cut n' b')) :
    symbols (one.cut n b) = symbols (other.cut n' b') := by
  obtain ⟨tokens, htokens, hrender⟩ := exists_tokens_cut h n b
  obtain ⟨tokens', htokens', hrender'⟩ := exists_tokens_cut h' n' b'
  rw [← htokens, ← htokens']
  exact render_inj (hrender.trans (hpath.trans hrender'.symm))

/-! ## What a path means -/

/-- The references among the symbols are spelled by the same terminals. -/
def Agree (s t : Sequitur) (refs : List String) : Prop :=
  ∀ ref ∈ refs, displayRuleID ref ≠ none → s.terminalsForRef ref = t.terminalsForRef ref

/-- The references among the symbols are spelled by equally many terminals. -/
def SameLengths (s t : Sequitur) (refs : List String) : Prop :=
  ∀ ref ∈ refs, displayRuleID ref ≠ none →
    (s.terminalsForRef ref).map List.length = (t.terminalsForRef ref).map List.length

/-- The expansions of the same symbols, piece by piece. -/
theorem pieces_eq_iff {s t : Sequitur} {refs : List String} {parts parts' : List (List String)}
    (h : refs.Forall₂ (fun ref part => s.terminalsForRef ref = some part) parts)
    (h' : refs.Forall₂ (fun ref part => t.terminalsForRef ref = some part) parts') :
    parts = parts' ↔ Agree s t refs := by
  induction h generalizing parts' with
  | nil =>
    cases h'
    exact iff_of_true rfl fun ref hm => absurd hm List.not_mem_nil
  | @cons ref part refs parts hpart _ ih =>
    cases h' with
    | @cons _ part' _ parts' hpart' hrest' =>
      rw [List.cons.injEq, ih hrest']
      unfold Agree
      rw [List.forall_mem_cons, hpart, hpart', Option.some.injEq]
      refine and_congr_left fun _ => ⟨fun heq _ => heq, fun heq => ?_⟩
      by_cases hid : displayRuleID ref = none
      · have hsame := terminalsForRef_eq hid s t
        rw [hpart, hpart'] at hsame
        exact Option.some.inj hsame
      · exact heq hid

/-- Where both grammars expand references to the same lengths, they cut in the same places.
-/
theorem lengths_eq {s t : Sequitur} {refs : List String} {parts parts' : List (List String)}
    (h : refs.Forall₂ (fun ref part => s.terminalsForRef ref = some part) parts)
    (h' : refs.Forall₂ (fun ref part => t.terminalsForRef ref = some part) parts')
    (hlen : SameLengths s t refs) : parts.map List.length = parts'.map List.length := by
  induction h generalizing parts' with
  | nil =>
    cases h'
    rfl
  | @cons ref part refs parts hpart _ ih =>
    cases h' with
    | @cons _ part' _ parts' hpart' hrest' =>
      rw [List.map_cons, List.map_cons, ih hrest' fun r hr => hlen r (List.mem_cons_of_mem _ hr)]
      refine congrArg (· :: _) ?_
      by_cases hid : displayRuleID ref = none
      · have hsame := terminalsForRef_eq hid s t
        rw [hpart, hpart'] at hsame
        rw [Option.some.inj hsame]
      · have hsame := hlen ref List.mem_cons_self hid
        rw [hpart, hpart'] at hsame
        exact Option.some.inj hsame

/-! ## Two symbols, any histories -/

section Histories

variable [Field K] [LinearOrder K] (log : K → K)

/-- Cuts that render to one path show the same symbols. They expand to the same
regions where their references agree, and where each reference is spelled by
equally many terminals, only there. -/
theorem shared_path_meaning (history history' : List Sequencer.Call)
    (hnames : ∀ c ∈ history ++ history', ∀ symbol ∈ c.symbols,
      Plain symbol ∧ '/' ∉ symbol.toList) :
    ∃ one other, (Sequencer.new : Sequencer K).run log history = some one ∧
      (Sequencer.new : Sequencer K).run log history' = some other ∧
      ∀ (n n' : ℤ) (b b' : ℚ), pathOf (one.1.cut n b) = pathOf (other.1.cut n' b') →
        symbols (one.1.cut n b) = symbols (other.1.cut n' b') ∧
        ∃ ts ts', regions one.1.grammar (one.1.cut n b) = some ts ∧
          regions other.1.grammar (other.1.cut n' b') = some ts' ∧
          (Agree one.1.grammar other.1.grammar (symbols (one.1.cut n b)) → ts = ts') ∧
          (SameLengths one.1.grammar other.1.grammar (symbols (one.1.cut n b)) → ts = ts' →
            Agree one.1.grammar other.1.grammar (symbols (one.1.cut n b))) := by
  have hok : ∀ t, Named t → t ≠ "" ∧ Plain t := fun t ht => ⟨ht.1, ht.2.1⟩
  have hnamed : ∀ c ∈ history ++ history', ∀ symbol ∈ c.symbols, symbol ≠ "" → Named symbol :=
    fun c hc symbol hs hne => ⟨hne, hnames c hc symbol hs⟩
  have hnew : Sequencer.Fed Named (Sequencer.new : Sequencer K) := .new Named
  obtain ⟨one, hone, hfed⟩ := hnew.run log hok history fun c hc =>
    hnamed c (List.mem_append_left _ hc)
  obtain ⟨other, hother, hfed'⟩ := hnew.run log hok history' fun c hc =>
    hnamed c (List.mem_append_right _ hc)
  refine ⟨one, other, hone, hother, fun n n' b b' hpath => ?_⟩
  have hsymbols := symbols_eq_of_path_eq hfed hfed' hpath
  refine ⟨hsymbols, ?_⟩
  obtain ⟨l, ts, hinv, -⟩ := hfed.inv
  obtain ⟨l', ts', hinv', -⟩ := hfed'.inv
  unfold regions
  rw [← hsymbols]
  generalize symbols (one.1.cut n b) = refs
  have hexpand : ∀ {s : Sequitur}, Sound Named s → ∃ parts,
      refs.mapM s.terminalsForRef = some parts ∧
        refs.Forall₂ (fun ref part => s.terminalsForRef ref = some part) parts := by
    intro s hs
    refine mapM_forall₂ fun ref _ => ?_
    obtain ⟨part, hpart⟩ := hs.terminalsForRef_isSome (fun t ht => (hok t ht).2) ref
    exact ⟨part, hpart, hpart⟩
  obtain ⟨parts, hparts, hpieces⟩ := hexpand hinv.sound
  obtain ⟨parts', hparts', hpieces'⟩ := hexpand hinv'.sound
  refine ⟨parts.flatten, parts'.flatten, by rw [hparts, Option.map_some],
    by rw [hparts', Option.map_some], fun hagree => ?_, fun hlen hflat => ?_⟩
  · rw [(pieces_eq_iff hpieces hpieces').mpr hagree]
  · -- pieces of the same lengths that join to the same sequence are the same
    refine (pieces_eq_iff hpieces hpieces').mp ?_
    exact List.eq_iff_flatten_eq.mpr ⟨hflat, lengths_eq hpieces hpieces' hlen⟩

end Histories

/-! ## One path, two meanings -/

section Sample

open Sequencer

/-- A pair of regions that comes twice: the first rule of its grammar. -/
def twice (a b : String) : List Sequencer.Call := [.stepPath 8 [a, b, a, b] 1]

/-- The same pair twice, and once more after a reset. -/
def thrice (a b : String) : List Sequencer.Call :=
  [.stepPath 8 [a, b, a, b] 1, .reset, .stepPath 8 [a, b] 1]

/-- Both symbols end in a cut of one reference to the same rule. -/
theorem shared_path_meaning_sample : ∃ one other,
    (Sequencer.new : Sequencer ℝ).run Real.log (twice "R06" "R07") = some one ∧
    (Sequencer.new : Sequencer ℝ).run Real.log (thrice "R06" "R07") = some other ∧
    ∃ ts, regions one.1.grammar (one.1.cut 1 1) = some ts ∧
      regions other.1.grammar (other.1.cut 8 1) = some ts := by
  obtain ⟨one, other, hone, hother, hsame⟩ := shared_path_meaning Real.log (twice "R06" "R07")
    (thrice "R06" "R07") (by decide +kernel)
  have hread : ((Sequencer.new : Sequencer ℝ).run Real.log (twice "R06" "R07")).map (fun r =>
      (symbols (r.1.cut 1 1), pathOf (r.1.cut 1 1), r.1.grammar.terminalsForRef "M1")) =
        some (["M1"], "M1", some ["R06", "R07"]) := by decide +kernel
  have hread' : ((Sequencer.new : Sequencer ℝ).run Real.log (thrice "R06" "R07")).map (fun r =>
      (pathOf (r.1.cut 8 1), r.1.grammar.terminalsForRef "M1")) =
        some ("M1", some ["R06", "R07"]) := by decide +kernel
  rw [hone, Option.map_some, Option.some.injEq, Prod.mk.injEq, Prod.mk.injEq] at hread
  rw [hother, Option.map_some, Option.some.injEq, Prod.mk.injEq] at hread'
  obtain ⟨hsymbols, hpath, hrule⟩ := hread
  obtain ⟨hpath', hrule'⟩ := hread'
  obtain ⟨-, ts, ts', hts, hts', heq, -⟩ := hsame 1 8 1 1 (hpath.trans hpath'.symm)
  refine ⟨one, other, hone, hother, ts, hts, ?_⟩
  rw [hts', heq]
  intro ref href _
  rw [hsymbols, List.mem_singleton] at href
  rw [href, hrule, hrule']

/-- Two symbols that saw different pairs look up the same path. -/
theorem not_shared_path : ¬ ∀ (history history' : List Sequencer.Call)
    (one other : Sequencer ℝ × List (Option Tokens)),
    (Sequencer.new : Sequencer ℝ).run Real.log history = some one →
    (Sequencer.new : Sequencer ℝ).run Real.log history' = some other →
    ∀ (n : ℤ) (b : ℚ), pathOf (one.1.cut n b) = pathOf (other.1.cut n b) →
      regions one.1.grammar (one.1.cut n b) = regions other.1.grammar (other.1.cut n b) := by
  intro hall
  have hread : ((Sequencer.new : Sequencer ℝ).run Real.log (twice "R06" "R07")).map (fun r =>
      (pathOf (r.1.cut 8 1), regions r.1.grammar (r.1.cut 8 1))) =
        some ("M1/M1", some ["R06", "R07", "R06", "R07"]) := by decide +kernel
  have hread' : ((Sequencer.new : Sequencer ℝ).run Real.log (twice "R08" "R09")).map (fun r =>
      (pathOf (r.1.cut 8 1), regions r.1.grammar (r.1.cut 8 1))) =
        some ("M1/M1", some ["R08", "R09", "R08", "R09"]) := by decide +kernel
  obtain ⟨one, hone, hone'⟩ := Option.map_eq_some_iff.mp hread
  obtain ⟨other, hother, hother'⟩ := Option.map_eq_some_iff.mp hread'
  obtain ⟨hpath, hregions⟩ := Prod.mk.inj hone'
  obtain ⟨hpath', hregions'⟩ := Prod.mk.inj hother'
  have hsame := hall _ _ one other hone hother 8 1 (hpath.trans hpath'.symm)
  rw [hregions, hregions'] at hsame
  revert hsame
  decide

end Sample

end Symm.Strategy
