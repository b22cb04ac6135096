import Symm.Tokenizer.Digrams
import Symm.Tokenizer.Views

/-!
# Repeated digrams become rules

The root of a grammar should hold no digram twice, overlaps apart, and none that
a rule stands for. A replacement forgets the index entry that starts at its
second node. When that node began a run of three equal symbols, the other half
of the run stays in the root without an entry, and the next occurrence of the
digram is taken for its first. As long as no token meets such a digram, every
call leaves a root without repetitions.

- `Promoted`: no digram twice, overlaps apart, and none that has a rule;
- `UnlostTokens`, `UnlostCalls`: the condition, asked of each token in the state that it
  comes to, so that it can be computed along a run;
- `tidy_analyze`: one call keeps the root tidy;
- `repeats_promoted`: so does every run of calls.
-/

namespace Symm.Tokenizer.Sequitur

open Symm.Lib

variable {ok : String → Prop} {s : Sequitur} {l : List Ptr} {ts : List String}

/-- The symbols of the root, oldest first. -/
def rootSymbols (s : Sequitur) : List Symbol := s.rootNodes.map s.val

theorem Shape.rootSymbols (h : Shape s l) : s.rootSymbols = l.map s.val := by
  rw [Sequitur.rootSymbols, h.rootNodes]

/-- No pair of neighbours of the root comes again behind it, and none is the body
of a rule. -/
structure Promoted (s : Sequitur) : Prop where
  once : ∀ a b pre post, s.rootSymbols = pre ++ a :: b :: post → ¬ [a, b] <:+: post
  unruled : ∀ a b, [a, b] <:+: s.rootSymbols → ∀ rule ∈ s.rules, rule.body ≠ [a, b]

/-- A root without exceptions has no repetitions. -/
theorem Tidy.promoted (ht : Tidy s l) (h : Inv ok s l ts) : Promoted s where
  once := by
    intro a b pre post hsplit hagain
    rw [h.shape.rootSymbols] at hsplit
    -- both places of the pair are places of the ring
    obtain ⟨front, rest, rfl, -, hrest⟩ := List.map_eq_append_iff.mp hsplit
    obtain ⟨p, rest', rfl, rfl, hrest'⟩ := List.map_eq_cons_iff.mp hrest
    obtain ⟨q, back, rfl, rfl, rfl⟩ := List.map_eq_cons_iff.mp hrest'
    obtain ⟨mid, p', q', last, rfl, hp', hq'⟩ := exists_nodes hagain
    have hring := h.shape.ring
    have hpq : s.next p = q := hring.next_pair
    have hring' : Ring s.next s.prev sentinel ((front ++ p :: q :: mid) ++ p' :: q' :: last) := by
      simpa using hring
    have hpq' : s.next p' = q' := hring'.next_pair
    have hnd := hring.nodup_tail
    simp only [List.nodup_append, List.nodup_cons, List.mem_cons, List.mem_append, not_or] at hnd
    have hmem : ∀ r, r = p ∨ r = q ∨ r = p' ∨ r = q' →
        r ∈ front ++ p :: q :: (mid ++ p' :: q' :: last) := by
      intro r hr
      simp only [List.mem_append, List.mem_cons]
      tauto
    have hv : s.next p ≠ sentinel := by
      rw [hpq]
      exact h.shape.ne_sentinel (hmem q (by tauto))
    have hv' : s.next p' ≠ sentinel := by
      rw [hpq']
      exact h.shape.ne_sentinel (hmem q' (by tauto))
    -- two nodes that show one pair are the same, or overlap
    have hpair : s.pairAt p = s.pairAt p' := by
      unfold pairAt
      rw [hpq, hpq', hp', hq']
    rcases ht.unique p (hmem p (by tauto)) p' (hmem p' (by tauto)) hv hv' id id hpair with
      heq | heq | heq
    · exact hnd.2.1.1.2.2.1 heq
    · rw [hpq] at heq
      exact hnd.2.1.2.1.2.1 heq
    · rw [hpq'] at heq
      exact hnd.2.1.1.2.2.2.1 heq.symm
  unruled := by
    intro a b hin rule hrule hbody
    rw [h.shape.rootSymbols] at hin
    obtain ⟨front, p, q, back, rfl, rfl, rfl⟩ := exists_nodes hin
    have hpq : s.next p = q := h.shape.ring.next_pair
    have hnone := ht.unruled p (by simp) (by
      rw [hpq]
      exact h.shape.ne_sentinel (by simp)) id
    obtain ⟨u, v, heq, -, -, hid⟩ := h.sound.body_of_mem hrule
    rw [hbody] at heq
    obtain ⟨rfl, rfl⟩ : s.val p = u ∧ s.val q = v := by simpa using heq
    rw [pairAt, hpq, ruled, hid, Option.bind_some, h.sound.ruleOf_of_mem hrule] at hnone
    cases hnone

/-! ## Runs -/

/-- The rule named by the answer does not enter the grammar. -/
theorem analyzeToken_fst (s : Sequitur) (created : Option ℕ) (token : String) :
    (analyzeToken s created token).map Prod.fst = (analyzeToken s none token).map Prod.fst := by
  unfold analyzeToken
  by_cases hempty : token = ""
  · rw [if_pos hempty, if_pos hempty]
    rfl
  · rw [if_neg hempty, if_neg hempty]
    dsimp only
    split <;> rfl

/-- No token of a call meets a lost digram. -/
def UnlostTokens (s : Sequitur) : List String → Prop
  | [] => True
  | token :: rest => (token ≠ "" → s.Unlost s.rootSymbols.reverse token) ∧
    match analyzeToken s none token with
    | none => True
    | some (s', _) => UnlostTokens s' rest

/-- No token of a run of calls meets a lost digram. -/
def UnlostCalls (s : Sequitur) : List (List String) → Prop
  | [] => True
  | tokens :: calls => UnlostTokens { s with lastKind := .append } tokens ∧
    match s.analyze tokens with
    | none => True
    | some (s', _) => UnlostCalls s' calls

theorem unlost_cons (s : Sequitur) (u : Symbol) (rest : List Symbol) (sym : Symbol) :
    s.Unlost (u :: rest) sym = match s.ruled (u, sym) with
      | some rule => s.Unlost rest (ruleSymbol rule.id)
      | none => [u, sym] <:+: (u :: rest).reverse → s.digrams (u, sym) ≠ none := rfl

theorem unlostTokens_cons (s : Sequitur) (token : String) (rest : List String) :
    s.UnlostTokens (token :: rest) = ((token ≠ "" → s.Unlost s.rootSymbols.reverse token) ∧
      match analyzeToken s none token with
      | none => True
      | some (s', _) => UnlostTokens s' rest) := rfl

theorem unlostCalls_cons (s : Sequitur) (tokens : List String) (calls : List (List String)) :
    s.UnlostCalls (tokens :: calls) = (UnlostTokens { s with lastKind := .append } tokens ∧
      match s.analyze tokens with
      | none => True
      | some (s', _) => UnlostCalls s' calls) := rfl

instance instDecidableUnlost (s : Sequitur) :
    (syms : List Symbol) → (sym : Symbol) → Decidable (s.Unlost syms sym)
  | [], _ => isTrue trivial
  | u :: rest, sym =>
    match h : s.ruled (u, sym) with
    | some rule =>
      have := instDecidableUnlost s rest (ruleSymbol rule.id)
      decidable_of_iff (s.Unlost rest (ruleSymbol rule.id)) (by rw [unlost_cons, h])
    | none =>
      decidable_of_iff ([u, sym] <:+: (u :: rest).reverse → s.digrams (u, sym) ≠ none)
        (by rw [unlost_cons, h])

instance instDecidableUnlostTokens :
    (s : Sequitur) → (tokens : List String) → Decidable (s.UnlostTokens tokens)
  | _, [] => isTrue trivial
  | s, token :: rest =>
    match h : analyzeToken s none token with
    | none =>
      decidable_of_iff (token ≠ "" → s.Unlost s.rootSymbols.reverse token)
        (by rw [unlostTokens_cons, h]; exact (and_iff_left trivial).symm)
    | some (s', _) =>
      have := instDecidableUnlostTokens s' rest
      decidable_of_iff ((token ≠ "" → s.Unlost s.rootSymbols.reverse token) ∧
        s'.UnlostTokens rest) (by rw [unlostTokens_cons, h])

instance instDecidableUnlostCalls :
    (s : Sequitur) → (calls : List (List String)) → Decidable (s.UnlostCalls calls)
  | _, [] => isTrue trivial
  | s, tokens :: calls =>
    match h : s.analyze tokens with
    | none =>
      decidable_of_iff (UnlostTokens { s with lastKind := .append } tokens)
        (by rw [unlostCalls_cons, h]; exact (and_iff_left trivial).symm)
    | some (s', _) =>
      have := instDecidableUnlostCalls s' calls
      decidable_of_iff (UnlostTokens { s with lastKind := .append } tokens ∧
        s'.UnlostCalls calls) (by rw [unlostCalls_cons, h])

/-- A call whose tokens meet no lost digram leaves no exception. -/
theorem tidy_analyze (hok : ∀ t, ok t → t ≠ "" ∧ Plain t) {tokens : List String}
    (hplain : ∀ token ∈ tokens, token ≠ "" → ok token) (h : Inv ok s l ts) (ht : Tidy s l)
    (hun : UnlostTokens { s with lastKind := .append } tokens) :
    ∃ s' r l' ts', s.analyze tokens = some (s', r) ∧ Inv ok s' l' ts' ∧ Tidy s' l' := by
  -- the loop of `Analyze`, for any kind that was reported so far
  have hloop : ∀ tokens : List String, (∀ token ∈ tokens, token ≠ "" → ok token) →
      ∀ s l ts created, Inv ok s l ts → Tidy s l → s.UnlostTokens tokens →
      ∃ s' r l' ts', tokens.foldlM (fun r token => analyzeToken r.1 r.2 token) (s, created) =
        some (s', r) ∧ Inv ok s' l' ts' ∧ Tidy s' l' := by
    intro tokens
    induction tokens with
    | nil =>
      intro _ s l ts created h ht _
      exact ⟨s, created, l, ts, rfl, h, ht⟩
    | cons token rest ih =>
      intro hplain s l ts created h ht hun
      obtain ⟨hlost, hrest⟩ := hun
      rw [h.shape.rootSymbols] at hlost
      obtain ⟨s1, r1, l1, h1, hinv1, ht1⟩ :=
        tidy_analyzeToken hok h ht created (hplain token List.mem_cons_self) hlost
      -- the condition is about the call without one, which leaves the same grammar
      have hnone : ∃ r, analyzeToken s none token = some (s1, r) := by
        have hfst := analyzeToken_fst s created token
        rw [h1] at hfst
        obtain ⟨⟨s2, r2⟩, h2, rfl⟩ := Option.map_eq_some_iff.mp hfst.symm
        exact ⟨r2, h2⟩
      obtain ⟨r, hr⟩ := hnone
      rw [hr] at hrest
      obtain ⟨s', r', l', ts', h', hinv', ht'⟩ :=
        ih (fun t hmem => hplain t (List.mem_cons_of_mem _ hmem)) s1 l1 _ r1 hinv1 ht1 hrest
      refine ⟨s', r', l', ts', ?_, hinv', ht'⟩
      rw [List.foldlM_cons]
      simp only [h1]
      exact h'
  exact hloop tokens hplain _ l ts none h.lastKind ⟨ht.unruled, ht.unique, ht.placed⟩ hun

/-- The state after some calls of `Analyze`. -/
def analyzeCalls (s : Sequitur) (calls : List (List String)) : Option Sequitur :=
  calls.foldlM (fun s tokens => (s.analyze tokens).map Prod.fst) s

/-- In every run of calls whose tokens meet no lost digram, the root is free of
repetitions after each call. -/
theorem repeats_promoted (calls : List (List String))
    (hplain : ∀ tokens ∈ calls, ∀ token ∈ tokens, Plain token) (hunlost : new.UnlostCalls calls)
    (n : ℕ) : ∃ s, new.analyzeCalls (calls.take n) = some s ∧ Promoted s := by
  -- over the calls, from any grammar that is tidy
  have hrun : ∀ (calls : List (List String)) (n : ℕ) s l ts,
      (∀ tokens ∈ calls, ∀ token ∈ tokens, Plain token) →
      Inv (fun t => t ≠ "" ∧ Plain t) s l ts → Tidy s l → s.UnlostCalls calls →
      ∃ s' l' ts', s.analyzeCalls (calls.take n) = some s' ∧
        Inv (fun t => t ≠ "" ∧ Plain t) s' l' ts' ∧ Tidy s' l' := by
    intro calls
    induction calls with
    | nil =>
      intro n s l ts _ h ht _
      rw [List.take_nil]
      exact ⟨s, l, ts, rfl, h, ht⟩
    | cons tokens calls ih =>
      intro n s l ts hplain h ht hun
      cases n with
      | zero => exact ⟨s, l, ts, rfl, h, ht⟩
      | succ n =>
        obtain ⟨htokens, hrest⟩ := hun
        obtain ⟨s1, r1, l1, ts1, h1, hinv1, ht1⟩ := tidy_analyze (fun _ ht => ht)
          (fun token hmem hne => ⟨hne, hplain tokens List.mem_cons_self token hmem⟩) h ht htokens
        rw [h1] at hrest
        obtain ⟨s', l', ts', h', hinv', ht'⟩ := ih n s1 l1 ts1
          (fun t hmem => hplain t (List.mem_cons_of_mem _ hmem)) hinv1 ht1 hrest
        refine ⟨s', l', ts', ?_, hinv', ht'⟩
        rw [List.take_succ_cons, analyzeCalls, List.foldlM_cons, h1]
        exact h'
  -- an empty root has no pairs
  have hnew : Tidy new [] := ⟨fun p hp => absurd hp List.not_mem_nil,
    fun p hp => absurd hp List.not_mem_nil, fun p hp => absurd hp List.not_mem_nil⟩
  obtain ⟨s, l, ts, hs, hinv, ht⟩ := hrun calls n new [] [] hplain (inv_new _) hnew hunlost
  exact ⟨s, hs, ht.promoted hinv⟩

/-- A run with an overlap, two rules and a reuse, with no digram lost. -/
theorem repeats_promoted_sample : ∃ s,
    new.analyzeCalls ([["a", "a", "a", "a"], ["b", "c", "b"], ["c", "a", "a"]].take 3) = some s ∧
      Promoted s :=
  repeats_promoted _ (by decide) (by decide +kernel) 3

/-- The first `a a` loses its entry when the pair before it becomes a rule, and
the second one is not recognised. -/
theorem lost_digram_repeats : ¬ ∀ calls : List (List String), ∀ n : ℕ,
    ∃ s, new.analyzeCalls (calls.take n) = some s ∧ Promoted s := by
  intro h
  obtain ⟨s, hs, hpromoted⟩ := h [["x", "a", "a", "a", "x", "a"], ["z", "a", "a"]] 2
  have hroot : (new.analyzeCalls ([["x", "a", "a", "a", "x", "a"], ["z", "a", "a"]].take 2)).map
      rootSymbols = some [ruleSymbol 1, "a", "a", ruleSymbol 1, "z", "a", "a"] := by
    decide +kernel
  rw [hs, Option.map_some, Option.some.injEq] at hroot
  exact hpromoted.once "a" "a" [ruleSymbol 1] [ruleSymbol 1, "z", "a", "a"] hroot
    ⟨[ruleSymbol 1, "z"], [], rfl⟩

end Symm.Tokenizer.Sequitur
