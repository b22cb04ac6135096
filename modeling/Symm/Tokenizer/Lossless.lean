import Symm.Tokenizer.Cascade

/-!
# The grammar loses nothing

A client feeds tokens, drops the root at sentence boundaries and polls the
pending counter. Whatever it does, every call returns, and expanding the root
gives back the tokens of the current sentence.

- `Op`, `perform`: the calls of a client;
- `heard`: the tokens since the last sentence boundary;
- `root_spells_heard`: the expanded root is exactly what was heard;
- `check_mono`: more recursion depth never changes an answer.

A call may feed a token, several of them, drop the root or ask for the counter. For each
of them the module on the cascade has a lemma that it returns and keeps the invariant,
and the invariant says what the root spells. The run lemma puts these together, with
`heard` on the other side, which is defined without the grammar.

The recursion of the cascade is given a depth. `check_mono` makes that harmless: an
answer obtained at one depth is the answer at every greater one, so "returns" does not
mean "returns at the depth that happens to be written here".
-/

namespace Symm.Tokenizer

open Symm.Lib

namespace Sequitur

/-! ## Recursion depth -/

section Depth

variable {c c' : Sequitur → Ptr → Option (Sequitur × Option ℕ)}

/-- With more fuel a guarded check gives what it gave. -/
theorem checkIf_mono (h : ∀ s n r, c s n = some r → c' s n = some r) {s t : Sequitur}
    {guard : Prop} [Decidable guard] {n : Ptr} (hc : checkIf c s guard n = some t) :
    checkIf c' s guard n = some t := by
  unfold checkIf at hc ⊢
  split
  case isTrue hg =>
    rw [if_pos hg] at hc
    obtain ⟨r, hr, hrt⟩ := Option.map_eq_some_iff.mp hc
    rw [h s n r hr, Option.map_some, hrt]
  case isFalse hg =>
    rw [if_neg hg] at hc
    exact hc

theorem checkAdjacencies_mono (h : ∀ s n r, c s n = some r → c' s n = some r) {s t : Sequitur}
    {a b : Ptr} (hc : checkAdjacencies c s a b = some t) :
    checkAdjacencies c' s a b = some t := by
  rw [checkAdjacencies_eq] at hc ⊢
  obtain ⟨s2, h2, h4⟩ := Option.bind_eq_some_iff.mp hc
  obtain ⟨s1, h1, h2⟩ := Option.bind_eq_some_iff.mp h2
  obtain ⟨s3, h3, h4⟩ := Option.bind_eq_some_iff.mp h4
  rw [checkIf_mono h h1, Option.bind_some, checkIf_mono h h2, Option.bind_some,
    checkIf_mono h h3, Option.bind_some, checkIf_mono h h4]

end Depth

/-- An answer of `check` does not depend on the depth it was allowed. -/
theorem check_mono {f g : ℕ} (hfg : f ≤ g) {s : Sequitur} {n : Ptr} {r : Sequitur × Option ℕ}
    (h : check f s n = some r) : check g s n = some r := by
  induction f generalizing g s n r with
  | zero => cases h
  | succ f ih =>
    obtain ⟨g, rfl⟩ : ∃ k, g = k + 1 := ⟨g - 1, by omega⟩
    have hle : f ≤ g := by omega
    -- the checks of the neighbours have the smaller depth, so the induction covers them
    have hadj : ∀ {s t : Sequitur} {a b : Ptr}, checkAdjacencies (check f) s a b = some t →
        checkAdjacencies (check g) s a b = some t :=
      checkAdjacencies_mono fun s n r hr => ih hle hr
    simp only [check] at h ⊢
    split
    case isTrue hs =>
      rw [if_pos hs] at h
      exact h
    case isFalse hs =>
      rw [if_neg hs] at h
      cases hr : s.ruled (s.val n, s.val (s.next n)) with
      | some rule =>
        rw [hr] at h
        obtain ⟨t, ht, hrt⟩ := Option.map_eq_some_iff.mp h
        simp only
        rw [hadj ht, Option.map_some, hrt]
      | none =>
        rw [hr] at h
        cases hd : s.digrams (s.val n, s.val (s.next n)) with
        | none =>
          rw [hd] at h
          exact h
        | some m =>
          rw [hd] at h
          simp only at h ⊢
          split
          case isTrue hm =>
            rw [if_pos hm] at h
            split
            case isTrue hov =>
              rw [if_pos hov] at h
              exact h
            case isFalse hov =>
              rw [if_neg hov] at h
              obtain ⟨t, ht, hrt⟩ := Option.map_eq_some_iff.mp h
              rw [reduce, hadj ht, Option.map_some, hrt]
          case isFalse hm =>
            rw [if_neg hm] at h
            exact h

/-! ## Clients -/

/-- The root with every rule reference expanded through the rule bodies. -/
def rootTerminals (s : Sequitur) : Option (List String) :=
  ((s.rootNodes.map s.val).mapM (s.namesOf s.terminalNames)).map List.flatten

/-- The root is heard as what it spells. -/
theorem Inv.rootTerminals {ok : String → Prop} (hok : ∀ t, ok t → Plain t) {s : Sequitur}
    {l : List Ptr} {ts : List String} (h : Inv ok s l ts) : s.rootTerminals = some ts := by
  rw [Sequitur.rootTerminals, h.shape.rootNodes]
  refine expand_of_spells h.sound hok h.spells fun sym hm => ?_
  obtain ⟨p, hp, rfl⟩ := List.mem_map.mp hm
  exact (h.known p hp).mono (Nat.le_succ _)

end Sequitur

/-- A call of a client. -/
inductive Op
  | analyze (tokens : List String)
  | sentence
  | flush
  deriving Repr, DecidableEq

/-- The tokens a call feeds. -/
def Op.tokens : Op → List String
  | .analyze tokens => tokens
  | .sentence => []
  | .flush => []

namespace Sequitur

def perform (s : Sequitur) : Op → Option Sequitur
  | .analyze tokens => (s.analyze tokens).map Prod.fst
  | .sentence => some s.sentence
  | .flush => some s.flush.1

/-- The tokens since the last sentence boundary, after one more call. -/
def heard (ts : List String) : Op → List String
  | .analyze tokens => ts ++ tokens.filter (· ≠ "")
  | .sentence => []
  | .flush => ts

/-- Every call returns and keeps the invariant. -/
theorem inv_perform {ok : String → Prop} (hok : ∀ t, ok t → t ≠ "" ∧ Plain t) {s : Sequitur}
    {l : List Ptr} {ts : List String} (h : Inv ok s l ts) {op : Op}
    (hop : ∀ token ∈ op.tokens, token ≠ "" → ok token) :
    ∃ s' l', s.perform op = some s' ∧ Inv ok s' l' (heard ts op) := by
  cases op with
  | analyze tokens =>
    have hop' : ∀ token ∈ tokens, token ≠ "" → ok token := hop
    obtain ⟨s', r, l', hs', hinv⟩ := inv_analyze hok h hop'
    refine ⟨s', l', ?_, hinv⟩
    rw [perform, hs']
    rfl
  | sentence => exact ⟨_, [], rfl, h.sentence⟩
  | flush => exact ⟨_, l, rfl, h.pendingLen⟩

/-- A whole run of calls returns and keeps the invariant. -/
theorem inv_run {ok : String → Prop} (hok : ∀ t, ok t → t ≠ "" ∧ Plain t) {s : Sequitur}
    {l : List Ptr} {ts : List String} (h : Inv ok s l ts) (ops : List Op)
    (hops : ∀ op ∈ ops, ∀ token ∈ op.tokens, token ≠ "" → ok token) :
    ∃ s' l', ops.foldlM perform s = some s' ∧ Inv ok s' l' (ops.foldl heard ts) := by
  induction ops generalizing s l ts with
  | nil => exact ⟨s, l, rfl, h⟩
  | cons op ops ih =>
    obtain ⟨s1, l1, h1, hinv1⟩ := inv_perform hok h (hops op List.mem_cons_self)
    obtain ⟨s', l', h', hinv'⟩ := ih hinv1 fun op' hmem => hops op' (List.mem_cons_of_mem _ hmem)
    refine ⟨s', l', ?_, hinv'⟩
    rw [List.foldlM_cons, h1]
    exact h'

/-- The grammar is lossless: any run of calls returns, and the expanded root is
the concatenation of the non-empty tokens since the last sentence boundary. -/
theorem root_spells_heard (ops : List Op)
    (hops : ∀ op ∈ ops, ∀ token ∈ op.tokens, Plain token) :
    ∃ s, ops.foldlM perform new = some s ∧ s.rootTerminals = some (ops.foldl heard []) := by
  have hnew : Inv (fun t => t ≠ "" ∧ Plain t) new [] [] := inv_new _
  obtain ⟨s, l, hs, hinv⟩ := inv_run (fun _ ht => ht) hnew ops
    fun op hop token ht hne => ⟨hne, hops op hop token ht⟩
  exact ⟨s, hs, hinv.rootTerminals fun _ ht => ht.2⟩

/-- A run with an overlap, two mints, a reuse and a sentence boundary. -/
theorem root_spells_heard_overlap : ∃ s,
    [Op.analyze ["a", "a", "a", "", "a"], .sentence, .analyze ["a", "b", "c", "a", "b"], .flush,
      .analyze ["c", "a", "a"]].foldlM perform new = some s ∧
    s.rootTerminals = some ["a", "b", "c", "a", "b", "c", "a", "a"] :=
  root_spells_heard _ (by decide)

end Sequitur

end Symm.Tokenizer
