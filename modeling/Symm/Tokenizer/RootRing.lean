import Symm.Tokenizer.Descent
import Symm.Tokenizer.References

/-!
# The root ring over whole runs

A client may do more than feed tokens: it copies rules in one by one and
installs a saved root, with symbols of any kind. The root stays a ring and the
index keeps pointing into it, whatever the rules say.

- `Request`, `request`: everything a client can do to a grammar;
- `Shape.analyzeToken`, `Shape.restoreRoot`, `Shape.run`: each call returns and
  keeps the shape of the root;
- `root_is_ring`: what that says of the links, the length, the index and `Tail`;
- `replacement_ends`: how far the cascade of one appended token goes.

No soundness of the rules is asked for here, so that what a client installs may be
anything: rules that refer to themselves, symbols that look like references, bodies of
any length. The root is a ring all the same, since the primitives never look at what a
rule means.
-/

namespace Symm.Tokenizer.Sequitur

open Symm.Lib

variable {s s' t : Sequitur} {l l' : List Ptr}

/-- What a client asks of a grammar. -/
inductive Request
  | op (op : Op)
  | learn (id count : ℤ) (symbols : List String)
  | restoreRoot (symbols : List String)
  deriving Repr, DecidableEq

def request (s : Sequitur) : Request → Option Sequitur
  | .op op => s.perform op
  | .learn id count symbols => some (s.learn id count symbols)
  | .restoreRoot symbols => some (s.restoreRoot symbols)

/-! ## Analyze -/

/-- The state `check` is called in for a token. -/
def withToken (s : Sequitur) (token : String) : Sequitur :=
  { s.appendNode token with length := s.length + 1, pendingLen := s.pendingLen + 1 }

/-- The cascade one appended token starts. -/
theorem Shape.cascade (h : Shape s l) {token : String} (ht : token ≠ "") :
    ∃ s' o r l', logged (s.length + 1) (s.withToken token) ((s.withToken token).prev s.fresh) =
        some (s', o, r) ∧ Descends (s.withToken token) (l ++ [s.fresh]) r s' l' := by
  have h1 : Shape (s.withToken token) (l ++ [s.fresh]) := h.append ht
  refine cascades (s.length + 1) _ _ _ h1 (by simp) ?_ (.inl (h1.ring.prev_mem (by simp)))
  rw [h.length, List.length_append, List.length_singleton]

/-- A turn of `Analyze` returns, whatever the rules are. -/
theorem Shape.analyzeToken (h : Shape s l) (created : Option ℕ) (token : String) :
    ∃ s' r l', analyzeToken s created token = some (s', r) ∧ Shape s' l' := by
  by_cases hempty : token = ""
  · rw [Sequitur.analyzeToken, if_pos hempty]
    exact ⟨s, created, l, rfl, h⟩
  · obtain ⟨s', o, r, l', hlog, hd⟩ := h.cascade hempty
    have hturn := analyzeToken_of_check created hempty (check_of_logged hlog)
    cases o with
    | none => exact ⟨s', created, l', hturn, hd.shape⟩
    | some id => exact ⟨_, some id, l', hturn, hd.shape.of_eq rfl rfl rfl rfl rfl rfl⟩

/-- Analyzing tokens keeps the root a ring. -/
theorem Shape.analyze (h : Shape s l) (tokens : List String) :
    ∃ s' r l', s.analyze tokens = some (s', r) ∧ Shape s' l' := by
  have hloop : ∀ s l created, Shape s l → ∃ s' r l',
      tokens.foldlM (fun r token => Sequitur.analyzeToken r.1 r.2 token) (s, created) =
        some (s', r) ∧ Shape s' l' := by
    induction tokens with
    | nil => exact fun s l created h => ⟨s, created, l, rfl, h⟩
    | cons token tokens ih =>
      intro s l created h
      obtain ⟨s1, r1, l1, h1, hs1⟩ := h.analyzeToken created token
      obtain ⟨s', r, l', h', hs'⟩ := ih s1 l1 r1 hs1
      refine ⟨s', r, l', ?_, hs'⟩
      rw [List.foldlM_cons]
      simp only [h1]
      exact h'
  exact hloop _ l none (h.of_eq rfl rfl rfl rfl rfl rfl)

/-! ## RestoreRoot -/

theorem parseDisplay_ne_empty {symbol : String} (h : symbol ≠ "") : parseDisplay symbol ≠ "" := by
  unfold parseDisplay
  split
  · exact ruleSymbol_ne_empty _
  · exact h

/-- `prev` is the last root node, or there is none. -/
def Last (l : List Ptr) (prev : Ptr) : Prop :=
  (l = [] ∧ prev = nil) ∨ ∃ pre, l = pre ++ [prev]

/-- A turn of `RestoreRoot` indexes the pair it completes, where no entry and no
rule stands for it. -/
theorem Shape.restoreNode {r : Sequitur × Ptr} (h : Shape r.1 l) (hlast : Last l r.2)
    (symbol : String) :
    ∃ l', Shape (restoreNode r symbol).1 l' ∧ Last l' (restoreNode r symbol).2 := by
  by_cases hempty : symbol = ""
  · rw [Sequitur.restoreNode, if_pos hempty]
    exact ⟨l, h, hlast⟩
  · have h1 : Shape { r.1.appendNode (parseDisplay symbol) with length := r.1.length + 1 }
        (l ++ [r.1.fresh]) :=
      (h.append (parseDisplay_ne_empty hempty)).of_eq rfl rfl rfl rfl rfl rfl
    rw [Sequitur.restoreNode, if_neg hempty]
    dsimp only
    refine ⟨l ++ [r.1.fresh], ?_, .inr ⟨l, rfl⟩⟩
    split
    case isFalse => exact h1
    case isTrue hnew =>
      obtain ⟨pre, rfl⟩ : ∃ pre, l = pre ++ [r.2] :=
        hlast.resolve_left fun hnil => hnew.1 hnil.2
      rw [show pre ++ [r.2] ++ [r.1.fresh] = pre ++ [r.2, r.1.fresh] by simp] at h1 ⊢
      have hnext := h1.ring.next_pair
      have hi := h1.indexed (n := r.2) (by simp) (by rw [hnext]; exact h1.ne_sentinel (by simp))
      rw [hnext] at hi
      exact hi

/-- So does restoring a root, symbol by symbol. -/
theorem Shape.restoreRoot (h : Shape s l) (symbols : List String) :
    ∃ l', Shape (s.restoreRoot symbols) l' := by
  have hloop : ∀ (r : Sequitur × Ptr) l, Shape r.1 l → Last l r.2 →
      ∃ l', Shape (symbols.foldl Sequitur.restoreNode r).1 l' := by
    induction symbols with
    | nil => exact fun r l h _ => ⟨l, h⟩
    | cons symbol symbols ih =>
      intro r l h hlast
      obtain ⟨l1, h1, hlast1⟩ := h.restoreNode hlast symbol
      exact ih _ l1 h1 hlast1
  exact hloop _ [] h.sentence (.inl ⟨rfl, rfl⟩)

/-! ## Runs -/

/-- Every call returns and keeps the shape. -/
theorem Shape.request (h : Shape s l) (c : Request) : ∃ s' l', s.request c = some s' ∧ Shape s' l' := by
  cases c with
  | op op =>
    cases op with
    | analyze tokens =>
      obtain ⟨s', r, l', hs', h'⟩ := h.analyze tokens
      refine ⟨s', l', ?_, h'⟩
      rw [Sequitur.request, perform, hs']
      rfl
    | sentence => exact ⟨_, [], rfl, h.sentence⟩
    | flush => exact ⟨_, l, rfl, h.of_eq rfl rfl rfl rfl rfl rfl⟩
  | learn id count symbols => exact ⟨_, l, rfl, h.learn id count symbols⟩
  | restoreRoot symbols =>
    obtain ⟨l', h'⟩ := h.restoreRoot symbols
    exact ⟨_, l', rfl, h'⟩

/-- A whole run of calls returns and keeps the shape. -/
theorem Shape.run (h : Shape s l) (calls : List Request) :
    ∃ s' l', calls.foldlM Sequitur.request s = some s' ∧ Shape s' l' := by
  induction calls generalizing s l with
  | nil => exact ⟨s, l, rfl, h⟩
  | cons c calls ih =>
    obtain ⟨s1, l1, h1, hs1⟩ := h.request c
    obtain ⟨s', l', h', hs'⟩ := ih hs1
    refine ⟨s', l', ?_, hs'⟩
    rw [List.foldlM_cons, h1]
    exact h'

/-- `prev` reads the root backwards. -/
theorem Shape.walk_prev (h : Shape s l) :
    walk s.prev isSentinel s.fresh (s.prev sentinel) = l.reverse := by
  rw [walk_take h.ring.reverse (.inr rfl) fun p hp => h.not_isSentinel (List.mem_reverse.mp hp)]
  refine List.take_of_length_le ?_
  rw [List.length_reverse]
  exact h.length_lt.le

/-- After any calls the root is a ring, `length` counts its nodes, each index
entry points at a pair of root nodes that holds its digram, and `Tail` is the end
of `RootSequence`. -/
theorem root_is_ring (calls : List Request) :
    ∃ s, calls.foldlM request new = some s ∧ ∃ l, Ring s.next s.prev sentinel l ∧
      s.rootNodes = l ∧ walk s.prev isSentinel s.fresh (s.prev sentinel) = l.reverse ∧
      s.length = l.length ∧
      (∀ d m, s.digrams d = some m →
        m ∈ l ∧ s.next m ∈ l ∧ d = (s.val m, s.val (s.next m))) ∧
      ∀ n : ℤ, s.tail n =
        s.rootSequence.drop (s.rootSequence.length - min n.toNat s.length) := by
  obtain ⟨s, l, hs, h⟩ := shape_new.run calls
  refine ⟨s, hs, l, h.ring, h.rootNodes, h.walk_prev, h.length, ?_, ?_⟩
  · intro d m hm
    obtain ⟨hml, hmv, hkey⟩ := h.index d m hm
    exact ⟨hml, h.next_mem hml hmv, hkey⟩
  · intro n
    have hlen : s.rootSequence.length = l.length := by
      rw [h.rootSequence, List.length_map, List.length_map]
    rw [h.tail, hlen, h.length]
    congr 1
    omega

/-- The cascade of one appended token ends after any calls: no depth of recursion
beyond the length of the root matters, each call of `check` that recurses has
taken a node off the root, no replacement is skipped, and there are fewer
replacements than root nodes. -/
theorem replacement_ends (calls : List Request) (hs : calls.foldlM request new = some s)
    (token : String) (ht : token ≠ "") :
    ∃ s' o r, logged (s.withToken token).length (s.withToken token)
        ((s.withToken token).prev s.fresh) = some (s', o, r) ∧
      (∀ depth, (s.withToken token).length ≤ depth →
        check depth (s.withToken token) ((s.withToken token).prev s.fresh) = some (s', o)) ∧
      (∀ created, analyzeToken s created token =
        some (o.elim (s', created) fun id => ({ s' with pendingLen := 0 }, some id))) ∧
      (∀ x ∈ r.recursions, x.inner.rootNodes.length < x.outer.rootNodes.length) ∧
      (∀ x ∈ r.replacements, Pair x.state x.node ∧
        (x.state.substitute x.node x.id).rootNodes.length + 1 = x.state.rootNodes.length) ∧
      r.replacements.length ≤ (s.withToken token).length - 1 := by
  obtain ⟨s0, l, hs0, h⟩ := shape_new.run calls
  obtain rfl : s0 = s := Option.some.inj (hs0.symm.trans hs)
  obtain ⟨s', o, r, l', hlog, hd⟩ := h.cascade ht
  have hcheck := check_of_logged hlog
  refine ⟨s', o, r, hlog, fun depth hle => check_mono hle hcheck,
    fun created => analyzeToken_of_check created ht hcheck, hd.shorter, hd.replaced, ?_⟩
  have hpos : 0 < l'.length := List.length_pos_iff.mpr hd.nonempty
  have hcount := hd.count
  rw [List.length_append, List.length_singleton, ← h.length] at hcount
  show r.replacements.length ≤ s0.length + 1 - 1
  omega

/-- A copied rule replaces the pair the token completes. -/
theorem replacement_ends_reuse :
    ∃ s, [Request.learn 7 2 ["a", "b"], .restoreRoot ["M9", "a"]].foldlM request new = some s ∧
      s.rootSequence = ["M9", "a"] ∧
      ∃ s' o r, logged (s.withToken "b").length (s.withToken "b")
          ((s.withToken "b").prev s.fresh) = some (s', o, r) ∧
        r.replacements.length ≤ (s.withToken "b").length - 1 := by
  have hroot : ([Request.learn 7 2 ["a", "b"], .restoreRoot ["M9", "a"]].foldlM request new).map
      rootSequence = some ["M9", "a"] := by decide +kernel
  obtain ⟨s, hs, hseq⟩ := Option.map_eq_some_iff.mp hroot
  obtain ⟨s', o, r, hlog, -, -, -, -, hle⟩ :=
    replacement_ends _ hs "b" (by decide)
  exact ⟨s, hs, hseq, s', o, r, hlog, hle⟩

end Symm.Tokenizer.Sequitur
