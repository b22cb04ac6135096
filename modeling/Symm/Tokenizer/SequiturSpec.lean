import Mathlib.Data.List.Perm.Subperm
import Symm.Tokenizer.Sequitur

/-!
# What the grammar's primitives do

- `Shape s l`: the root is a ring over the nodes `l`, `length` counts them, and
  every entry of the digram index points at a pair of adjacent root nodes that
  hold the digram;
- `Shape.substitute`, `Shape.append`, `Shape.index`, `shape_sentence`: the
  primitives keep the shape, with the new ring spelled out;
- `check_cases`: what a call of `check` on a pair of root nodes can do;
- `tail_eq`, `rootSequence_eq`: what clients read of a well-shaped root.

Nothing after this module unfolds `substitute` or `appendNode` again. A replacement
makes two nodes of the ring into one, so the ring lemmas of `Lib.Ring` say where the
links go, and what is left to show of the index is that no entry points at the node that
went: `forgetNode` has seen to the three pairs that the two nodes were in.

`check` is called on nodes of the root only. That is a fact about its callers, so
`check_cases` asks for it and every lemma about a caller hands it over.
-/

namespace Symm.Tokenizer

open Symm.Lib

namespace Sequitur

/-! ## The heap -/

section Heap

variable (s : Sequitur) (p q : Ptr) (v : Symbol) (node : Node)

@[simp] theorem nextID_setNode : (s.setNode p node).nextID = s.nextID := rfl

@[simp] theorem rules_setNode : (s.setNode p node).rules = s.rules := rfl

@[simp] theorem digrams_setNode : (s.setNode p node).digrams = s.digrams := rfl

@[simp] theorem ruleByDigram_setNode : (s.setNode p node).ruleByDigram = s.ruleByDigram := rfl

@[simp] theorem fresh_setNode : (s.setNode p node).fresh = s.fresh := rfl

@[simp] theorem length_setNode : (s.setNode p node).length = s.length := rfl

@[simp] theorem lastKind_setNode : (s.setNode p node).lastKind = s.lastKind := rfl

@[simp] theorem val_setNode : (s.setNode p node).val = Function.update s.val p node.val := by
  funext r
  by_cases h : r = p
  · subst h
    simp [val, setNode]
  · simp [val, setNode, h]

@[simp] theorem next_setNode : (s.setNode p node).next = Function.update s.next p node.next := by
  funext r
  by_cases h : r = p
  · subst h
    simp [next, setNode]
  · simp [next, setNode, h]

@[simp] theorem prev_setNode : (s.setNode p node).prev = Function.update s.prev p node.prev := by
  funext r
  by_cases h : r = p
  · subst h
    simp [prev, setNode]
  · simp [prev, setNode, h]

@[simp] theorem val_setVal : (s.setVal p v).val = Function.update s.val p v :=
  val_setNode s p _

@[simp] theorem next_setVal : (s.setVal p v).next = s.next := by
  rw [setVal, next_setNode]
  exact Function.update_eq_self p s.next

@[simp] theorem prev_setVal : (s.setVal p v).prev = s.prev := by
  rw [setVal, prev_setNode]
  exact Function.update_eq_self p s.prev

@[simp] theorem val_setNext : (s.setNext p q).val = s.val := by
  rw [setNext, val_setNode]
  exact Function.update_eq_self p s.val

@[simp] theorem next_setNext : (s.setNext p q).next = Function.update s.next p q :=
  next_setNode s p _

@[simp] theorem prev_setNext : (s.setNext p q).prev = s.prev := by
  rw [setNext, prev_setNode]
  exact Function.update_eq_self p s.prev

@[simp] theorem val_setPrev : (s.setPrev p q).val = s.val := by
  rw [setPrev, val_setNode]
  exact Function.update_eq_self p s.val

@[simp] theorem next_setPrev : (s.setPrev p q).next = s.next := by
  rw [setPrev, next_setNode]
  exact Function.update_eq_self p s.next

@[simp] theorem prev_setPrev : (s.setPrev p q).prev = Function.update s.prev p q :=
  prev_setNode s p _

@[simp] theorem val_withLength (n : ℕ) : val { s with length := n } = s.val := rfl

@[simp] theorem next_withLength (n : ℕ) : next { s with length := n } = s.next := rfl

@[simp] theorem prev_withLength (n : ℕ) : prev { s with length := n } = s.prev := rfl

end Heap

section Append

variable (s : Sequitur) (token : Symbol)

theorem val_appendNode : (s.appendNode token).val = Function.update s.val s.fresh token := by
  simp only [appendNode, val_setPrev, val_setNext, val_setNode]
  rfl

theorem next_appendNode : (s.appendNode token).next =
    Function.update (Function.update s.next s.fresh sentinel) (s.prev sentinel) s.fresh := by
  simp only [appendNode, next_setPrev, next_setNext, next_setNode]
  rfl

theorem prev_appendNode : (s.appendNode token).prev =
    Function.update (Function.update s.prev s.fresh (s.prev sentinel)) sentinel s.fresh := by
  simp only [appendNode, prev_setPrev, prev_setNext, prev_setNode]
  rfl

end Append

/-! ## Forgetting and substituting -/

/-- Forgetting a digram changes the index alone. -/
theorem forgetDigram_eq (s : Sequitur) (d : Digram) (n : Ptr) :
    s.forgetDigram d n = { s with digrams := (s.forgetDigram d n).digrams } := by
  unfold forgetDigram
  split <;> rfl

/-- It takes the entry off if it points at the node, and no other. -/
theorem forgetDigram_digrams (s : Sequitur) (d d' : Digram) (n m : Ptr) :
    (s.forgetDigram d n).digrams d' = some m ↔ s.digrams d' = some m ∧ ¬ (d' = d ∧ m = n) := by
  unfold forgetDigram
  split
  case isTrue h =>
    by_cases hd : d' = d
    · subst hd
      simp [h, eq_comm]
    · simp [hd]
  case isFalse h =>
    refine ⟨fun hm => ⟨hm, ?_⟩, And.left⟩
    rintro ⟨rfl, rfl⟩
    exact h hm

/-- The entries a node loses, whatever they point at. -/
theorem forgetNode_digrams (s : Sequitur) {n : Ptr} (hn : ¬ isSentinel n) (d : Digram) (m : Ptr) :
    (s.forgetNode n).digrams d = some m ↔ s.digrams d = some m ∧
      (¬ isSentinel (s.prev n) → ¬ (d = (s.val (s.prev n), s.val n) ∧ m = s.prev n)) ∧
      (¬ isSentinel (s.next n) → ¬ (d = (s.val n, s.val (s.next n)) ∧ m = n)) := by
  simp only [forgetNode, if_neg hn]
  by_cases hp : isSentinel (s.prev n)
  · simp only [if_pos hp]
    by_cases hv : isSentinel (s.next n)
    · simp [hp, hv]
    · simp [hp, hv, forgetDigram_digrams]
  · have hback := forgetDigram_eq s (s.val (s.prev n), s.val n) (s.prev n)
    have hnext : (s.forgetDigram (s.val (s.prev n), s.val n) (s.prev n)).next = s.next := by
      rw [hback]
      rfl
    have hval : (s.forgetDigram (s.val (s.prev n), s.val n) (s.prev n)).val = s.val := by
      rw [hback]
      rfl
    simp only [if_neg hp, hnext, hval]
    by_cases hv : isSentinel (s.next n)
    · simp [hp, hv, forgetDigram_digrams]
    · simp [hp, hv, forgetDigram_digrams, and_assoc]

/-- Forgetting a node changes nothing but the index. -/
theorem forgetNode_eq (s : Sequitur) (n : Ptr) :
    s.forgetNode n = { s with digrams := (s.forgetNode n).digrams } := by
  unfold forgetNode
  split
  · rfl
  · dsimp only
    split <;> split
    · rfl
    · exact forgetDigram_eq _ _ _
    · exact forgetDigram_eq _ _ _
    · rw [forgetDigram_eq, forgetDigram_eq s]

section Forget

variable (s : Sequitur) (n : Ptr)

@[simp] theorem val_forgetNode : (s.forgetNode n).val = s.val := by
  rw [forgetNode_eq]
  rfl

@[simp] theorem next_forgetNode : (s.forgetNode n).next = s.next := by
  rw [forgetNode_eq]
  rfl

@[simp] theorem prev_forgetNode : (s.forgetNode n).prev = s.prev := by
  rw [forgetNode_eq]
  rfl

@[simp] theorem length_forgetNode : (s.forgetNode n).length = s.length := by
  rw [forgetNode_eq]

@[simp] theorem rules_forgetNode : (s.forgetNode n).rules = s.rules := by
  rw [forgetNode_eq]

@[simp] theorem ruleByDigram_forgetNode : (s.forgetNode n).ruleByDigram = s.ruleByDigram := by
  rw [forgetNode_eq]

@[simp] theorem nextID_forgetNode : (s.forgetNode n).nextID = s.nextID := by
  rw [forgetNode_eq]

@[simp] theorem fresh_forgetNode : (s.forgetNode n).fresh = s.fresh := by
  rw [forgetNode_eq]

@[simp] theorem lastKind_forgetNode : (s.forgetNode n).lastKind = s.lastKind := by
  rw [forgetNode_eq]

end Forget

section Substitute

variable {s : Sequitur} {n : Ptr} {id : ℕ}

/-- What `substitute` needs: the pair and the node behind it are there. -/
structure Pair (s : Sequitur) (n : Ptr) : Prop where
  node : n ≠ nil
  victim : s.next n ≠ nil
  after : s.next (s.next n) ≠ nil

theorem Pair.not_guard (h : Pair s n) :
    ¬ (n = nil ∨ s.next n = nil ∨ s.next (s.next n) = nil) := by
  rintro (h1 | h1 | h1)
  · exact h.node h1
  · exact h.victim h1
  · exact h.after h1

/-- Of a pair that is substituted the first node stays, with the symbol of the rule. -/
theorem val_substitute (h : Pair s n) :
    (s.substitute n id).val = Function.update s.val n (ruleSymbol id) := by
  simp only [substitute, if_neg h.not_guard, val_withLength]
  simp

/-- The first node of a pair is linked to what came after the second. -/
theorem next_substitute (h : Pair s n) : (s.substitute n id).next =
    Function.update (Function.update s.next n (s.next (s.next n))) (s.next n) nil := by
  simp only [substitute, if_neg h.not_guard, next_withLength]
  simp

/-- What came after the second node is linked back to the first. -/
theorem prev_substitute (h : Pair s n) : (s.substitute n id).prev =
    Function.update (Function.update s.prev (s.next (s.next n)) n) (s.next n) nil := by
  simp only [substitute, if_neg h.not_guard, prev_withLength]
  simp

/-- Both nodes are forgotten in the index. -/
theorem digrams_substitute (h : Pair s n) :
    (s.substitute n id).digrams = ((s.forgetNode n).forgetNode (s.next n)).digrams := by
  simp only [substitute, if_neg h.not_guard, setVal, setNext, setPrev, digrams_setNode,
    next_forgetNode]

/-- The root is one symbol shorter. -/
theorem length_substitute (h : Pair s n) : (s.substitute n id).length = s.length - 1 := by
  simp only [substitute, if_neg h.not_guard, setVal, setNext, setPrev, length_setNode,
    length_forgetNode]

@[simp] theorem rules_substitute : (s.substitute n id).rules = s.rules := by
  unfold substitute
  split
  · rfl
  · simp only [setVal, setNext, setPrev, rules_setNode, rules_forgetNode]

@[simp] theorem ruleByDigram_substitute :
    (s.substitute n id).ruleByDigram = s.ruleByDigram := by
  unfold substitute
  split
  · rfl
  · simp only [setVal, setNext, setPrev, ruleByDigram_setNode, ruleByDigram_forgetNode]

/-- A substitution leaves the rule of every digram. -/
theorem ruled_substitute (d : Digram) : (s.substitute n id).ruled d = s.ruled d := by
  unfold ruled ruleOf
  rw [ruleByDigram_substitute, rules_substitute]

@[simp] theorem nextID_substitute : (s.substitute n id).nextID = s.nextID := by
  unfold substitute
  split
  · rfl
  · simp only [setVal, setNext, setPrev, nextID_setNode, nextID_forgetNode]

@[simp] theorem fresh_substitute : (s.substitute n id).fresh = s.fresh := by
  unfold substitute
  split
  · rfl
  · simp only [setVal, setNext, setPrev, fresh_setNode, fresh_forgetNode]

@[simp] theorem lastKind_substitute : (s.substitute n id).lastKind = s.lastKind := by
  unfold substitute
  split
  · rfl
  · simp only [setVal, setNext, setPrev, lastKind_setNode, lastKind_forgetNode]

end Substitute

/-! ## The shape of the root -/

/-- The root is a ring over the nodes `l`, and the index points into it. -/
structure Shape (s : Sequitur) (l : List Ptr) : Prop where
  ring : Ring s.next s.prev sentinel l
  alloc : ∀ p ∈ l, sentinel < p ∧ p < s.fresh
  fresh : sentinel < s.fresh
  length : s.length = l.length
  blank : s.val sentinel = ""
  filled : ∀ p ∈ l, s.val p ≠ ""
  index : ∀ d m, s.digrams d = some m →
    m ∈ l ∧ s.next m ≠ sentinel ∧ d = (s.val m, s.val (s.next m))

/-- A node taken out of the root: `substitute` has cleared its links. -/
def Detached (s : Sequitur) (p : Ptr) : Prop := s.next p = nil

/-- What a substitution at the root node `n` does to the root and the index. -/
structure Spliced (s : Sequitur) (l : List Ptr) (n : Ptr) (id : ℕ) (l' : List Ptr) : Prop where
  shape : Shape (s.substitute n id) l'
  length : l'.length + 1 = l.length
  mem : ∀ p, p ∈ l' ↔ p ∈ l ∧ p ≠ s.next n
  val : (s.substitute n id).val = Function.update s.val n (ruleSymbol id)
  next : ∀ p, p ≠ n → p ≠ s.next n → (s.substitute n id).next p = s.next p
  victim : Detached (s.substitute n id) (s.next n)
  detached : ∀ p, Detached s p → Detached (s.substitute n id) p
  digrams : ∀ d m, (s.substitute n id).digrams d = some m → s.digrams d = some m

namespace Shape

variable {s : Sequitur} {l pre post : List Ptr} {n v : Ptr}

/-- The nodes of a root are no sentinels. -/
theorem not_isSentinel (h : Shape s l) (hn : n ∈ l) : ¬ isSentinel n := by
  have := (h.alloc n hn).1
  rintro (rfl | rfl)
  · exact absurd this (by decide)
  · exact lt_irrefl _ this

theorem ne_nil (h : Shape s l) (hn : n ∈ sentinel :: l) : n ≠ nil := by
  rcases List.mem_cons.mp hn with rfl | hn
  · decide
  · exact fun heq => h.not_isSentinel hn (Or.inl heq)

theorem ne_sentinel (h : Shape s l) (hn : n ∈ l) : n ≠ sentinel :=
  fun heq => h.not_isSentinel hn (Or.inr heq)

theorem next_ne_nil (h : Shape s l) (hn : n ∈ sentinel :: l) : s.next n ≠ nil :=
  h.ne_nil (h.ring.next_mem hn)

/-- A neighbour is a root node unless it is the sentinel. -/
theorem isSentinel_next (h : Shape s l) (hn : n ∈ sentinel :: l) :
    isSentinel (s.next n) ↔ s.next n = sentinel :=
  or_iff_right (h.next_ne_nil hn)

theorem isSentinel_prev (h : Shape s l) (hn : n ∈ sentinel :: l) :
    isSentinel (s.prev n) ↔ s.prev n = sentinel :=
  or_iff_right (h.ne_nil (h.ring.prev_mem hn))

theorem next_mem (h : Shape s l) (hn : n ∈ l) (hv : s.next n ≠ sentinel) : s.next n ∈ l :=
  (List.mem_cons.mp (h.ring.next_mem (List.mem_cons_of_mem _ hn))).resolve_left hv

theorem prev_mem (h : Shape s l) (hn : n ∈ l) (hv : s.prev n ≠ sentinel) : s.prev n ∈ l :=
  (List.mem_cons.mp (h.ring.prev_mem (List.mem_cons_of_mem _ hn))).resolve_left hv

/-- A detached node is not in the root. -/
theorem notMem_of_detached (h : Shape s l) (hd : Detached s n) : n ∉ sentinel :: l :=
  fun hn => h.next_ne_nil hn hd

/-- Neighbours in the root are a pair. -/
theorem pair (h : Shape s (pre ++ n :: v :: post)) : Pair s n := by
  have hn : n ∈ pre ++ n :: v :: post := by simp
  have hv : v ∈ pre ++ n :: v :: post := by simp
  have hnext := h.ring.next_pair
  refine ⟨h.ne_nil (List.mem_cons_of_mem _ hn), h.next_ne_nil (List.mem_cons_of_mem _ hn), ?_⟩
  rw [hnext]
  exact h.next_ne_nil (List.mem_cons_of_mem _ hv)

/-- A smaller index on the same heap. -/
theorem shrink {D : Digram → Option Ptr} (h : Shape s l)
    (hD : ∀ d m, D d = some m → s.digrams d = some m) : Shape { s with digrams := D } l :=
  ⟨h.ring, h.alloc, h.fresh, h.length, h.blank, h.filled, fun d m hm => h.index d m (hD d m hm)⟩

/-- The index entry `check` leaves for a digram it has not seen. -/
theorem indexed (h : Shape s l) (hn : n ∈ l) (hv : s.next n ≠ sentinel) :
    Shape { s with digrams :=
      Function.update s.digrams (s.val n, s.val (s.next n)) (some n) } l := by
  refine ⟨h.ring, h.alloc, h.fresh, h.length, h.blank, h.filled, fun d m hm => ?_⟩
  by_cases hd : d = (s.val n, s.val (s.next n))
  · subst hd
    obtain rfl : n = m := by simpa using hm
    exact ⟨hn, hv, rfl⟩
  · exact h.index d m (by simpa [hd] using hm)

/-- Changes outside the root do not matter. -/
theorem of_eq {t : Sequitur} (h : Shape s l) (hnext : t.next = s.next) (hprev : t.prev = s.prev)
    (hval : t.val = s.val) (hfresh : t.fresh = s.fresh) (hlen : t.length = s.length)
    (hD : t.digrams = s.digrams) : Shape t l where
  ring := by
    rw [hnext, hprev]
    exact h.ring
  alloc := by
    rw [hfresh]
    exact h.alloc
  fresh := by
    rw [hfresh]
    exact h.fresh
  length := by
    rw [hlen]
    exact h.length
  blank := by
    rw [hval]
    exact h.blank
  filled := by
    rw [hval]
    exact h.filled
  index := by
    rw [hD, hnext, hval]
    exact h.index

/-! ### Forgetting -/

/-- No index entry starts at a forgotten node or right before it, and no other
entry is lost. -/
theorem forgetNode_digrams (h : Shape s l) (hn : n ∈ l) (d : Digram) (m : Ptr) :
    (s.forgetNode n).digrams d = some m ↔ s.digrams d = some m ∧ m ≠ n ∧ m ≠ s.prev n := by
  have hn' : n ∈ sentinel :: l := List.mem_cons_of_mem _ hn
  have hback : s.next (s.prev n) = n := h.ring.next_prev hn'
  rw [Sequitur.forgetNode_digrams s (h.not_isSentinel hn), h.isSentinel_prev hn',
    h.isSentinel_next hn']
  refine and_congr_right fun hm => ?_
  -- by the index invariant, the key of an entry is the pair it points at
  obtain ⟨hmem, hlast, hkey⟩ := h.index d m hm
  constructor
  · rintro ⟨h1, h2⟩
    constructor
    · rintro rfl
      exact h2 hlast ⟨hkey, rfl⟩
    · rintro rfl
      rw [hback] at hkey
      exact h1 (h.ne_sentinel hmem) ⟨hkey, rfl⟩
  · rintro ⟨h1, h2⟩
    exact ⟨fun _ hd => h2 hd.2, fun _ hd => h1 hd.2⟩

/-- Forgetting digrams keeps the shape: entries only get fewer. -/
theorem forgetNode (h : Shape s l) (hn : n ∈ l) : Shape (s.forgetNode n) l := by
  rw [forgetNode_eq]
  exact h.shrink fun d m hm => ((h.forgetNode_digrams hn d m).mp hm).1

/-! ### Substituting -/

/-- The entries left after a substitution start neither at the pair nor right
before it. -/
theorem substitute_digrams {id : ℕ} (h : Shape s (pre ++ n :: v :: post)) (d : Digram) (m : Ptr) :
    (s.substitute n id).digrams d = some m ↔
      s.digrams d = some m ∧ m ≠ s.prev n ∧ m ≠ n ∧ m ≠ v := by
  have hn : n ∈ pre ++ n :: v :: post := by simp
  have hv : v ∈ pre ++ n :: v :: post := by simp
  rw [digrams_substitute h.pair, h.ring.next_pair, (h.forgetNode hn).forgetNode_digrams hv,
    h.forgetNode_digrams hn, prev_forgetNode, h.ring.prev_pair]
  tauto

/-- Substituting at a pair of root nodes takes the second out of the root. -/
theorem substitute {id : ℕ} (h : Shape s (pre ++ n :: v :: post)) :
    Shape (s.substitute n id) (pre ++ n :: post) := by
  have hnext : s.next n = v := h.ring.next_pair
  have hne : n ≠ v := by
    have := h.ring.next_ne_self (n := n) (by simp)
    rw [hnext] at this
    exact this.symm
  have hsub : ∀ p ∈ pre ++ n :: post, p ∈ pre ++ n :: v :: post := by
    intro p hp
    simp only [List.mem_append, List.mem_cons] at hp ⊢
    tauto
  have hv : v ∉ pre ++ n :: post := by
    have := h.ring.nodup_tail
    simp only [List.nodup_append, List.nodup_cons, List.mem_cons, List.mem_append] at this ⊢
    rintro (hp | rfl | hp)
    · exact this.2.2 v hp v (by simp) rfl
    · exact this.2.1.1 (by simp)
    · exact this.2.1.2.1 hp
  have hafter : s.next v ≠ v := h.ring.next_ne_self (by simp)
  constructor
  · rw [next_substitute h.pair, prev_substitute h.pair, hnext]
    apply h.ring.remove
    · simp [hne]
    · simp [hafter]
    · intro p h1 h2
      simp [h1, h2]
    · intro p h1 h2
      simp [h1, h2]
  · intro p hp
    rw [fresh_substitute]
    exact h.alloc p (hsub p hp)
  · rw [fresh_substitute]
    exact h.fresh
  · rw [length_substitute h.pair, h.length]
    simp only [List.length_append, List.length_cons]
    omega
  · rw [val_substitute h.pair, Function.update_of_ne]
    · exact h.blank
    · exact (h.ne_sentinel (n := n) (by simp)).symm
  · intro p hp
    rw [val_substitute h.pair]
    by_cases heq : p = n
    · subst heq
      simpa using ruleSymbol_ne_empty id
    · simpa [heq] using h.filled p (hsub p hp)
  -- the entries the substitution would falsify are forgotten by it
  · intro d m hm
    obtain ⟨hd, hprev, hmn, hmv⟩ := (h.substitute_digrams d m).mp hm
    obtain ⟨hmem, hlast, hkey⟩ := h.index d m hd
    have hnn : s.next m ≠ n := by
      rintro rfl
      exact hprev (h.ring.prev_next (List.mem_cons_of_mem _ hmem)).symm
    have hm' : (s.substitute n id).next m = s.next m := by
      rw [next_substitute h.pair, hnext]
      simp [hmn, hmv]
    refine ⟨?_, ?_, ?_⟩
    · simp only [List.mem_append, List.mem_cons] at hmem ⊢
      tauto
    · rw [hm']
      exact hlast
    · rw [hm', val_substitute h.pair]
      simp [hmn, hnn, hkey]

/-- The root symbols after a substitution. -/
theorem map_substitute {id : ℕ} (h : Shape s (pre ++ n :: v :: post)) :
    (pre ++ n :: post).map (s.substitute n id).val =
      pre.map s.val ++ ruleSymbol id :: post.map s.val := by
  have hd := h.ring.nodup_tail
  simp only [List.nodup_append, List.nodup_cons, List.mem_cons] at hd
  rw [val_substitute h.pair, List.map_append, List.map_cons, Function.update_self]
  congr 1
  · refine List.map_congr_left fun p hp => Function.update_of_ne ?_ _ _
    rintro rfl
    exact hd.2.2 p hp p (Or.inl rfl) rfl
  · congr 1
    refine List.map_congr_left fun p hp => Function.update_of_ne ?_ _ _
    rintro rfl
    exact hd.2.1.1 (Or.inr hp)

/-- The second node of the pair is detached. -/
theorem detached_victim {id : ℕ} (h : Shape s (pre ++ n :: v :: post)) :
    Detached (s.substitute n id) v := by
  rw [Detached, next_substitute h.pair, h.ring.next_pair, Function.update_self]

/-- A detached node stays detached. -/
theorem detached_substitute {id : ℕ} {p : Ptr} (h : Shape s (pre ++ n :: v :: post))
    (hp : Detached s p) : Detached (s.substitute n id) p := by
  have hpn : p ≠ n := by
    rintro rfl
    exact h.notMem_of_detached hp (by simp)
  rw [Detached, next_substitute h.pair, h.ring.next_pair]
  by_cases hpv : p = v
  · rw [hpv, Function.update_self]
  · rw [Function.update_of_ne hpv, Function.update_of_ne hpn]
    exact hp

/-- Substituting at a root node that has a successor. -/
theorem spliced (h : Shape s l) (hn : n ∈ l) (hv : s.next n ≠ sentinel) (id : ℕ) :
    ∃ pre post, l = pre ++ n :: s.next n :: post ∧ Spliced s l n id (pre ++ n :: post) := by
  obtain ⟨pre, post, hl⟩ := h.ring.exists_pair hn hv
  refine ⟨pre, post, hl, ?_⟩
  rw [hl] at h
  constructor
  · exact h.substitute
  · rw [hl]
    simp only [List.length_append, List.length_cons]
    omega
  -- no node repeats, so the nodes that are left are those other than the one that went
  · have hd := h.ring.nodup_tail
    simp only [List.nodup_append, List.nodup_cons, List.mem_cons] at hd
    intro p
    rw [hl]
    simp only [List.mem_append, List.mem_cons]
    constructor
    · rintro (hp | rfl | hp)
      · exact ⟨Or.inl hp, fun heq => hd.2.2 p hp (s.next n) (by simp) heq⟩
      · exact ⟨Or.inr (Or.inl rfl), fun heq => hd.2.1.1 (Or.inl heq)⟩
      · refine ⟨Or.inr (Or.inr (Or.inr hp)), ?_⟩
        rintro rfl
        exact hd.2.1.2.1 hp
    · tauto
  · exact val_substitute h.pair
  · intro p h1 h2
    rw [next_substitute h.pair, Function.update_of_ne h2, Function.update_of_ne h1]
  · exact h.detached_victim
  · exact fun p hp => h.detached_substitute hp
  · exact fun d m hm => ((h.substitute_digrams d m).mp hm).1

/-! ### Appending and clearing -/

theorem last_ne (h : Shape s l) : s.prev sentinel ≠ s.fresh := by
  have hmem := h.ring.prev_mem (n := sentinel) List.mem_cons_self
  have := h.fresh
  rcases List.mem_cons.mp hmem with heq | hmem
  · rw [heq]
    exact this.ne
  · exact (h.alloc _ hmem).2.ne

/-- A token that is appended is the last node of the ring. -/
theorem append {token : String} (h : Shape s l) (ht : token ≠ "") :
    Shape { s.appendNode token with
      length := s.length + 1, pendingLen := s.pendingLen + 1 } (l ++ [s.fresh]) := by
  have hfresh : s.fresh ∉ sentinel :: l := by
    intro hmem
    rcases List.mem_cons.mp hmem with heq | hmem
    · exact absurd h.fresh (by rw [heq]; exact lt_irrefl _)
    · exact lt_irrefl _ (h.alloc _ hmem).2
  have hsent : s.fresh ≠ sentinel := fun heq => hfresh (by rw [heq]; exact List.mem_cons_self)
  have hlast := h.last_ne
  have hval := val_appendNode s token
  have hnext := next_appendNode s token
  have hprev := prev_appendNode s token
  have hold : ∀ p ∈ l, p ≠ s.fresh := fun p hp heq => hfresh (List.mem_cons_of_mem _ (heq ▸ hp))
  constructor
  · show Ring (s.appendNode token).next (s.appendNode token).prev sentinel (l ++ [s.fresh])
    rw [hnext, hprev]
    apply h.ring.snoc hfresh
    · simp
    · simp [hlast.symm]
    · simp [hsent]
    · simp
    · intro p h1 h2
      simp [h1, h2]
    · intro p h1 h2
      simp [h1, h2]
  · intro p hp
    show sentinel < p ∧ p < s.fresh + 1
    rcases List.mem_append.mp hp with hp | hp
    · exact ⟨(h.alloc p hp).1, (h.alloc p hp).2.trans (Nat.lt_succ_self _)⟩
    · rw [List.mem_singleton.mp hp]
      exact ⟨h.fresh, Nat.lt_succ_self _⟩
  · exact h.fresh.trans (Nat.lt_succ_self _)
  · rw [List.length_append, ← h.length]
    rfl
  · show (s.appendNode token).val sentinel = ""
    rw [hval, Function.update_of_ne hsent.symm]
    exact h.blank
  · intro p hp
    show (s.appendNode token).val p ≠ ""
    rw [hval]
    rcases List.mem_append.mp hp with hp | hp
    · rw [Function.update_of_ne (hold p hp)]
      exact h.filled p hp
    · rw [List.mem_singleton.mp hp, Function.update_self]
      exact ht
  · intro d m hm
    -- the node that gets a successor had none, so it starts no entry
    obtain ⟨hmem, hne, hkey⟩ := h.index d m hm
    have hml : m ≠ s.prev sentinel := by
      rintro rfl
      exact hne (h.ring.next_prev List.mem_cons_self)
    have hm' : (s.appendNode token).next m = s.next m := by
      rw [hnext, Function.update_of_ne hml, Function.update_of_ne (hold m hmem)]
    refine ⟨List.mem_append_left _ hmem, ?_, ?_⟩
    · show (s.appendNode token).next m ≠ sentinel
      rw [hm']
      exact hne
    · show d = ((s.appendNode token).val m,
        (s.appendNode token).val ((s.appendNode token).next m))
      rw [hm', hval, Function.update_of_ne (hold m hmem),
        Function.update_of_ne (hold _ (h.next_mem hmem hne))]
      exact hkey

/-- The root symbols after an append. -/
theorem map_append {token : String} (h : Shape s l) :
    (l ++ [s.fresh]).map (s.appendNode token).val = l.map s.val ++ [token] := by
  rw [val_appendNode, List.map_append, List.map_singleton, Function.update_self]
  congr 1
  refine List.map_congr_left fun p hp => Function.update_of_ne ?_ _ _
  exact (h.alloc p hp).2.ne

/-- The appended node follows the old last one. -/
theorem prev_append {token : String} (h : Shape s l) :
    (s.appendNode token).prev s.fresh = s.prev sentinel := by
  have hsent : s.fresh ≠ sentinel := h.fresh.ne'
  rw [prev_appendNode, Function.update_of_ne hsent, Function.update_self]

/-- Clearing the root leaves an empty ring and an empty index. -/
theorem sentence (h : Shape s l) : Shape s.sentence [] := by
  have hval : (s.sentence).val = s.val := by
    show ((s.setNext sentinel sentinel).setPrev sentinel sentinel).val = s.val
    rw [val_setPrev, val_setNext]
  constructor
  · show Ring ((s.setNext sentinel sentinel).setPrev sentinel sentinel).next
      ((s.setNext sentinel sentinel).setPrev sentinel sentinel).prev sentinel []
    rw [next_setPrev, next_setNext, prev_setPrev, prev_setNext]
    exact Ring.empty (Function.update_self ..) (Function.update_self ..)
  · intro p hp
    cases hp
  · exact h.fresh
  · rfl
  · rw [hval]
    exact h.blank
  · intro p hp
    cases hp
  · intro d m hm
    cases hm

end Shape

/-- A new root is an empty ring. -/
theorem shape_new : Shape new [] := by
  constructor
  · exact Ring.empty rfl rfl
  · intro p hp
    cases hp
  · exact Nat.lt_succ_self _
  · rfl
  · rfl
  · intro p hp
    cases hp
  · intro d m hm
    cases hm

/-- A token is appended and the pair it ends is checked; a rule in it clears the
pending length. -/
theorem analyzeToken_of_check {s s' : Sequitur} {token : String} {r : Option ℕ}
    (created : Option ℕ) (hempty : token ≠ "")
    (h : check (s.length + 1)
      { s.appendNode token with length := s.length + 1, pendingLen := s.pendingLen + 1 }
      ((s.appendNode token).prev s.fresh) = some (s', r)) :
    analyzeToken s created token =
      some (r.elim (s', created) fun id => ({ s' with pendingLen := 0 }, some id)) := by
  rw [analyzeToken, if_neg hempty]
  dsimp only
  split
  · rename_i heq
    cases heq.symm.trans h
  · rename_i heq
    cases heq.symm.trans h
    rfl
  · rename_i heq
    cases heq.symm.trans h
    rfl

/-! ## What clients read -/

section Read

variable {s : Sequitur} {l : List Ptr}

/-- The root has fewer nodes than were ever allocated. -/
theorem Shape.length_lt (h : Shape s l) : l.length < s.fresh := by
  have hsub : l ⊆ List.range s.fresh := fun p hp => List.mem_range.mpr (h.alloc p hp).2
  have hnil : nil ∉ l := fun hmem => h.not_isSentinel hmem (Or.inl rfl)
  have hfull : nil :: l ⊆ List.range s.fresh := by
    intro p hp
    rcases List.mem_cons.mp hp with rfl | hp
    · exact List.mem_range.mpr (Nat.zero_lt_of_lt h.fresh)
    · exact hsub hp
  have := (List.subperm_of_subset (List.nodup_cons.mpr ⟨hnil, h.ring.nodup_tail⟩) hfull).length_le
  rw [List.length_range] at this
  exact this

/-- Walking the root sees its nodes. -/
theorem Shape.rootNodes (h : Shape s l) : s.rootNodes = l := by
  rw [Sequitur.rootNodes, walk_take h.ring (Or.inr rfl) fun p hp => h.not_isSentinel hp]
  exact List.take_of_length_le h.length_lt.le

theorem Shape.rootSequence (h : Shape s l) :
    s.rootSequence = (l.map s.val).map display := by
  rw [Sequitur.rootSequence, h.rootNodes, List.map_map]
  rfl

/-- `Tail(n)` is the end of `RootSequence`. -/
theorem Shape.tail (h : Shape s l) (n : ℤ) :
    s.tail n = s.rootSequence.drop (l.length - n.toNat) := by
  rw [h.rootSequence, Sequitur.tail]
  split
  case isTrue hn =>
    rw [List.drop_eq_nil_of_le]
    rw [List.length_map, List.length_map]
    rcases hn with hn | hn
    · omega
    · rw [h.length] at hn
      omega
  case isFalse hn =>
    have hring := h.ring.reverse
    have hl : ∀ p ∈ l.reverse, ¬ isSentinel p := fun p hp =>
      h.not_isSentinel (List.mem_reverse.mp hp)
    have hsub : l.length - min n.toNat s.length = l.length - n.toNat := by
      rw [h.length]
      omega
    simp only
    rw [walk_take hring (Or.inr rfl) hl, List.reverse_take, List.reverse_reverse,
      List.length_reverse, hsub, List.map_map, List.map_drop]
    rfl

end Read

end Sequitur

end Symm.Tokenizer
