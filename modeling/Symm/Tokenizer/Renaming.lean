import Symm.Tokenizer.Cascade

/-!
# The grammar does not look at addresses

Two grammars whose root nodes correspond one to one behave alike: no operation
can tell an address from another, only whether two of them are the same. A
`Matching` is such a correspondence, and `Alike B s s'` says that it carries
the nodes, the links and the digram index of `s` to those of `s'`, over rule
tables with the same references.

- `Alike.setNode`, `Alike.index`: the two writes everything else is made of;
- `Alike.substitute`, `Alike.check`, `Alike.analyze`: the operations stay alike,
  along the same branches;
- `Alike.tail`: alike grammars read alike.

Go compares pointers with each other and with `nil`, and shows none of them, so no
operation can do more than this. The nodes outside the matching play no part: those that
were cut out of a root may be there on one side and not on the other.

The proofs go along the code. Each operation is put together of the two writes and of
the three reads of a node; both sides take the same branch, since the conditions are
about symbols that are equal and about addresses that are matched.
-/

namespace Symm.Tokenizer

open Symm.Lib Sequitur

/-- A one-to-one correspondence between nodes, the sentinels among them. -/
structure Matching where
  rel : Ptr → Ptr → Prop
  sentinel : rel sentinel sentinel
  ne_nil : ∀ {p p'}, rel p p' → p ≠ nil ∧ p' ≠ nil
  eq_iff : ∀ {p p' q q'}, rel p p' → rel q q' → (p = q ↔ p' = q')

namespace Matching

variable (B : Matching) {p p' q q' : Ptr}

/-- Corresponding links: to corresponding nodes, or nowhere on both sides. -/
def Link (p p' : Ptr) : Prop := B.rel p p' ∨ (p = nil ∧ p' = nil)

variable {B}

/-- Links that face each other lead nowhere both, or neither does. -/
theorem Link.nil_iff (h : B.Link p p') : p = nil ↔ p' = nil := by
  rcases h with h | ⟨h, h'⟩
  · exact iff_of_false (B.ne_nil h).1 (B.ne_nil h).2
  · exact iff_of_true h h'

theorem Link.rel (h : B.Link p p') (hp : p ≠ nil) : B.rel p p' :=
  h.resolve_right fun hnil => hp hnil.1

/-- A matching is one to one. -/
theorem Link.eq_iff (h : B.Link p p') (hq : B.Link q q') : p = q ↔ p' = q' := by
  rcases hq with hq | ⟨rfl, rfl⟩
  · by_cases hp : p = nil
    · have hp' := h.nil_iff.mp hp
      rw [hp, hp']
      exact iff_of_false (B.ne_nil hq).1.symm (B.ne_nil hq).2.symm
    · exact B.eq_iff (h.rel hp) hq
  · exact h.nil_iff

theorem Link.isSentinel_iff (h : B.Link p p') : isSentinel p ↔ isSentinel p' :=
  or_congr h.nil_iff (h.eq_iff (.inl B.sentinel))

theorem Link.rel_of_not_isSentinel (h : B.Link p p') (hp : ¬ isSentinel p) : B.rel p p' :=
  h.rel fun hnil => hp (.inl hnil)

end Matching

namespace Sequitur

/-- The correspondence carries one grammar to the other. Counters that no
operation on the root reads are left out. -/
structure Alike (B : Matching) (s s' : Sequitur) : Prop where
  val : ∀ {p p'}, B.rel p p' → s.val p = s'.val p'
  next : ∀ {p p'}, B.rel p p' → B.Link (s.next p) (s'.next p')
  prev : ∀ {p p'}, B.rel p p' → B.Link (s.prev p) (s'.prev p')
  alloc : ∀ {p p'}, B.rel p p' → p < s.fresh ∧ p' < s'.fresh
  digrams : ∀ d, Option.Rel B.rel (s.digrams d) (s'.digrams d)
  nextID : s.nextID = s'.nextID
  rules : ∀ id, (s.ruleOf id).isSome = (s'.ruleOf id).isSome
  ruleByDigram : s.ruleByDigram = s'.ruleByDigram
  length : s.length = s'.length

namespace Alike

variable {B : Matching} {s s' : Sequitur} {p p' q q' n n' : Ptr}

/-! ## Reading -/

/-- Alike grammars have rules for the same digrams, under the same ids. -/
theorem ruled_cases (h : Alike B s s') (d : Digram) :
    (s.ruled d = none ∧ s'.ruled d = none) ∨
      ∃ rule rule', s.ruled d = some rule ∧ s'.ruled d = some rule' ∧ rule.id = rule'.id := by
  unfold ruled
  rw [← h.ruleByDigram]
  cases s.ruleByDigram d with
  | none => exact .inl ⟨rfl, rfl⟩
  | some id =>
    rw [Option.bind_some, Option.bind_some]
    have hid := h.rules id
    cases hr : s.ruleOf id with
    | none =>
      rw [hr, Option.isSome_none] at hid
      exact .inl ⟨rfl, Option.not_isSome_iff_eq_none.mp (by rw [← hid]; exact Bool.false_ne_true)⟩
    | some rule =>
      rw [hr, Option.isSome_some] at hid
      obtain ⟨rule', hr'⟩ := Option.isSome_iff_exists.mp hid.symm
      exact .inr ⟨rule, rule', rfl, hr', (ruleOf_id hr).trans (ruleOf_id hr').symm⟩

/-- And their indexes point at matched nodes. -/
theorem digrams_eq_iff (h : Alike B s s') (hn : B.rel n n') (d : Digram) :
    s.digrams d = some n ↔ s'.digrams d = some n' := by
  have hd := h.digrams d
  generalize s.digrams d = e, s'.digrams d = e' at hd
  cases hd with
  | none => exact iff_of_false (Option.some_ne_none n).symm (Option.some_ne_none n').symm
  | some hm =>
    rw [Option.some.injEq, Option.some.injEq]
    exact B.eq_iff hm hn

/-! ## Writing -/

/-- Writing matched nodes alike keeps grammars alike, whatever the addresses are. -/
theorem setNode (h : Alike B s s') (hp : B.Link p p') {node node' : Node}
    (hval : B.rel p p' → node.val = node'.val)
    (hnext : B.rel p p' → B.Link node.next node'.next)
    (hprev : B.rel p p' → B.Link node.prev node'.prev) :
    Alike B (s.setNode p node) (s'.setNode p' node') := by
  -- matched nodes are changed together or not at all
  have hiff : ∀ {q q' : Ptr}, B.rel q q' → (q = p ↔ q' = p') := fun hq =>
    Matching.Link.eq_iff (.inl hq) hp
  refine ⟨fun {q q'} hq => ?_, fun {q q'} hq => ?_, fun {q q'} hq => ?_, h.alloc, h.digrams,
    h.nextID, h.rules, h.ruleByDigram, h.length⟩
  · rw [val_setNode, val_setNode]
    by_cases heq : q = p
    · obtain rfl := (hiff hq).mp heq
      rw [heq, Function.update_self, Function.update_self]
      exact hval (heq ▸ hq)
    · rw [Function.update_of_ne heq, Function.update_of_ne fun h' => heq ((hiff hq).mpr h')]
      exact h.val hq
  · rw [next_setNode, next_setNode]
    by_cases heq : q = p
    · obtain rfl := (hiff hq).mp heq
      rw [heq, Function.update_self, Function.update_self]
      exact hnext (heq ▸ hq)
    · rw [Function.update_of_ne heq, Function.update_of_ne fun h' => heq ((hiff hq).mpr h')]
      exact h.next hq
  · rw [prev_setNode, prev_setNode]
    by_cases heq : q = p
    · obtain rfl := (hiff hq).mp heq
      rw [heq, Function.update_self, Function.update_self]
      exact hprev (heq ▸ hq)
    · rw [Function.update_of_ne heq, Function.update_of_ne fun h' => heq ((hiff hq).mpr h')]
      exact h.prev hq

theorem setVal (h : Alike B s s') (hp : B.Link p p') (v : Symbol) :
    Alike B (s.setVal p v) (s'.setVal p' v) :=
  h.setNode hp (fun _ => rfl) h.next h.prev

theorem setNext (h : Alike B s s') (hp : B.Link p p') (hq : B.Link q q') :
    Alike B (s.setNext p q) (s'.setNext p' q') :=
  h.setNode hp h.val (fun _ => hq) h.prev

theorem setPrev (h : Alike B s s') (hp : B.Link p p') (hq : B.Link q q') :
    Alike B (s.setPrev p q) (s'.setPrev p' q') :=
  h.setNode hp h.val h.next fun _ => hq

/-- So does pointing both indexes at matched nodes. -/
theorem index (h : Alike B s s') (d : Digram) {e e' : Option Ptr} (he : Option.Rel B.rel e e') :
    Alike B { s with digrams := Function.update s.digrams d e }
      { s' with digrams := Function.update s'.digrams d e' } := by
  refine ⟨h.val, h.next, h.prev, h.alloc, fun d' => ?_, h.nextID, h.rules, h.ruleByDigram,
    h.length⟩
  show Option.Rel B.rel (Function.update s.digrams d e d') (Function.update s'.digrams d e' d')
  by_cases hd : d' = d
  · rw [hd, Function.update_self, Function.update_self]
    exact he
  · rw [Function.update_of_ne hd, Function.update_of_ne hd]
    exact h.digrams d'

theorem counters (h : Alike B s s') {len len' pending pending' : ℕ} {kind kind' : Kind}
    (hlen : len = len') :
    Alike B { s with length := len, pendingLen := pending, lastKind := kind }
      { s' with length := len', pendingLen := pending', lastKind := kind' } :=
  ⟨h.val, h.next, h.prev, h.alloc, h.digrams, h.nextID, h.rules, h.ruleByDigram, hlen⟩

/-! ## The primitives -/

/-- A digram is forgotten by both or by neither, since the index tells the same. -/
theorem forgetDigram (h : Alike B s s') (hn : B.rel n n') (d : Digram) :
    Alike B (s.forgetDigram d n) (s'.forgetDigram d n') := by
  unfold Sequitur.forgetDigram
  by_cases hd : s.digrams d = some n
  · rw [if_pos hd, if_pos ((h.digrams_eq_iff hn d).mp hd)]
    exact h.index d .none
  · rw [if_neg hd, if_neg fun hd' => hd ((h.digrams_eq_iff hn d).mpr hd')]
    exact h

/-- So are the digrams of a node. -/
theorem forgetNode (h : Alike B s s') (hn : B.Link n n') :
    Alike B (s.forgetNode n) (s'.forgetNode n') := by
  unfold Sequitur.forgetNode
  by_cases hs : isSentinel n
  · rw [if_pos hs, if_pos (hn.isSentinel_iff.mp hs)]
    exact h
  · rw [if_neg hs, if_neg fun hs' => hs (hn.isSentinel_iff.mpr hs')]
    dsimp only
    have hrel := hn.rel_of_not_isSentinel hs
    -- the pair that ends in the node is forgotten first
    have hback : Alike B
        (if isSentinel (s.prev n) then s
          else s.forgetDigram (s.val (s.prev n), s.val n) (s.prev n))
        (if isSentinel (s'.prev n') then s'
          else s'.forgetDigram (s'.val (s'.prev n'), s'.val n') (s'.prev n')) := by
      by_cases hp : isSentinel (s.prev n)
      · rw [if_pos hp, if_pos ((h.prev hrel).isSentinel_iff.mp hp)]
        exact h
      · rw [if_neg hp, if_neg fun hp' => hp ((h.prev hrel).isSentinel_iff.mpr hp')]
        have hprel := (h.prev hrel).rel_of_not_isSentinel hp
        rw [← h.val hprel, ← h.val hrel]
        exact h.forgetDigram hprel _
    -- what it leaves is a state of its own, so that the second pair is looked up there
    revert hback
    generalize (if isSentinel (s.prev n) then s
      else s.forgetDigram (s.val (s.prev n), s.val n) (s.prev n)) = t
    generalize (if isSentinel (s'.prev n') then s'
      else s'.forgetDigram (s'.val (s'.prev n'), s'.val n') (s'.prev n')) = t'
    intro ht
    -- then the pair that starts at the node
    by_cases hv : isSentinel (t.next n)
    · rw [if_pos hv, if_pos ((ht.next hrel).isSentinel_iff.mp hv)]
      exact ht
    · rw [if_neg hv, if_neg fun hv' => hv ((ht.next hrel).isSentinel_iff.mpr hv')]
      have hnrel := (ht.next hrel).rel_of_not_isSentinel hv
      rw [← ht.val hrel, ← ht.val hnrel]
      exact ht.forgetDigram hrel _

/-- Substituting a reference for matched pairs keeps grammars alike. -/
theorem substitute (h : Alike B s s') (hn : B.Link n n') (id : ℕ) :
    Alike B (s.substitute n id) (s'.substitute n' id) := by
  by_cases hguard : n = nil ∨ s.next n = nil ∨ s.next (s.next n) = nil
  · have hguard' : n' = nil ∨ s'.next n' = nil ∨ s'.next (s'.next n') = nil := by
      by_cases hnil : n = nil
      · exact .inl (hn.nil_iff.mp hnil)
      · have hv := h.next (hn.rel hnil)
        by_cases hvnil : s.next n = nil
        · exact .inr (.inl (hv.nil_iff.mp hvnil))
        · have hafter := (hguard.resolve_left hnil).resolve_left hvnil
          exact .inr (.inr ((h.next (hv.rel hvnil)).nil_iff.mp hafter))
    unfold Sequitur.substitute
    rwa [if_pos hguard, if_pos hguard']
  · have hparts := not_or.mp hguard
    have hrel := hn.rel hparts.1
    have hv := h.next hrel
    have hvrel := hv.rel (not_or.mp hparts.2).1
    have hafter := h.next hvrel
    have hguard' : ¬ (n' = nil ∨ s'.next n' = nil ∨ s'.next (s'.next n') = nil) := by
      rw [← hn.nil_iff, ← hv.nil_iff, ← hafter.nil_iff]
      exact hguard
    unfold Sequitur.substitute
    rw [if_neg hguard, if_neg hguard']
    dsimp only
    -- the index first, which moves no link
    have h1 := h.forgetNode (.inl hrel)
    have h2 := h1.forgetNode (h1.next hrel)
    have hvictim : ((s.forgetNode n).forgetNode ((s.forgetNode n).next n)).next n = s.next n := by
      rw [next_forgetNode, next_forgetNode]
    generalize (s.forgetNode n).forgetNode ((s.forgetNode n).next n) = t at h2 hvictim ⊢
    generalize (s'.forgetNode n').forgetNode ((s'.forgetNode n').next n') = t' at h2 ⊢
    have hv2 := h2.next hrel
    have hafter2 := h2.next (hv2.rel (hvictim ▸ (not_or.mp hparts.2).1))
    have hnil : B.Link nil nil := .inr ⟨rfl, rfl⟩
    -- then the six writes, each of matched values to matched nodes
    have h3 := (h2.setVal hn (ruleSymbol id)).setNext hn hafter2
    have h4 := ((h3.setPrev hafter2 hn).setPrev hv2 hnil).setNext hv2 hnil
    exact h4.counters (congrArg (· - 1) h4.length)

/-! ## The rule table -/

/-- Counts are not compared here: uses are counted apart. -/
theorem setCount (h : Alike B s s') (id : ℕ) (count count' : ℤ) :
    Alike B (s.setCount id count) (s'.setCount id count') := by
  refine ⟨h.val, h.next, h.prev, h.alloc, h.digrams, h.nextID, fun j => ?_, h.ruleByDigram,
    h.length⟩
  rw [ruleOf_setCount, ruleOf_setCount, Option.isSome_map, Option.isSome_map]
  exact h.rules j

/-- Both give a new rule the same id. -/
theorem newRule (h : Alike B s s') (d : Digram) : Alike B (s.newRule d) (s'.newRule d) := by
  refine ⟨h.val, h.next, h.prev, h.alloc, h.digrams, congrArg (· + 1) h.nextID, fun id => ?_, ?_,
    h.length⟩
  · rw [Bool.eq_iff_iff]
    have hs := ruleOf_setRule_isSome { s with nextID := s.nextID + 1 }
      { id := s.nextID, count := 2, body := [d.1, d.2] } id
    have hs' := ruleOf_setRule_isSome { s' with nextID := s'.nextID + 1 }
      { id := s'.nextID, count := 2, body := [d.1, d.2] } id
    refine Iff.trans hs (Iff.trans (or_congr ?_ ?_) hs'.symm)
    · show id = s.nextID ↔ id = s'.nextID
      rw [h.nextID]
    · exact Bool.eq_iff_iff.mp (h.rules id)
  · show Function.update s.ruleByDigram d (some s.nextID) =
      Function.update s'.ruleByDigram d (some s'.nextID)
    rw [h.ruleByDigram, h.nextID]

/-- Making a rule of two occurrences keeps them alike. -/
theorem replaceBoth (h : Alike B s s') (hn : B.Link n n') (hp : B.Link p p') (d : Digram) :
    Alike B (s.replaceBoth n p d) (s'.replaceBoth n' p' d) := by
  unfold Sequitur.replaceBoth
  rw [← h.nextID]
  exact (((h.newRule d).substitute hp s.nextID).substitute hn s.nextID).index d .none

/-- So does reusing one. -/
theorem replaceRuled (h : Alike B s s') (hn : B.Link n n') {rule rule' : Rule}
    (hid : rule.id = rule'.id) : Alike B (s.replaceRuled n rule) (s'.replaceRuled n' rule') := by
  have hsub := (h.setCount rule.id (rule.count + 1) (rule'.count + 1)).substitute hn rule.id
  unfold Sequitur.replaceRuled
  rw [← hid]
  dsimp only
  have hkind : ∀ t : Sequitur, ∃ kind, (if t.lastKind ≠ .create then { t with lastKind := .reuse }
      else t) = { t with lastKind := kind } := by
    intro t
    split
    · exact ⟨.reuse, rfl⟩
    · exact ⟨t.lastKind, rfl⟩
  obtain ⟨kind, hk⟩ := hkind ((s.setCount rule.id (rule.count + 1)).substitute n rule.id)
  obtain ⟨kind', hk'⟩ := hkind ((s'.setCount rule.id (rule'.count + 1)).substitute n' rule.id)
  rw [hk, hk']
  exact hsub.counters hsub.length

/-! ## The cascade -/

/-- Both fail, or both answer alike. -/
def Answers (B : Matching) (r r' : Option (Sequitur × Option ℕ)) : Prop :=
  Option.Rel (fun a b => Alike B a.1 b.1 ∧ a.2 = b.2) r r'

/-- Both fail, or both answer with grammars related by `P`. -/
def AnswersIn (P : Sequitur → Sequitur → Prop) (r r' : Option (Sequitur × Option ℕ)) : Prop :=
  Option.Rel (fun a b => P a.1 b.1 ∧ a.2 = b.2) r r'

/-- A relation that lasts while two alike grammars make the same writes. -/
structure Mirrored (Q : Sequitur → Sequitur → Prop) : Prop where
  index : ∀ {s s'} D D', Q s s' → Q { s with digrams := D } { s' with digrams := D' }
  replaceBoth : ∀ {s s'} n n' m m' d, s.nextID = s'.nextID → Q s s' →
    Q (s.replaceBoth n m d) (s'.replaceBoth n' m' d)
  replaceRuled : ∀ {s s'} n n' d {rule rule'}, s.ruled d = some rule → s'.ruled d = some rule' →
    rule.id = rule'.id → Q s s' → Q (s.replaceRuled n rule) (s'.replaceRuled n' rule')
  appendNode : ∀ {s s'} token len len' pending pending', Q s s' →
    Q { s.appendNode token with length := len, pendingLen := pending }
      { s'.appendNode token with length := len', pendingLen := pending' }
  pending : ∀ {s s'} pending pending', Q s s' →
    Q { s with pendingLen := pending } { s' with pendingLen := pending' }

section Cascade

variable {P Q : Sequitur → Sequitur → Prop}

/-- A guarded check answers alike where `check` does. -/
theorem checkIf {check check' : Sequitur → Ptr → Option (Sequitur × Option ℕ)}
    (hcheck : ∀ {t t' : Sequitur} {m m' : Ptr}, P t t' → B.Link m m' →
      AnswersIn P (check t m) (check' t' m'))
    (h : P s s') {guard guard' : Prop} [Decidable guard] [Decidable guard']
    (hguard : guard ↔ guard') (hn : guard → B.Link n n') :
    Option.Rel P (checkIf check s guard n) (checkIf check' s' guard' n') := by
  unfold Sequitur.checkIf
  by_cases hg : guard
  · rw [if_pos hg, if_pos (hguard.mp hg)]
    have hr := hcheck h (hn hg)
    generalize check s n = r, check' s' n' = r' at hr
    cases hr with
    | none => exact .none
    | some hab => exact .some hab.1
  · rw [if_neg hg, if_neg fun hg' => hg (hguard.mpr hg')]
    exact .some h

/-- Computations that answer alike can be put one after the other. -/
theorem rel_bind {a b : Option Sequitur} {f g : Sequitur → Option Sequitur}
    (hab : Option.Rel P a b) (hfg : ∀ {x y}, P x y → Option.Rel P (f x) (g y)) :
    Option.Rel P (a.bind f) (b.bind g) := by
  cases hab with
  | none => exact .none
  | some hxy => exact hfg hxy

/-- So do the checks around a replacement. -/
theorem checkAdjacencies {check check' : Sequitur → Ptr → Option (Sequitur × Option ℕ)}
    (hP : ∀ {t t' : Sequitur}, P t t' → Alike B t t')
    (hcheck : ∀ {t t' : Sequitur} {m m' : Ptr}, P t t' → B.Link m m' →
      AnswersIn P (check t m) (check' t' m'))
    (h : P s s') (hp : B.Link p p') (hq : B.Link q q') :
    Option.Rel P (checkAdjacencies check s p q) (checkAdjacencies check' s' p' q') := by
  -- a guard on a node and its predecessor holds on both sides or on neither
  have hback : ∀ {t t' : Sequitur} {m m' : Ptr}, P t t' → B.Link m m' → ¬ isSentinel m →
      (isSentinel (t.prev m) ↔ isSentinel (t'.prev m')) ∧ B.Link (t.prev m) (t'.prev m') := by
    intro t t' m m' ht hm hs
    have hlink := (hP ht).prev (hm.rel_of_not_isSentinel hs)
    exact ⟨hlink.isSentinel_iff, hlink⟩
  have hne : q ≠ p ↔ q' ≠ p' := not_congr (hq.eq_iff hp)
  rw [checkAdjacencies_eq, checkAdjacencies_eq]
  refine rel_bind (rel_bind (checkIf hcheck h ?_ ?_) fun ht => ?_) fun ht => rel_bind ?_ fun hu => ?_
  · by_cases hs : isSentinel p
    · exact iff_of_false (fun hg => hg.1 hs) fun hg => hg.1 (hp.isSentinel_iff.mp hs)
    · exact and_congr (not_congr hp.isSentinel_iff) (not_congr (hback h hp hs).1)
  · exact fun hg => (hback h hp hg.1).2
  · exact checkIf hcheck ht (not_congr hp.isSentinel_iff) fun _ => hp
  · refine checkIf hcheck ht ?_ fun hg => (hback ht hq hg.1).2
    by_cases hs : isSentinel q
    · exact iff_of_false (fun hg => hg.1 hs) fun hg => hg.1 (hq.isSentinel_iff.mp hs)
    · exact and_congr (not_congr hq.isSentinel_iff) (and_congr hne (not_congr (hback ht hq hs).1))
  · exact checkIf hcheck hu (and_congr (not_congr hq.isSentinel_iff) hne) fun _ => hq

theorem answers_map {a b : Option Sequitur} (hab : Option.Rel P a b) {id id' : Option ℕ}
    (hid : id = id') : AnswersIn P (a.map fun t => (t, id)) (b.map fun t => (t, id')) := by
  cases hab with
  | none => exact .none
  | some hxy => exact .some ⟨hxy, hid⟩

/-- A call of `check` takes the same branches on both sides. -/
theorem check (hQ : Mirrored Q) (fuel : ℕ) (h : Alike B s s') (hq : Q s s') (hn : B.Link n n') :
    AnswersIn (fun t t' => Alike B t t' ∧ Q t t') (Sequitur.check fuel s n)
      (Sequitur.check fuel s' n') := by
  induction fuel generalizing s s' n n' with
  | zero => exact .none
  | succ fuel ih =>
    unfold Sequitur.check
    by_cases hs : isSentinel n
    · rw [if_pos (.inl hs), if_pos (.inl (hn.isSentinel_iff.mp hs))]
      exact .some ⟨⟨h, hq⟩, rfl⟩
    have hrel := hn.rel_of_not_isSentinel hs
    have hv := h.next hrel
    have hs' : ¬ isSentinel n' := fun hs' => hs (hn.isSentinel_iff.mpr hs')
    by_cases hlast : isSentinel (s.next n)
    · rw [if_pos (.inr hlast), if_pos (.inr (hv.isSentinel_iff.mp hlast))]
      exact .some ⟨⟨h, hq⟩, rfl⟩
    have hlast' : ¬ isSentinel (s'.next n') := fun hl => hlast (hv.isSentinel_iff.mpr hl)
    have hvrel := hv.rel_of_not_isSentinel hlast
    rw [if_neg (not_or.mpr ⟨hs, hlast⟩), if_neg (not_or.mpr ⟨hs', hlast'⟩), ← h.val hrel,
      ← h.val hvrel]
    dsimp only
    rcases h.ruled_cases (s.val n, s.val (s.next n)) with ⟨hr, hr'⟩ | ⟨rule, rule', hr, hr', hid⟩
    -- no rule for the digram: the two indexes hold matching places, or nothing
    · rw [hr, hr']
      dsimp only
      have hindex := h.index (s.val n, s.val (s.next n)) (.some hrel)
      have hd := h.digrams (s.val n, s.val (s.next n))
      generalize s.digrams (s.val n, s.val (s.next n)) = e,
        s'.digrams (s.val n, s.val (s.next n)) = e' at hd
      cases hd with
      | none => exact .some ⟨⟨hindex, hQ.index _ _ hq⟩, rfl⟩
      | @some m m' hm =>
        dsimp only
        have hmn := h.next hm
        by_cases hmatch : s.next m ≠ nil ∧ s.val m = s.val n ∧ s.val (s.next m) = s.val (s.next n)
        · have hmrel := hmn.rel hmatch.1
          have hmatch' : s'.next m' ≠ nil ∧ s'.val m' = s.val n ∧
              s'.val (s'.next m') = s.val (s.next n) := by
            rw [← h.val hm, ← h.val hmrel]
            exact ⟨fun hnil => hmatch.1 (hmn.nil_iff.mpr hnil), hmatch.2⟩
          rw [if_pos hmatch, if_pos hmatch']
          -- places overlap on one side exactly when they do on the other
          have hover : (m = n ∨ s.next m = n ∨ s.next m = s.next n) ↔
              (m' = n' ∨ s'.next m' = n' ∨ s'.next m' = s'.next n') :=
            or_congr (B.eq_iff hm hrel) (or_congr (hmn.eq_iff hn) (hmn.eq_iff hv))
          by_cases ho : m = n ∨ s.next m = n ∨ s.next m = s.next n
          · rw [if_pos ho, if_pos (hover.mp ho)]
            exact .some ⟨⟨h, hq⟩, rfl⟩
          · rw [if_neg ho, if_neg fun ho' => ho (hover.mpr ho')]
            have hboth := h.replaceBoth hn (.inl hm) (s.val n, s.val (s.next n))
            have hadj := checkAdjacencies And.left (fun ht => ih ht.1 ht.2)
              ⟨hboth, hQ.replaceBoth n n' m m' _ h.nextID hq⟩ (.inl hm) hn
            unfold reduce
            rw [← h.nextID]
            exact answers_map hadj rfl
        · have hmatch' : ¬ (s'.next m' ≠ nil ∧ s'.val m' = s.val n ∧
              s'.val (s'.next m') = s.val (s.next n)) := by
            intro hm'
            have hne : s.next m ≠ nil := fun hnil => hm'.1 (hmn.nil_iff.mp hnil)
            rw [← h.val hm, ← h.val (hmn.rel hne)] at hm'
            exact hmatch ⟨hne, hm'.2⟩
          rw [if_neg hmatch, if_neg hmatch']
          exact .some ⟨⟨hindex, hQ.index _ _ hq⟩, rfl⟩
    -- a digram with a rule is replaced where it stands
    · rw [hr, hr']
      dsimp only
      have hadj := checkAdjacencies And.left (fun ht => ih ht.1 ht.2)
        ⟨h.replaceRuled hn hid, hQ.replaceRuled n n' _ hr hr' hid hq⟩ hn hn
      exact answers_map hadj (congrArg some hid)

/-! ## Feeding, clearing and reading -/

/-- The correspondence with one more pair of nodes, new on both sides. -/
def extend (B : Matching) {m m' : Ptr} (hm : sentinel < m) (hm' : sentinel < m')
    (hnew : ∀ {p p'}, B.rel p p' → p < m ∧ p' < m') : Matching where
  rel p p' := B.rel p p' ∨ (p = m ∧ p' = m')
  sentinel := .inl B.sentinel
  ne_nil := by
    rintro p p' (h | ⟨rfl, rfl⟩)
    · exact B.ne_nil h
    · exact ⟨Nat.ne_of_gt (Nat.zero_lt_of_lt hm), Nat.ne_of_gt (Nat.zero_lt_of_lt hm')⟩
  eq_iff := by
    rintro p p' q q' (h | ⟨rfl, rfl⟩) (hq | ⟨rfl, rfl⟩)
    · exact B.eq_iff h hq
    · exact iff_of_false (hnew h).1.ne (hnew h).2.ne
    · exact iff_of_false (hnew hq).1.ne' (hnew hq).2.ne'
    · exact iff_of_true rfl rfl

/-- Appending the same symbol on both sides adds the new nodes to the correspondence. -/
theorem appendNode (h : Alike B s s') (token : Symbol) :
    ∃ B' : Matching, B'.rel s.fresh s'.fresh ∧
      Alike B' (s.appendNode token) (s'.appendNode token) := by
  have hs := (h.alloc B.sentinel).1
  have hs' := (h.alloc B.sentinel).2
  let B' := extend B hs hs' h.alloc
  have hold : ∀ {p p'}, B.rel p p' → B'.rel p p' := fun hp => .inl hp
  have hlink : ∀ {p p'}, B.Link p p' → B'.Link p p' := fun hp => hp.imp_left hold
  have hnew : B'.rel s.fresh s'.fresh := .inr ⟨rfl, rfl⟩
  have hlast : B'.Link (s.prev sentinel) (s'.prev sentinel) := hlink (h.prev B.sentinel)
  refine ⟨B', hnew, ?_⟩
  unfold Sequitur.appendNode
  dsimp only
  -- the new node is written first, so no clause about it is needed before
  have hwrite : Alike B'
      (({ s with fresh := s.fresh + 1 } : Sequitur).setNode s.fresh
        { val := token, prev := s.prev sentinel, next := sentinel })
      (({ s' with fresh := s'.fresh + 1 } : Sequitur).setNode s'.fresh
        { val := token, prev := s'.prev sentinel, next := sentinel }) := by
    refine ⟨fun {p p'} hp => ?_, fun {p p'} hp => ?_, fun {p p'} hp => ?_, fun {p p'} hp => ?_,
      fun d => ?_, h.nextID, h.rules, h.ruleByDigram, h.length⟩
    · rw [val_setNode, val_setNode]
      rcases hp with hp | ⟨rfl, rfl⟩
      · rw [Function.update_of_ne (h.alloc hp).1.ne, Function.update_of_ne (h.alloc hp).2.ne]
        exact h.val hp
      · rw [Function.update_self, Function.update_self]
    · rw [next_setNode, next_setNode]
      rcases hp with hp | ⟨rfl, rfl⟩
      · rw [Function.update_of_ne (h.alloc hp).1.ne, Function.update_of_ne (h.alloc hp).2.ne]
        exact hlink (h.next hp)
      · rw [Function.update_self, Function.update_self]
        exact .inl B'.sentinel
    · rw [prev_setNode, prev_setNode]
      rcases hp with hp | ⟨rfl, rfl⟩
      · rw [Function.update_of_ne (h.alloc hp).1.ne, Function.update_of_ne (h.alloc hp).2.ne]
        exact hlink (h.prev hp)
      · rw [Function.update_self, Function.update_self]
        exact hlast
    · show p < s.fresh + 1 ∧ p' < s'.fresh + 1
      rcases hp with hp | ⟨rfl, rfl⟩
      · exact ⟨Nat.lt_succ_of_lt (h.alloc hp).1, Nat.lt_succ_of_lt (h.alloc hp).2⟩
      · exact ⟨Nat.lt_succ_self _, Nat.lt_succ_self _⟩
    · have hd := h.digrams d
      show Option.Rel B'.rel (s.digrams d) (s'.digrams d)
      generalize s.digrams d = e, s'.digrams d = e' at hd
      cases hd with
      | none => exact .none
      | some hm => exact .some (hold hm)
  exact (hwrite.setNext hlast (.inl hnew)).setPrev (.inl B'.sentinel) (.inl hnew)

/-- Reading one token: both sides fail, or both answer alike. -/
theorem analyzeToken (hQ : Mirrored Q) (h : Alike B s s') (hq : Q s s') (created : Option ℕ)
    (token : String) : ∃ B' : Matching, AnswersIn (fun t t' => Alike B' t t' ∧ Q t t')
      (analyzeToken s created token) (analyzeToken s' created token) := by
  unfold Sequitur.analyzeToken
  by_cases hempty : token = ""
  · rw [if_pos hempty, if_pos hempty]
    exact ⟨B, .some ⟨⟨h, hq⟩, rfl⟩⟩
  · rw [if_neg hempty, if_neg hempty]
    dsimp only
    obtain ⟨B', hnew, happ⟩ := h.appendNode token
    -- both sides append a node of their own, and the matching takes the pair in
    have hcount : Alike B'
        { s.appendNode token with
          length := (s.appendNode token).length + 1
          pendingLen := (s.appendNode token).pendingLen + 1 }
        { s'.appendNode token with
          length := (s'.appendNode token).length + 1
          pendingLen := (s'.appendNode token).pendingLen + 1 } :=
      happ.counters (congrArg (· + 1) happ.length)
    have hqcount := hQ.appendNode token ((s.appendNode token).length + 1)
      ((s'.appendNode token).length + 1) ((s.appendNode token).pendingLen + 1)
      ((s'.appendNode token).pendingLen + 1) hq
    refine ⟨B', ?_⟩
    revert hcount hqcount
    generalize ({ s.appendNode token with
      length := (s.appendNode token).length + 1
      pendingLen := (s.appendNode token).pendingLen + 1 } : Sequitur) = t
    generalize ({ s'.appendNode token with
      length := (s'.appendNode token).length + 1
      pendingLen := (s'.appendNode token).pendingLen + 1 } : Sequitur) = t'
    intro ht hqt
    have hcheck := check hQ ((s.appendNode token).length + 1) ht hqt (ht.prev hnew)
    rw [← happ.length]
    generalize Sequitur.check ((s.appendNode token).length + 1) t (t.prev s.fresh) = r,
      Sequitur.check ((s.appendNode token).length + 1) t' (t'.prev s'.fresh) = r' at hcheck
    cases hcheck with
    | none => exact .none
    | @some a b hab =>
      obtain ⟨a, id⟩ := a
      obtain ⟨b, id'⟩ := b
      obtain ⟨⟨halike, hqab⟩, rfl⟩ := hab
      cases id with
      | none => exact .some ⟨⟨halike, hqab⟩, rfl⟩
      | some id => exact .some ⟨⟨halike.counters halike.length, hQ.pending _ _ hqab⟩, rfl⟩

/-- A whole call: both sides fail, or both answer alike. -/
theorem analyze_in (hQ : Mirrored Q) (h : Alike B s s')
    (hq : Q { s with lastKind := .append } { s' with lastKind := .append })
    (tokens : List String) : ∃ B' : Matching, AnswersIn (fun t t' => Alike B' t t' ∧ Q t t')
      (s.analyze tokens) (s'.analyze tokens) := by
  have hloop : ∀ (B : Matching) (t t' : Sequitur) (created : Option ℕ), Alike B t t' → Q t t' →
      ∃ B' : Matching, AnswersIn (fun t t' => Alike B' t t' ∧ Q t t')
        (tokens.foldlM (fun r token => Sequitur.analyzeToken r.1 r.2 token) (t, created))
        (tokens.foldlM (fun r token => Sequitur.analyzeToken r.1 r.2 token) (t', created)) := by
    induction tokens with
    | nil => exact fun B t t' created ht hqt => ⟨B, .some ⟨⟨ht, hqt⟩, rfl⟩⟩
    | cons token rest ih =>
      intro B t t' created ht hqt
      obtain ⟨B', htoken⟩ := ht.analyzeToken hQ hqt created token
      rw [List.foldlM_cons, List.foldlM_cons]
      dsimp only
      generalize Sequitur.analyzeToken t created token = r,
        Sequitur.analyzeToken t' created token = r' at htoken
      cases htoken with
      | none => exact ⟨B', .none⟩
      | @some a b hab =>
        obtain ⟨a, id⟩ := a
        obtain ⟨b, id'⟩ := b
        obtain ⟨⟨halike, hqab⟩, rfl⟩ := hab
        exact ih B' a b id halike hqab
  exact hloop B _ _ none (h.counters h.length) hq

/-- Analyzing tokens answers alike, over a matching that has grown by the nodes allocated.
-/
theorem analyze (h : Alike B s s') (tokens : List String) :
    ∃ B' : Matching, Answers B' (s.analyze tokens) (s'.analyze tokens) := by
  have htrue : Mirrored fun _ _ => True := by
    constructor <;> intros <;> trivial
  obtain ⟨B', hanswers⟩ := h.analyze_in htrue trivial tokens
  refine ⟨B', ?_⟩
  unfold Answers
  generalize s.analyze tokens = r, s'.analyze tokens = r' at hanswers
  cases hanswers with
  | none => exact .none
  | some hab => exact .some ⟨hab.1.1, hab.2⟩

end Cascade

/-- Beginning a new sentence keeps them alike. -/
theorem sentence (h : Alike B s s') : Alike B s.sentence s'.sentence := by
  have hsent : B.Link sentinel sentinel := .inl B.sentinel
  have hring := (h.setNext hsent hsent).setPrev hsent hsent
  exact ⟨hring.val, hring.next, hring.prev, hring.alloc, fun _ => .none, hring.nextID,
    hring.rules, hring.ruleByDigram, rfl⟩

/-- Both sides read the same symbols walking back from the end. -/
theorem walk_back (h : Alike B s s') (fuel : ℕ) (hp : B.Link p p') :
    (walk s.prev isSentinel fuel p).map (fun n => display (s.val n)) =
      (walk s'.prev isSentinel fuel p').map fun n => display (s'.val n) := by
  induction fuel generalizing p p' with
  | zero => rfl
  | succ fuel ih =>
    unfold walk
    by_cases hs : isSentinel p
    · rw [if_pos hs, if_pos (hp.isSentinel_iff.mp hs)]
      rfl
    · have hrel := hp.rel_of_not_isSentinel hs
      rw [if_neg hs, if_neg fun hs' => hs (hp.isSentinel_iff.mpr hs'), List.map_cons,
        List.map_cons, h.val hrel, ih (h.prev hrel)]

/-- Clients read the same tail of both. -/
theorem tail (h : Alike B s s') (n : ℤ) : s.tail n = s'.tail n := by
  unfold Sequitur.tail
  rw [← h.length]
  split
  · rfl
  · dsimp only
    rw [List.map_reverse, List.map_reverse, h.walk_back _ (h.prev B.sentinel)]

end Alike

end Sequitur

end Symm.Tokenizer
