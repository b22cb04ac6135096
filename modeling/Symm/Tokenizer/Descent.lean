import Symm.Tokenizer.Lossless

/-!
# How far one cascade goes

`check`, `substitute`, `reduce` and `checkAdjacencies` call each other, and the
nodes they hand on may have left the root by the time they are looked at. Here
the cascade is run on any well-shaped root, whatever rules are in force.

`logged` is `check` with a record of the replacements it makes and of the calls
of `check` it leads to. A node that is handed on is in the root or has both
links cleared, and in the second case `check` does nothing with it.

- `logged_eq`: the record changes no answer;
- `Descends`: each replacement takes one node off the root, and each recursive
  call starts on a shorter root than its caller;
- `logged_descends`: so one level of recursion per root node is enough.
-/

namespace Symm.Tokenizer.Sequitur

open Symm.Lib

variable {s s' t : Sequitur} {l l' l1 : List Ptr} {n a b p : Ptr} {f : ℕ}

/-! ## The record -/

/-- A call of `substitute`. -/
structure Replacement where
  state : Sequitur
  node : Ptr
  id : ℕ

/-- A recursive call of `check`: the state its caller started in, and its own. -/
structure Recursion where
  outer : Sequitur
  inner : Sequitur

structure Record where
  replacements : List Replacement
  recursions : List Recursion

def Record.empty : Record := ⟨[], []⟩

def Record.append (r r' : Record) : Record :=
  ⟨r.replacements ++ r'.replacements, r.recursions ++ r'.recursions⟩

/-- What a logged `check` answers. -/
abbrev Answer := Option (Sequitur × Option ℕ × Record)

def loggedIf (check : Sequitur → Ptr → Answer) (outer s : Sequitur) (guard : Prop)
    [Decidable guard] (n : Ptr) : Option (Sequitur × Record) :=
  if guard then
    (check s n).map fun r =>
      (r.1, ⟨r.2.2.replacements, ⟨outer, s⟩ :: r.2.2.recursions⟩)
  else some (s, .empty)

def loggedAdjacencies (check : Sequitur → Ptr → Answer) (outer s : Sequitur) (a b : Ptr) :
    Option (Sequitur × Record) := do
  let r1 ← loggedIf check outer s (¬ isSentinel a ∧ ¬ isSentinel (s.prev a)) (s.prev a)
  let r2 ← loggedIf check outer r1.1 (¬ isSentinel a) a
  let r3 ← loggedIf check outer r2.1
    (¬ isSentinel b ∧ b ≠ a ∧ ¬ isSentinel (r2.1.prev b)) (r2.1.prev b)
  let r4 ← loggedIf check outer r3.1 (¬ isSentinel b ∧ b ≠ a) b
  some (r4.1, r1.2.append (r2.2.append (r3.2.append r4.2)))

/-- The replacement `replaceRuled` makes. -/
def ruledReplacement (s : Sequitur) (n : Ptr) (rule : Rule) : Replacement :=
  ⟨s.setCount rule.id (rule.count + 1), n, rule.id⟩

/-- The two replacements `replaceBoth` makes. -/
def bothReplacements (s : Sequitur) (newOccur firstOccur : Ptr) (d : Digram) : List Replacement :=
  [⟨s.newRule d, firstOccur, s.nextID⟩,
    ⟨(s.newRule d).substitute firstOccur s.nextID, newOccur, s.nextID⟩]

/-- `check`, with a record of what it does. -/
def logged : ℕ → Sequitur → Ptr → Answer
  | 0, _, _ => none
  | fuel + 1, s, n =>
    if isSentinel n ∨ isSentinel (s.next n) then some (s, none, .empty)
    else
      let digram := (s.val n, s.val (s.next n))
      match s.ruled digram with
      | some rule =>
        (loggedAdjacencies (logged fuel) s (s.replaceRuled n rule) n n).map fun r =>
          (r.1, some rule.id, ⟨s.ruledReplacement n rule :: r.2.replacements, r.2.recursions⟩)
      | none =>
        let index := { s with digrams := Function.update s.digrams digram (some n) }
        match s.digrams digram with
        | none => some (index, none, .empty)
        | some found =>
          if s.next found ≠ nil ∧ s.val found = digram.1 ∧ s.val (s.next found) = digram.2 then
            if found = n ∨ s.next found = n ∨ s.next found = s.next n then some (s, none, .empty)
            else
              (loggedAdjacencies (logged fuel) s (s.replaceBoth n found digram) found n).map
                fun r => (r.1, some s.nextID,
                  ⟨s.bothReplacements n found digram ++ r.2.replacements, r.2.recursions⟩)
          else some (index, none, .empty)

/-! ## The record changes no answer -/

section Erase

variable {c : Sequitur → Ptr → Option (Sequitur × Option ℕ)} {c' : Sequitur → Ptr → Answer}

/-- A logged `check` without its record. -/
def Erases (c' : Sequitur → Ptr → Answer) (c : Sequitur → Ptr → Option (Sequitur × Option ℕ)) :
    Prop :=
  ∀ s n, (c' s n).map (fun r => (r.1, r.2.1)) = c s n

/-- Logging a guarded check changes nothing of it. -/
theorem Erases.loggedIf (h : Erases c' c) (outer s : Sequitur) (guard : Prop) [Decidable guard]
    (n : Ptr) : (loggedIf c' outer s guard n).map Prod.fst = checkIf c s guard n := by
  unfold Sequitur.loggedIf checkIf
  split
  · rw [← h, Option.map_map, Option.map_map]
    rfl
  · rfl

theorem Erases.loggedAdjacencies (h : Erases c' c) (outer s : Sequitur) (a b : Ptr) :
    (loggedAdjacencies c' outer s a b).map Prod.fst = checkAdjacencies c s a b := by
  unfold Sequitur.loggedAdjacencies checkAdjacencies
  simp only [← h.loggedIf outer, Option.bind_eq_bind, Option.map_bind, Option.bind_map,
    Function.comp_def, Option.map_some]
  simp only [Option.map_eq_bind, Function.comp_def]

end Erase

/-- The logged `check` is `check`, with what it did on the side. -/
theorem erases_logged (f : ℕ) : Erases (logged f) (check f) := by
  induction f with
  | zero =>
    intro s n
    rfl
  | succ f ih =>
    intro s n
    rw [logged, check]
    split
    · rfl
    dsimp only
    cases s.ruled (s.val n, s.val (s.next n)) with
    | some rule =>
      dsimp only
      rw [← ih.loggedAdjacencies s, Option.map_map, Option.map_map]
      rfl
    | none =>
      cases s.digrams (s.val n, s.val (s.next n)) with
      | none => rfl
      | some found =>
        dsimp only
        split
        · split
          · rfl
          · rw [reduce, ← ih.loggedAdjacencies s, Option.map_map, Option.map_map]
            rfl
        · rfl

/-- The logged `check` answers what `check` answers. -/
theorem check_of_logged {r : Option ℕ} {record : Record} (h : logged f s n = some (s', r, record)) :
    check f s n = some (s', r) := by
  rw [← erases_logged f s n, h]
  rfl

/-! ## Nodes out of the root -/

/-- A node `substitute` took out of the root: both its links are cleared. -/
def Gone (s : Sequitur) (p : Ptr) : Prop := s.next p = nil ∧ s.prev p = nil

/-- A substitution clears the links of the second node and of no other. -/
theorem Shape.gone_substitute (h : Shape s l) (hn : n ∈ l) (hv : s.next n ≠ sentinel) (id : ℕ) :
    Gone (s.substitute n id) (s.next n) ∧ ∀ p, Gone s p → Gone (s.substitute n id) p := by
  obtain ⟨pre, post, hl⟩ := h.ring.exists_pair hn hv
  have hpair : Pair s n := by
    rw [hl] at h
    exact h.pair
  have hafter : s.next (s.next n) ∈ sentinel :: l :=
    h.ring.next_mem (List.mem_cons_of_mem _ (h.next_mem hn hv))
  have hnext : (s.substitute n id).next = _ := next_substitute hpair
  have hprev : (s.substitute n id).prev = _ := prev_substitute hpair
  constructor
  · rw [Gone, hnext, hprev, Function.update_self, Function.update_self]
    exact ⟨rfl, rfl⟩
  · intro p hp
    have hout : p ∉ sentinel :: l := h.notMem_of_detached hp.1
    have hpn : p ≠ n := fun heq => hout (heq ▸ List.mem_cons_of_mem _ hn)
    have hpv : p ≠ s.next n := fun heq =>
      hout (heq ▸ List.mem_cons_of_mem _ (h.next_mem hn hv))
    have hpa : p ≠ s.next (s.next n) := fun heq => hout (heq ▸ hafter)
    rw [Gone, hnext, hprev, Function.update_of_ne hpv, Function.update_of_ne hpn,
      Function.update_of_ne hpv, Function.update_of_ne hpa]
    exact hp

/-- A node the cascade may look at: in the ring, or out of it for good. -/
def Settled (s : Sequitur) (l : List Ptr) (p : Ptr) : Prop := p ∈ sentinel :: l ∨ Gone s p

/-- What a stretch of the cascade does: from the root `l` to the root `l'`, with
one node less for each replacement. -/
structure Descends (s : Sequitur) (l : List Ptr) (record : Record) (s' : Sequitur)
    (l' : List Ptr) : Prop where
  shape : Shape s' l'
  nonempty : l' ≠ []
  settled : ∀ p, Settled s l p → Settled s' l' p
  count : l'.length + record.replacements.length = l.length
  replaced : ∀ x ∈ record.replacements, Pair x.state x.node ∧
    (x.state.substitute x.node x.id).rootNodes.length + 1 = x.state.rootNodes.length
  shorter : ∀ x ∈ record.recursions, x.inner.rootNodes.length < x.outer.rootNodes.length

namespace Descends

variable {r r' : Record}

/-- Where nothing is done, nothing gets longer. -/
theorem refl (h : Shape s l) (hl : l ≠ []) : Descends s l .empty s l where
  shape := h
  nonempty := hl
  settled := fun _ hp => hp
  count := rfl
  replaced := fun _ hx => absurd hx List.not_mem_nil
  shorter := fun _ hx => absurd hx List.not_mem_nil

/-- Only the index changes. -/
theorem of_index {D : Digram → Option Ptr} (hl : l ≠ []) (h : Shape { s with digrams := D } l) :
    Descends s l .empty { s with digrams := D } l where
  shape := h
  nonempty := hl
  settled := fun _ hp => hp
  count := rfl
  replaced := fun _ hx => absurd hx List.not_mem_nil
  shorter := fun _ hx => absurd hx List.not_mem_nil

/-- Two descents are one, with their logs one after the other. -/
theorem trans (h : Descends s l r t l1) (h' : Descends t l1 r' s' l') :
    Descends s l (r.append r') s' l' where
  shape := h'.shape
  nonempty := h'.nonempty
  settled := fun p hp => h'.settled p (h.settled p hp)
  count := by
    have h1 := h.count
    have h2 := h'.count
    show l'.length + (r.replacements ++ r'.replacements).length = l.length
    rw [List.length_append]
    omega
  replaced := fun x hx => (List.mem_append.mp hx).elim (h.replaced x) (h'.replaced x)
  shorter := fun x hx => (List.mem_append.mp hx).elim (h.shorter x) (h'.shorter x)

/-- A replacement at a root node with a successor. -/
theorem substitute (h : Shape s l) (hn : n ∈ l) (hv : s.next n ≠ sentinel) (id : ℕ) :
    ∃ l', Spliced s l n id l' ∧
      Descends s l ⟨[⟨s, n, id⟩], []⟩ (s.substitute n id) l' := by
  obtain ⟨pre, post, hl, hsp⟩ := h.spliced hn hv id
  obtain ⟨hvic, hgone⟩ := h.gone_substitute hn hv id
  refine ⟨_, hsp, hsp.shape, by simp, ?_, ?_, ?_, ?_⟩
  · rintro p (hp | hp)
    · by_cases hpv : p = s.next n
      · exact .inr (hpv ▸ hvic)
      · rcases List.mem_cons.mp hp with rfl | hp
        · exact .inl List.mem_cons_self
        · exact .inl (List.mem_cons_of_mem _ ((hsp.mem p).mpr ⟨hp, hpv⟩))
    · exact .inr (hgone p hp)
  · exact hsp.length
  · intro x hx
    obtain rfl := List.mem_singleton.mp hx
    refine ⟨?_, ?_⟩
    · rw [hl] at h
      exact h.pair
    · rw [hsp.shape.rootNodes, h.rootNodes]
      exact hsp.length
  · intro x hx
    cases hx

/-- What the replacement of a ruled pair does. -/
theorem replaceRuled (h : Shape s l) (hn : n ∈ l) (hv : s.next n ≠ sentinel) (rule : Rule) :
    ∃ l', n ∈ l' ∧
      Descends s l ⟨[s.ruledReplacement n rule], []⟩ (s.replaceRuled n rule) l' := by
  have h0 : Shape (s.setCount rule.id (rule.count + 1)) l := h.of_eq rfl rfl rfl rfl rfl rfl
  obtain ⟨l', hsp, hd⟩ := Descends.substitute h0 hn hv rule.id
  refine ⟨l', (hsp.mem n).mpr ⟨hn, (h.ring.next_ne_self hn).symm⟩, ?_⟩
  unfold Sequitur.replaceRuled
  dsimp only
  split
  · exact ⟨hd.shape.of_eq rfl rfl rfl rfl rfl rfl, hd.nonempty, hd.settled, hd.count,
      hd.replaced, hd.shorter⟩
  · exact ⟨hd.shape, hd.nonempty, hd.settled, hd.count, hd.replaced, hd.shorter⟩

/-- What the replacement of two occurrences does, also where the second pair
overlaps the first. -/
theorem replaceBoth (h : Shape s l) (hn : n ∈ l) (hv : s.next n ≠ sentinel) {m : Ptr}
    (hm : m ∈ l) (hmv : s.next m ≠ sentinel) (hmn : m ≠ n) (hback : s.next m ≠ n) (d : Digram) :
    ∃ l', n ∈ l' ∧
      Descends s l ⟨s.bothReplacements n m d, []⟩ (s.replaceBoth n m d) l' := by
  have h0 : Shape (s.newRule d) l := h.of_eq rfl rfl rfl rfl rfl rfl
  obtain ⟨l1, hsp1, hd1⟩ := Descends.substitute h0 hm hmv s.nextID
  -- the second occurrence still starts with the node it started with
  have hnext : ((s.newRule d).substitute m s.nextID).next n = s.next n :=
    hsp1.next n hmn.symm hback.symm
  have hn1 : n ∈ l1 := (hsp1.mem n).mpr ⟨hn, hback.symm⟩
  obtain ⟨l2, hsp2, hd2⟩ := Descends.substitute hd1.shape hn1 (by rw [hnext]; exact hv) s.nextID
  have hn2 : n ∈ l2 := by
    rw [hsp2.mem, hnext]
    exact ⟨hn1, (h.ring.next_ne_self hn).symm⟩
  have hd := hd1.trans hd2
  have hdigrams : ∀ d' p, (s.replaceBoth n m d).digrams d' = some p →
      (((s.newRule d).substitute m s.nextID).substitute n s.nextID).digrams d' = some p :=
    fun _ _ => digrams_replaceBoth
  exact ⟨l2, hn2, hd.shape.shrink hdigrams, hd.nonempty, hd.settled, hd.count, hd.replaced,
    hd.shorter⟩

end Descends

/-! ## The whole cascade -/

/-- With `f` levels of recursion, `check` answers on every root of at most `f`
nodes, and descends. -/
def Cascades (f : ℕ) : Prop :=
  ∀ s l n, Shape s l → l ≠ [] → l.length ≤ f → Settled s l n →
    ∃ s' o r l', logged f s n = some (s', o, r) ∧ Descends s l r s' l'

section Adjacent

variable (outer : Sequitur)

/-- One neighbour is looked at, on a root shorter than the caller's. -/
theorem Cascades.loggedIf (ih : Cascades f) (h : Shape s l) (hl : l ≠ []) (hf : l.length ≤ f)
    (hlt : l.length < outer.rootNodes.length) (guard : Prop) [Decidable guard]
    (hn : guard → Settled s l n) :
    ∃ s' r l', loggedIf (logged f) outer s guard n = some (s', r) ∧ Descends s l r s' l' := by
  unfold Sequitur.loggedIf
  split
  case isTrue hg =>
    obtain ⟨s', o, r, l', hcheck, hd⟩ := ih s l n h hl hf (hn hg)
    refine ⟨s', ⟨r.replacements, ⟨outer, s⟩ :: r.recursions⟩, l', ?_, hd.shape, hd.nonempty,
      hd.settled, hd.count, hd.replaced, ?_⟩
    · rw [hcheck]
      rfl
    · intro x hx
      rcases List.mem_cons.mp hx with rfl | hx
      · show s.rootNodes.length < outer.rootNodes.length
        rw [h.rootNodes]
        exact hlt
      · exact hd.shorter x hx
  case isFalse => exact ⟨s, .empty, l, rfl, .refl h hl⟩

/-- The node before one that is settled. -/
theorem Settled.prev (h : Shape s l) (hp : Settled s l p)
    (hprev : ¬ isSentinel (s.prev p)) : Settled s l (s.prev p) := by
  rcases hp with hp | hp
  · exact .inl (h.ring.prev_mem hp)
  · exact absurd (.inl hp.2) hprev

/-- A stretch of the cascade leaves a root that is no longer. -/
theorem Descends.le {r : Record} (h : Descends s l r s' l') : l'.length ≤ l.length := by
  have := h.count
  omega

theorem Cascades.loggedAdjacencies (ih : Cascades f) (h : Shape s l) (hl : l ≠ [])
    (hf : l.length ≤ f) (hlt : l.length < outer.rootNodes.length) (ha : Settled s l a)
    (hb : Settled s l b) :
    ∃ s' r l', loggedAdjacencies (logged f) outer s a b = some (s', r) ∧
      Descends s l r s' l' := by
  obtain ⟨s1, r1, l1, h1, d1⟩ := ih.loggedIf outer h hl hf hlt
    (¬ isSentinel a ∧ ¬ isSentinel (s.prev a)) (n := s.prev a) fun hg => ha.prev h hg.2
  obtain ⟨s2, r2, l2, h2, d2⟩ := ih.loggedIf outer d1.shape d1.nonempty (d1.le.trans hf)
    (d1.le.trans_lt hlt) (¬ isSentinel a) (n := a) fun _ => d1.settled a ha
  have d12 := d1.trans d2
  have hb2 := d12.settled b hb
  obtain ⟨s3, r3, l3, h3, d3⟩ := ih.loggedIf outer d2.shape d2.nonempty (d12.le.trans hf)
    (d12.le.trans_lt hlt) (¬ isSentinel b ∧ b ≠ a ∧ ¬ isSentinel (s2.prev b))
    (n := s2.prev b) fun hg => hb2.prev d2.shape hg.2.2
  have d13 := d12.trans d3
  obtain ⟨s4, r4, l4, h4, d4⟩ := ih.loggedIf outer d3.shape d3.nonempty (d13.le.trans hf)
    (d13.le.trans_lt hlt) (¬ isSentinel b ∧ b ≠ a) (n := b) fun _ => d3.settled b hb2
  refine ⟨s4, r1.append (r2.append (r3.append r4)), l4, ?_, d1.trans (d2.trans (d3.trans d4))⟩
  simp only [Sequitur.loggedAdjacencies, Option.bind_eq_bind, h1, Option.bind_some, h2, h3, h4]

end Adjacent

/-- One level of recursion for each root node is enough. -/
theorem cascades (f : ℕ) : Cascades f := by
  induction f with
  | zero =>
    intro s l n _ hl hf
    exact absurd (List.length_eq_zero_iff.mp (Nat.le_zero.mp hf)) hl
  | succ f ih =>
    intro s l n h hl hf hn
    rw [logged]
    split
    case isTrue => exact ⟨s, none, .empty, l, rfl, .refl h hl⟩
    case isFalse hs =>
      rw [not_or] at hs
      -- a node out of the root has nothing behind it
      have hn' : n ∈ l := by
        rcases hn with hn | hn
        · exact (List.mem_cons.mp hn).resolve_left fun heq => hs.1 (.inr heq)
        · exact absurd (.inl hn.1) hs.2
      have hv : s.next n ≠ sentinel := fun heq => hs.2 (.inr heq)
      dsimp only
      cases s.ruled (s.val n, s.val (s.next n)) with
      | some rule =>
        obtain ⟨l1, hn1, d1⟩ := Descends.replaceRuled h hn' hv rule
        have hlen : l1.length + 1 = l.length := d1.count
        have hin : Settled (s.replaceRuled n rule) l1 n := .inl (List.mem_cons_of_mem _ hn1)
        obtain ⟨s', r, l', hadj, d2⟩ := ih.loggedAdjacencies s d1.shape d1.nonempty
          (by omega) (by rw [h.rootNodes]; omega) hin hin
        refine ⟨s', some rule.id, _, l', ?_, d1.trans d2⟩
        dsimp only
        rw [hadj]
        rfl
      | none =>
        cases hd : s.digrams (s.val n, s.val (s.next n)) with
        | none =>
          exact ⟨_, none, .empty, l, rfl, .of_index hl (h.indexed hn' hv)⟩
        | some found =>
          obtain ⟨hm, hmv, -⟩ := h.index _ found hd
          dsimp only
          split
          case isFalse => exact ⟨_, none, .empty, l, rfl, .of_index hl (h.indexed hn' hv)⟩
          case isTrue =>
            split
            case isTrue => exact ⟨s, none, .empty, l, rfl, .refl h hl⟩
            case isFalse hov =>
              rw [not_or, not_or] at hov
              obtain ⟨l1, hn1, d1⟩ := Descends.replaceBoth h hn' hv hm hmv hov.1 hov.2.1
                (s.val n, s.val (s.next n))
              have hlen : l1.length + 2 = l.length := d1.count
              obtain ⟨s', r, l', hadj, d2⟩ := ih.loggedAdjacencies s d1.shape d1.nonempty
                (by omega) (by rw [h.rootNodes]; omega)
                (d1.settled found (.inl (List.mem_cons_of_mem _ hm)))
                (.inl (List.mem_cons_of_mem _ hn1))
              refine ⟨s', some s.nextID, _, l', ?_, d1.trans d2⟩
              rw [hadj]
              rfl

end Symm.Tokenizer.Sequitur
