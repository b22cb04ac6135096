import Mathlib.Data.List.Induction
import Mathlib.Data.List.Nodup

/-!
# Doubly linked rings

A ring hangs off a head cell: following `next` from the head visits the list
`l` and returns to the head, following `prev` visits it backwards. The links
are two functions on cells, so the theory says nothing about how a program
stores them.

- `Links next prev a l b`: `next` leads from `a` through `l` to `b`, and `prev`
  leads back;
- `Ring next prev head l`: the links close on the head and no cell repeats;
- `Ring.snoc`, `Ring.remove`: what appending a cell and splicing one out do;
- `Facing a a' p p'`: the cells stand at the same place of two lists, and so do
  their neighbours in two rings;
- `walk_take`: the loop that follows `next` until it is back at the head reads
  the cells of `l` in order.
-/

namespace Symm.Lib

universe u

variable {P : Type u}

section Links

/-- `next` leads from `a` through `l` to `b`, and `prev` leads back. -/
def Links (next prev : P → P) : P → List P → P → Prop
  | a, [], b => next a = b ∧ prev b = a
  | a, x :: l, b => (next a = x ∧ prev x = a) ∧ Links next prev x l b

variable {next prev next' prev' : P → P} {a b x : P} {l r : List P}

/-- A chain falls apart at any of its nodes, and two fit together there. -/
theorem links_append :
    Links next prev a (l ++ x :: r) b ↔ Links next prev a l x ∧ Links next prev x r b := by
  induction l generalizing a with
  | nil => exact Iff.rfl
  | cons y l ih =>
    show (_ ∧ Links next prev y (l ++ x :: r) b) ↔ (_ ∧ Links next prev y l x) ∧ _
    rw [ih]
    exact and_assoc.symm

/-- Links only depend on the cells they pass. -/
theorem Links.congr (h : Links next prev a l b)
    (hnext : ∀ p ∈ a :: l, next' p = next p) (hprev : ∀ p ∈ b :: l, prev' p = prev p) :
    Links next' prev' a l b := by
  induction l generalizing a with
  | nil =>
    obtain ⟨h1, h2⟩ := h
    constructor
    · rw [hnext a List.mem_cons_self, h1]
    · rw [hprev b List.mem_cons_self, h2]
  | cons x l ih =>
    obtain ⟨⟨h1, h2⟩, hrest⟩ := h
    refine ⟨⟨?_, ?_⟩, ih hrest ?_ ?_⟩
    · rw [hnext a List.mem_cons_self, h1]
    · rw [hprev x (by simp), h2]
    · intro p hp
      exact hnext p (List.mem_cons_of_mem a hp)
    · intro p hp
      refine hprev p ?_
      rcases List.mem_cons.mp hp with rfl | hp
      · exact List.mem_cons_self
      · exact List.mem_cons_of_mem b (List.mem_cons_of_mem x hp)

/-- The cell after the first one. -/
theorem Links.next_eq (h : Links next prev a l b) : next a = l.headD b := by
  cases l with
  | nil => exact h.1
  | cons x l => exact h.1.1

/-- The cell before the last one. -/
theorem Links.prev_eq (h : Links next prev a l b) : prev b = l.getLastD a := by
  induction l generalizing a with
  | nil => exact h.2
  | cons x l ih =>
    rw [ih h.2, List.getLastD_cons]

/-- `next` leads from each cell to the one in the same place one further on. -/
theorem Links.next_get (h : Links next prev a l b) {i : ℕ} {p : P} (hp : (a :: l)[i]? = some p) :
    (l ++ [b])[i]? = some (next p) := by
  induction l generalizing a i with
  | nil =>
    cases i with
    | zero =>
      obtain rfl := Option.some.inj hp
      exact congrArg some h.1.symm
    | succ i => cases hp
  | cons x l ih =>
    cases i with
    | zero =>
      obtain rfl := Option.some.inj hp
      exact congrArg some h.1.1.symm
    | succ i => exact ih h.2 hp

/-- `prev` leads from each cell to the one in the same place one further back. -/
theorem Links.prev_get (h : Links next prev a l b) {i : ℕ} {p : P}
    (hp : (l ++ [b])[i]? = some p) : (a :: l)[i]? = some (prev p) := by
  induction l generalizing a i with
  | nil =>
    cases i with
    | zero =>
      obtain rfl := Option.some.inj hp
      exact congrArg some h.2.symm
    | succ i => cases hp
  | cons x l ih =>
    cases i with
    | zero =>
      obtain rfl := Option.some.inj hp
      exact congrArg some h.1.2.symm
    | succ i => exact ih h.2 hp

end Links

/-- The links close on the head and no cell repeats. -/
structure Ring (next prev : P → P) (head : P) (l : List P) : Prop where
  links : Links next prev head l head
  nodup : (head :: l).Nodup

namespace Ring

variable {next prev next' prev' : P → P} {head n v : P} {l pre post : List P}

theorem head_notMem (h : Ring next prev head l) : head ∉ l :=
  (List.nodup_cons.mp h.nodup).1

theorem nodup_tail (h : Ring next prev head l) : l.Nodup :=
  (List.nodup_cons.mp h.nodup).2

/-- A head linked to itself is the empty ring. -/
theorem empty (hn : next head = head) (hp : prev head = head) : Ring next prev head [] :=
  ⟨⟨hn, hp⟩, List.nodup_singleton head⟩

/-- Around a cell of the ring. -/
theorem around (h : Ring next prev head (pre ++ n :: post)) :
    next n = post.headD head ∧ prev n = pre.getLastD head := by
  obtain ⟨h1, h2⟩ := links_append.mp h.links
  exact ⟨h2.next_eq, h1.prev_eq⟩

theorem next_pair (h : Ring next prev head (pre ++ n :: v :: post)) : next n = v :=
  h.around.1

theorem prev_pair (h : Ring next prev head (pre ++ n :: v :: post)) : prev v = n := by
  have h' : Ring next prev head ((pre ++ [n]) ++ v :: post) := by simpa using h
  rw [h'.around.2]
  simp

/-- Behind a pair comes what comes behind it in the list, or the head again. -/
theorem next_snd (h : Ring next prev head (pre ++ n :: v :: post)) :
    next v = post.headD head := by
  have h' : Ring next prev head ((pre ++ [n]) ++ v :: post) := by simpa using h
  exact h'.around.1

/-- The cell after a cell of the ring is the head or another cell of it. -/
theorem next_mem (h : Ring next prev head l) (hn : n ∈ head :: l) : next n ∈ head :: l := by
  rcases List.mem_cons.mp hn with rfl | hn
  · rw [h.links.next_eq]
    cases l <;> simp
  · obtain ⟨pre, post, rfl⟩ := List.append_of_mem hn
    rw [h.around.1]
    cases post <;> simp

/-- The cell before a cell of the ring is the head or another cell of it. -/
theorem prev_mem (h : Ring next prev head l) (hn : n ∈ head :: l) : prev n ∈ head :: l := by
  rcases List.mem_cons.mp hn with rfl | hn
  · rw [h.links.prev_eq]
    cases l using List.reverseRecOn with
    | nil => simp
    | append_singleton l x => simp
  · obtain ⟨pre, post, rfl⟩ := List.append_of_mem hn
    rw [h.around.2]
    cases pre using List.reverseRecOn with
    | nil => simp
    | append_singleton pre x => simp

/-- Going on and back again. -/
theorem prev_next (h : Ring next prev head l) (hn : n ∈ head :: l) : prev (next n) = n := by
  rcases List.mem_cons.mp hn with rfl | hn
  · rw [h.links.next_eq]
    cases l with
    | nil => exact h.links.2
    | cons x l => exact h.links.1.2
  · obtain ⟨pre, post, rfl⟩ := List.append_of_mem hn
    rw [h.around.1]
    cases post with
    | nil =>
      show prev head = n
      rw [h.links.prev_eq]
      simp
    | cons v post => exact h.prev_pair

/-- Going back and on again. -/
theorem next_prev (h : Ring next prev head l) (hn : n ∈ head :: l) : next (prev n) = n := by
  rcases List.mem_cons.mp hn with rfl | hn
  · rw [h.links.prev_eq]
    cases l using List.reverseRecOn with
    | nil => exact h.links.1
    | append_singleton l x =>
      have := h.around.1
      simpa using this
  · obtain ⟨pre, post, rfl⟩ := List.append_of_mem hn
    rw [h.around.2]
    cases pre using List.reverseRecOn with
    | nil => exact h.links.1.1
    | append_singleton pre m =>
      have h' : Ring next prev head (pre ++ m :: n :: post) := by simpa using h
      simpa using h'.next_pair

/-- Two cells with one successor are one cell. -/
theorem next_inj (h : Ring next prev head l) {m : P} (hn : n ∈ head :: l) (hm : m ∈ head :: l)
    (heq : next n = next m) : n = m := by
  rw [← h.prev_next hn, heq, h.prev_next hm]

/-- A cell followed by another cell, as a split of the ring. -/
theorem exists_pair (h : Ring next prev head l) (hn : n ∈ l) (hv : next n ≠ head) :
    ∃ pre post, l = pre ++ n :: next n :: post := by
  obtain ⟨pre, post, rfl⟩ := List.append_of_mem hn
  cases post with
  | nil => exact absurd h.around.1 hv
  | cons v post =>
    refine ⟨pre, post, ?_⟩
    rw [h.next_pair]

/-- A cell is not its own successor. -/
theorem next_ne_self (h : Ring next prev head l) (hn : n ∈ l) : next n ≠ n := by
  obtain ⟨pre, post, rfl⟩ := List.append_of_mem hn
  rw [h.around.1]
  cases post with
  | nil =>
    intro heq
    exact h.head_notMem (heq ▸ hn)
  | cons v post =>
    have := h.nodup_tail
    simp only [List.nodup_append, List.nodup_cons, List.mem_cons] at this
    intro heq
    exact this.2.1.1 (Or.inl heq.symm)

/-- The two neighbours of a cell that has a successor are different cells. -/
theorem prev_ne_next (h : Ring next prev head l) (hn : n ∈ l) (hv : next n ≠ head) :
    prev n ≠ next n := by
  obtain ⟨pre, post, hl⟩ := h.exists_pair hn hv
  have hvl : next n ∈ n :: next n :: post := by simp
  rw [hl] at h
  rw [h.around.2]
  cases pre using List.reverseRecOn with
  | nil => exact Ne.symm hv
  | append_singleton pre m =>
    have hd := List.nodup_append.mp h.nodup_tail
    simpa using hd.2.2 m (by simp) (next n) hvl

/-- Appending a new cell behind the last one. -/
theorem snoc (h : Ring next prev head l) (hn : n ∉ head :: l)
    (hlast : next' (prev head) = n) (hnew : next' n = head)
    (hback : prev' n = prev head) (hhead : prev' head = n)
    (hnext : ∀ p, p ≠ prev head → p ≠ n → next' p = next p)
    (hprev : ∀ p, p ≠ head → p ≠ n → prev' p = prev p) :
    Ring next' prev' head (l ++ [n]) := by
  have hne : ∀ p ∈ head :: l, p ≠ n := fun p hp heq => hn (heq ▸ hp)
  constructor
  · refine links_append.mpr ⟨?_, hnew, hhead⟩
    -- the links change at the last node alone, so the list is split there
    cases l using List.reverseRecOn with
    | nil =>
      have hp := h.links.2
      rw [hp] at hlast hback
      exact ⟨hlast, hback⟩
    | append_singleton l x =>
      obtain ⟨h1, h2⟩ := links_append.mp h.links
      have hp : prev head = x := h2.2
      rw [hp] at hlast hback hnext
      refine links_append.mpr ⟨h1.congr ?_ ?_, hlast, hback⟩
      · intro p hp
        refine hnext p ?_ (hne p (by simp only [List.mem_cons, List.mem_append] at hp ⊢; tauto))
        intro heq
        have hd : (head :: l ++ [x]).Nodup := h.nodup
        exact (List.nodup_append.mp hd).2.2 p hp x List.mem_cons_self heq
      · intro p hp
        have hmem : p ∈ l ++ [x] := by
          simp only [List.mem_cons, List.mem_append] at hp ⊢
          tauto
        refine hprev p ?_ (hne p (List.mem_cons_of_mem head hmem))
        rintro rfl
        exact h.head_notMem hmem
  · show (head :: l ++ [n]).Nodup
    refine List.nodup_append.mpr ⟨h.nodup, List.nodup_singleton n, ?_⟩
    intro p hp q hq
    rw [List.mem_singleton.mp hq]
    exact hne p hp

/-- Splicing out the cell behind `n`. -/
theorem remove (h : Ring next prev head (pre ++ n :: v :: post))
    (hn : next' n = next v) (hv : prev' (next v) = n)
    (hnext : ∀ p, p ≠ n → p ≠ v → next' p = next p)
    (hprev : ∀ p, p ≠ next v → p ≠ v → prev' p = prev p) :
    Ring next' prev' head (pre ++ n :: post) := by
  have hd := h.nodup
  simp only [List.nodup_cons, List.mem_append, List.nodup_append, List.mem_cons] at hd
  obtain ⟨h1, h2⟩ := links_append.mp h.links
  obtain ⟨_, h3⟩ := h2
  have hafter := h.next_snd
  constructor
  -- the links up to `n` and those behind `v` are as they were, as no cell is met twice
  · refine links_append.mpr ⟨h1.congr ?_ ?_, ?_⟩
    · intro p hp
      apply hnext
      · rintro rfl
        rcases List.mem_cons.mp hp with heq | hp
        · exact hd.1 (Or.inr (Or.inl heq.symm))
        · exact hd.2.2.2 p hp p (Or.inl rfl) rfl
      · rintro rfl
        rcases List.mem_cons.mp hp with heq | hp
        · exact hd.1 (Or.inr (Or.inr (Or.inl heq.symm)))
        · exact hd.2.2.2 p hp p (Or.inr (Or.inl rfl)) rfl
    · intro p hp
      apply hprev
      · rw [hafter]
        rintro rfl
        cases post with
        | nil =>
          rcases List.mem_cons.mp hp with heq | hp
          · exact hd.1 (Or.inr (Or.inl heq))
          · exact hd.1 (Or.inl hp)
        | cons w post =>
          rcases List.mem_cons.mp hp with heq | hp
          · exact hd.2.2.1.1 (Or.inr (List.mem_cons.mpr (Or.inl heq.symm)))
          · exact hd.2.2.2 w hp w (by simp) rfl
      · rintro rfl
        rcases List.mem_cons.mp hp with heq | hp
        · exact hd.2.2.1.1 (Or.inl heq.symm)
        · exact hd.2.2.2 p hp p (Or.inr (Or.inl rfl)) rfl
    -- `n` is now linked to what followed `v`: the head again, or the next cell
    · cases post with
      | nil =>
        rw [hafter] at hn hv
        exact ⟨hn, hv⟩
      | cons w post =>
        rw [hafter] at hn hv
        refine ⟨⟨hn, hv⟩, h3.2.congr ?_ ?_⟩
        · intro p hp
          apply hnext
          · rintro rfl
            exact hd.2.2.1.1 (Or.inr hp)
          · rintro rfl
            exact hd.2.2.1.2.1 hp
        · intro p hp
          apply hprev
          · rw [hafter]
            rintro rfl
            rcases List.mem_cons.mp hp with heq | hp
            · exact hd.1 (Or.inr (Or.inr (Or.inr (by simp [← heq]))))
            · have hw := hd.2.2.1.2.2
              exact (List.nodup_cons.mp hw).1 hp
          · rintro rfl
            rcases List.mem_cons.mp hp with heq | hp
            · exact hd.1 (Or.inr (Or.inr (Or.inl heq.symm)))
            · exact hd.2.2.1.2.1 (List.mem_cons_of_mem w hp)
  · refine h.nodup.sublist (List.Sublist.cons_cons head (List.Sublist.append_left ?_ pre))
    exact List.Sublist.cons_cons n (List.sublist_cons_self v post)

end Ring

/-! ## Two rings cell by cell -/

section Facing

variable {P' : Type u} {a l : List P} {a' l' : List P'} {p q : P} {p' q' : P'}

/-- The two cells stand at the same place of the two lists. -/
def Facing (a : List P) (a' : List P') (p : P) (p' : P') : Prop :=
  ∃ i : ℕ, a[i]? = some p ∧ a'[i]? = some p'

theorem Facing.mem (h : Facing a a' p p') : p ∈ a ∧ p' ∈ a' := by
  obtain ⟨i, hi, hi'⟩ := h
  exact ⟨List.mem_of_getElem? hi, List.mem_of_getElem? hi'⟩

theorem facing_head (x : P) (x' : P') : Facing (x :: a) (x' :: a') x x' := ⟨0, rfl, rfl⟩

/-- What faces each other does so with one more node in front of both. -/
theorem Facing.cons (h : Facing a a' p p') (x : P) (x' : P') :
    Facing (x :: a) (x' :: a') p p' := by
  obtain ⟨i, hi, hi'⟩ := h
  exact ⟨i + 1, hi, hi'⟩

/-- A function that reads the same of both lists reads the same of facing cells. -/
theorem Facing.map_eq {V : Type*} {f : P → V} {f' : P' → V} (h : Facing a a' p p')
    (hmap : a.map f = a'.map f') : f p = f' p' := by
  obtain ⟨i, hi, hi'⟩ := h
  have hget := congrArg (fun m : List V => m[i]?) hmap
  rw [List.getElem?_map, List.getElem?_map, hi, hi'] at hget
  exact Option.some.inj hget

/-- A cell of a list without repetition has one place. -/
theorem place_unique (ha : a.Nodup) {i j : ℕ} (hi : a[i]? = some p) (hj : a[j]? = some p) :
    i = j := by
  obtain ⟨hlt, -⟩ := List.getElem?_eq_some_iff.mp hi
  exact (List.getElem?_inj hlt ha).mp (hi.trans hj.symm)

/-- Facing is one to one where no node repeats. -/
theorem Facing.eq_iff (ha : a.Nodup) (ha' : a'.Nodup) (hp : Facing a a' p p')
    (hq : Facing a a' q q') : p = q ↔ p' = q' := by
  obtain ⟨i, hi, hi'⟩ := hp
  obtain ⟨j, hj, hj'⟩ := hq
  constructor
  · rintro rfl
    obtain rfl := place_unique ha hi hj
    exact Option.some.inj (hi'.symm.trans hj')
  · rintro rfl
    obtain rfl := place_unique ha' hi' hj'
    exact Option.some.inj (hi.symm.trans hj)

variable {next prev : P → P} {next' prev' : P' → P'} {head : P} {head' : P'}

/-- The cells behind two facing cells face each other. -/
theorem Facing.behind (h : Ring next prev head l) (h' : Ring next' prev' head' l')
    (hlen : l.length = l'.length) (hp : Facing (head :: l) (head' :: l') p p') :
    Facing (head :: l) (head' :: l') (next p) (next' p') := by
  obtain ⟨i, hi, hi'⟩ := hp
  have hn := h.links.next_get hi
  have hn' := h'.links.next_get hi'
  by_cases hlt : i < l.length
  · rw [List.getElem?_append_left hlt] at hn
    rw [List.getElem?_append_left (hlen ▸ hlt)] at hn'
    exact ⟨i + 1, hn, hn'⟩
  · -- behind the last cells are the heads
    obtain ⟨hbound, -⟩ := List.getElem?_eq_some_iff.mp hi
    have hlast : i = l.length := by
      rw [List.length_cons] at hbound
      omega
    subst hlast
    rw [List.getElem?_concat_length] at hn
    rw [hlen, List.getElem?_concat_length] at hn'
    rw [← Option.some.inj hn, ← Option.some.inj hn']
    exact facing_head head head'

/-- The cells before two facing cells face each other. -/
theorem Facing.before (h : Ring next prev head l) (h' : Ring next' prev' head' l')
    (hlen : l.length = l'.length) (hp : Facing (head :: l) (head' :: l') p p') :
    Facing (head :: l) (head' :: l') (prev p) (prev' p') := by
  obtain ⟨i, hi, hi'⟩ := hp
  cases i with
  | zero =>
    -- before the heads are the last cells
    obtain rfl := Option.some.inj hi
    obtain rfl := Option.some.inj hi'
    have hback := h.links.prev_get (i := l.length) List.getElem?_concat_length
    have hback' := h'.links.prev_get (i := l'.length) List.getElem?_concat_length
    exact ⟨l.length, hback, hlen ▸ hback'⟩
  | succ i =>
    have hl : l[i]? = some p := hi
    have hl' : l'[i]? = some p' := hi'
    obtain ⟨hlt, -⟩ := List.getElem?_eq_some_iff.mp hl
    obtain ⟨hlt', -⟩ := List.getElem?_eq_some_iff.mp hl'
    exact ⟨i, h.links.prev_get ((List.getElem?_append_left hlt).trans hl),
      h'.links.prev_get ((List.getElem?_append_left hlt').trans hl')⟩

end Facing

/-! ## Reading a ring -/

/-- Read backwards, a chain is one with the pointers exchanged. -/
theorem Links.reverse {next prev : P → P} {a b : P} {l : List P}
    (h : Links next prev a l b) : Links prev next b l.reverse a := by
  induction l generalizing a with
  | nil => exact ⟨h.2, h.1⟩
  | cons x l ih =>
    rw [List.reverse_cons]
    refine links_append.mpr ⟨ih h.2, ?_⟩
    exact ⟨h.1.2, h.1.1⟩

/-- Read against the arrows, the ring is the reversed ring. -/
theorem Ring.reverse {next prev : P → P} {head : P} {l : List P}
    (h : Ring next prev head l) : Ring prev next head l.reverse := by
  refine ⟨h.links.reverse, List.nodup_cons.mpr ⟨?_, ?_⟩⟩
  · rw [List.mem_reverse]
    exact h.head_notMem
  · exact List.nodup_reverse.mpr h.nodup_tail

/-- The loop `for p := start; !stop(p); p = next(p)`, cut off after `fuel`
cells. `walk_take` shows what it reads of a ring. -/
def walk (next : P → P) (stop : P → Prop) [DecidablePred stop] : ℕ → P → List P
  | 0, _ => []
  | fuel + 1, p => if stop p then [] else p :: walk next stop fuel (next p)

section Walk

variable {next prev : P → P} {stop : P → Prop} [DecidablePred stop] {head a : P} {l : List P}

/-- A walk along a chain sees its nodes in order, as many as it has fuel for. -/
theorem walk_links (h : Links next prev a l head) (hhead : stop head)
    (hl : ∀ p ∈ l, ¬ stop p) (fuel : ℕ) : walk next stop fuel (next a) = l.take fuel := by
  induction l generalizing a fuel with
  | nil =>
    rw [h.1]
    cases fuel with
    | zero => rfl
    | succ fuel => simp [walk, hhead]
  | cons x l ih =>
    rw [h.1.1]
    cases fuel with
    | zero => rfl
    | succ fuel =>
      rw [walk, if_neg (hl x List.mem_cons_self), List.take_succ_cons,
        ih h.2 fun p hp => hl p (List.mem_cons_of_mem x hp)]

/-- The loop over a ring reads its first `fuel` cells. -/
theorem walk_take (h : Ring next prev head l) (hhead : stop head) (hl : ∀ p ∈ l, ¬ stop p)
    (fuel : ℕ) : walk next stop fuel (next head) = l.take fuel :=
  walk_links h.links hhead hl fuel

end Walk

end Symm.Lib
