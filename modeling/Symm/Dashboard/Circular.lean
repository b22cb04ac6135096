import Mathlib.Data.List.Range
import Symm.Lib.Window

/-!
# The circular buffer of the charts (`collections/circular.ts`)

A series is kept in a buffer of fixed size. Once it is full, a value that is pushed
takes the place of the oldest one, and the start of the buffer moves on.

- `Circular`: a buffer whose places in use hold a value;
- `push`, `values`: what is written and what is read;
- `values_push`, `values_foldl_push`: a buffer shows the window over all that was pushed.

A buffer in use is described by three numbers: its size, its count, and its start. A
value of the window is at the place `slot i`, counted from the start modulo the size,
and that places less than a turn apart differ (`mod_ne`) is what keeps a push from
disturbing the others. The two cases of `push`, with room and without, are `put` and
`turn`; each shows the window that `Lib.Window` describes, and so does every sequence of
pushes.
-/

namespace Symm.Dashboard

open Symm.Lib

universe u

/-- `Circular<T>(positions)`. -/
structure Circular (α : Type u) (positions : ℕ) where
  buffer : ℕ → Option α
  start : ℕ
  count : ℕ
  count_le : count ≤ positions
  isSome : ∀ i < count, (buffer ((start + i) % positions)).isSome

namespace Circular

variable {α : Type u} {positions : ℕ}

/-- A new buffer. -/
def empty (positions : ℕ) : Circular α positions where
  buffer := fun _ => none
  start := 0
  count := 0
  count_le := Nat.zero_le _
  isSome := fun i hi => absurd hi (Nat.not_lt_zero i)

/-- `buffer[index] = value`. -/
def write (buffer : ℕ → Option α) (index : ℕ) (value : α) : ℕ → Option α :=
  fun j => if j = index then some value else buffer j

/-- Writing empties no place. -/
theorem isSome_write {buffer : ℕ → Option α} {j : ℕ} (h : (buffer j).isSome) (index : ℕ)
    (value : α) : (write buffer index value j).isSome := by
  unfold write
  split
  · rfl
  · exact h

/-- Two places that are less than a turn apart are not the same. -/
theorem mod_ne {start i j : ℕ} (hij : i < j) (hj : j < i + positions) :
    (start + i) % positions ≠ (start + j) % positions := by
  intro heq
  have hmod : (start + j - (start + i)) % positions = 0 := Nat.sub_mod_eq_zero_of_mod_eq heq.symm
  rw [Nat.mod_eq_of_lt (by omega)] at hmod
  omega

/-- A value is written behind those in use. -/
def put (c : Circular α positions) (value : α) (hroom : c.count < positions) :
    Circular α positions where
  buffer := write c.buffer ((c.start + c.count) % positions) value
  start := c.start
  count := c.count + 1
  count_le := hroom
  isSome := by
    intro i hi
    rcases Nat.lt_succ_iff_lt_or_eq.mp hi with hlt | rfl
    · exact isSome_write (c.isSome i hlt) _ value
    · rw [write, if_pos rfl]
      rfl

/-- A value is written over the oldest one. -/
def turn (c : Circular α positions) (value : α) (hfull : c.count = positions) :
    Circular α positions where
  buffer := write c.buffer (c.start % positions) value
  start := (c.start + 1) % positions
  count := c.count
  count_le := c.count_le
  isSome := by
    intro i hi
    rw [Nat.mod_add_mod, Nat.add_assoc]
    rcases Nat.lt_or_ge (1 + i) c.count with hlt | hge
    · exact isSome_write (c.isSome (1 + i) hlt) _ value
    · have hend : 1 + i = positions := by omega
      rw [hend, Nat.add_mod_right, write, if_pos rfl]
      rfl

/-- `push`. -/
def push (c : Circular α positions) (value : α) : Circular α positions :=
  if positions = 0 then c
  else if hroom : c.count < positions then c.put value hroom
  else c.turn value (Nat.le_antisymm c.count_le (Nat.le_of_not_lt hroom))

/-- The place of a buffer that is `i` after its start. -/
def slot (c : Circular α positions) (i : ℕ) : Option α := c.buffer ((c.start + i) % positions)

/-- `values`. -/
def values (c : Circular α positions) : List α := (List.range c.count).filterMap c.slot

/-- The places in use, one by one. -/
theorem map_some_values (c : Circular α positions) :
    c.values.map some = (List.range c.count).map c.slot := by
  have hslots : ∀ is : List ℕ, (∀ i ∈ is, i < c.count) →
      (is.filterMap c.slot).map some = is.map c.slot := by
    intro is his
    induction is with
    | nil => rfl
    | cons i is ih =>
      obtain ⟨value, hvalue⟩ := Option.isSome_iff_exists.mp (c.isSome i (his i List.mem_cons_self))
      have hslot : c.slot i = some value := hvalue
      rw [List.filterMap_cons_some hslot, List.map_cons, List.map_cons, hslot,
        ih fun j hj => his j (List.mem_cons_of_mem i hj)]
  exact hslots _ fun i hi => List.mem_range.mp hi

/-- The values are as many as were counted. -/
theorem length_values (c : Circular α positions) : c.values.length = c.count := by
  have hlen := congrArg List.length c.map_some_values
  rwa [List.length_map, List.length_map, List.length_range] at hlen

theorem length_values_le (c : Circular α positions) : c.values.length ≤ positions := by
  rw [c.length_values]
  exact c.count_le

@[simp] theorem values_empty : (empty positions : Circular α positions).values = [] := rfl

section Push

variable {c : Circular α positions} {value : α}

theorem slot_put_of_lt (hroom : c.count < positions) {i : ℕ} (hi : i < c.count) :
    (c.put value hroom).slot i = c.slot i := if_neg (mod_ne hi (by omega))

theorem slot_put_self (hroom : c.count < positions) :
    (c.put value hroom).slot c.count = some value := if_pos rfl

/-- A full buffer turns: every value moves up by one place. -/
theorem slot_turn_of_lt (hfull : c.count = positions) {i : ℕ} (hi : i + 1 < positions) :
    (c.turn value hfull).slot i = c.slot (i + 1) := by
  show write c.buffer _ value (((c.start + 1) % positions + i) % positions) =
    c.buffer ((c.start + (i + 1)) % positions)
  have hplace : ((c.start + 1) % positions + i) % positions =
      (c.start + (i + 1)) % positions := by
    rw [Nat.mod_add_mod, Nat.add_assoc, Nat.add_comm 1 i]
  have hne : (c.start + 0) % positions ≠ (c.start + (i + 1)) % positions :=
    mod_ne (by omega) (by omega)
  rw [hplace]
  exact if_neg fun heq => hne heq.symm

/-- The value that was pushed is again the last one. -/
theorem slot_turn_last (hfull : c.count = positions) {i : ℕ} (hi : i + 1 = positions) :
    (c.turn value hfull).slot i = some value := by
  have hplace : ((c.start + 1) % positions + i) % positions = c.start % positions := by
    rw [Nat.mod_add_mod, Nat.add_assoc, Nat.add_comm 1 i, hi, Nat.add_mod_right]
  show write c.buffer _ value (((c.start + 1) % positions + i) % positions) = some value
  rw [hplace]
  exact if_pos rfl

/-- A buffer with room shows the value behind the others. -/
theorem values_put (hroom : c.count < positions) :
    (c.put value hroom).values = c.values ++ [value] := by
  apply List.map_injective_iff.mpr fun _ _ => Option.some.inj
  rw [map_some_values, List.map_append, c.map_some_values]
  show (List.range (c.count + 1)).map _ = _
  rw [List.range_succ, List.map_append]
  congr 1
  · apply List.map_congr_left
    intro i hi
    exact slot_put_of_lt hroom (List.mem_range.mp hi)
  · exact congrArg (fun x => [x]) (slot_put_self hroom)

/-- A full buffer shows the value in exchange for its oldest. -/
theorem values_turn (hfull : c.count = positions) (hpos : positions ≠ 0) :
    (c.turn value hfull).values = c.values.tail ++ [value] := by
  obtain ⟨k, hk⟩ : ∃ k, k + 1 = positions := ⟨positions - 1, by omega⟩
  have hcount : c.count = k + 1 := hfull.trans hk.symm
  apply List.map_injective_iff.mpr fun _ _ => Option.some.inj
  rw [map_some_values, List.map_append, List.map_tail, c.map_some_values]
  show (List.range c.count).map _ = _
  calc (List.range c.count).map (c.turn value hfull).slot
      = (List.range k).map (c.turn value hfull).slot ++ [(c.turn value hfull).slot k] := by
        rw [hcount, List.range_succ, List.map_append]
        rfl
    _ = (List.range k).map (fun i => c.slot (i + 1)) ++ [some value] := by
        rw [slot_turn_last hfull hk]
        congr 1
        apply List.map_congr_left
        intro i hi
        have := List.mem_range.mp hi
        exact slot_turn_of_lt hfull (by omega)
    _ = ((List.range c.count).map c.slot).tail ++ [some value] := by
        rw [hcount, List.range_succ_eq_map, List.map_cons, List.tail_cons, List.map_map]
        rfl

/-- A buffer shows the window over what it showed and the value that is pushed. -/
theorem values_push (c : Circular α positions) (value : α) :
    (c.push value).values = (c.values ++ [value]).rtake positions := by
  have hlen : (c.values ++ [value]).length = c.count + 1 := by
    rw [List.length_append, c.length_values]
    rfl
  have hle := c.count_le
  unfold push
  split
  · -- a buffer without places stays empty
    rename_i hpos
    have hnil : c.values = [] := by
      apply List.eq_nil_of_length_eq_zero
      rw [c.length_values]
      omega
    rw [hnil, hpos, List.rtake_zero]
  · split
    · rename_i hroom
      rw [values_put, rtake_of_length_le (by omega)]
    · rename_i hpos hroom
      rw [values_turn _ hpos, List.rtake, hlen, show c.count + 1 - positions = 1 by omega,
        List.drop_append_of_le_length (by rw [c.length_values]; omega), List.drop_one]

/-- A buffer shows the window over what it showed and all that was pushed since. -/
theorem values_foldl_push (c : Circular α positions) (pushed : List α) :
    (pushed.foldl push c).values = (c.values ++ pushed).rtake positions := by
  induction pushed generalizing c with
  | nil =>
    rw [List.append_nil, rtake_of_length_le c.length_values_le]
    rfl
  | cons value pushed ih =>
    rw [List.foldl_cons, ih, values_push, rtake_rtake_append, List.append_assoc]
    rfl

end Push

end Circular

end Symm.Dashboard
