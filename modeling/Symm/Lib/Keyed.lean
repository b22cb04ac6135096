import Mathlib.Data.List.Nodup
import Mathlib.Data.List.Perm.Subperm

/-!
# Values under keys that they carry

A finite map whose values carry their keys, in the order in which they were put: a
value that is put again goes to the end. There is one value for a key, which the type
keeps.

- `Keyed.get?`, `Keyed.put`, `Keyed.erase`, `Keyed.keep`: the map, and what each
  change of it leaves under a key;
- `Keyed.first`, `Keyed.count`: the oldest value of a kind, and how many there are.
-/

namespace Symm.Lib

universe u v

/-- Values with keys of their own, the oldest first. -/
@[ext] structure Keyed {ν : Type u} {κ : Type v} (key : ν → κ) where
  values : List ν
  nodup : (values.map key).Nodup

namespace Keyed

variable {ν : Type u} {κ : Type v} {key : ν → κ}

theorem nodup_nil : (([] : List ν).map key).Nodup := List.nodup_nil

/-- No values. -/
def empty : Keyed key := ⟨[], nodup_nil⟩

theorem nodup_filter (map : Keyed key) (p : ν → Bool) : ((map.values.filter p).map key).Nodup :=
  map.nodup.sublist (List.filter_sublist.map key)

/-- The values that meet `p`. -/
def keep (p : ν → Bool) (map : Keyed key) : Keyed key := ⟨map.values.filter p, map.nodup_filter p⟩

/-- The oldest value that meets `p`. -/
def first (p : ν → Bool) (map : Keyed key) : Option ν := map.values.find? p

/-- How many values meet `p`. -/
def count (p : ν → Bool) (map : Keyed key) : ℕ := map.values.countP p

/-- A value of the map that meets `p` and is the oldest such one. -/
theorem first_mem {map : Keyed key} {p : ν → Bool} {value : ν} (h : map.first p = some value) :
    value ∈ map.values ∧ p value = true :=
  ⟨List.mem_of_find?_eq_some h, List.find?_some h⟩

/-- Values of which none is removed stay as they are. -/
theorem keep_eq_self {map : Keyed key} {p : ν → Bool} (h : ∀ value ∈ map.values, p value = true) :
    map.keep p = map :=
  Keyed.ext (List.filter_eq_self.mpr h)

/-- There are no more values of a kind than keys that such values have. -/
theorem count_le_of_keys {map : Keyed key} {p : ν → Bool} {keys : List κ}
    (h : ∀ value ∈ map.values, p value = true → key value ∈ keys) :
    map.count p ≤ keys.length := by
  have hsub : (map.values.filter p).map key ⊆ keys := by
    intro k hk
    obtain ⟨value, hvalue, rfl⟩ := List.mem_map.mp hk
    obtain ⟨hmem, hp⟩ := List.mem_filter.mp hvalue
    exact h value hmem hp
  have hle := ((map.nodup_filter p).subperm hsub).length_le
  rw [List.length_map, ← List.countP_eq_length_filter] at hle
  exact hle

variable [DecidableEq κ]

/-- The value with the key. -/
def get? (map : Keyed key) (k : κ) : Option ν := map.values.find? fun value => key value = k

/-- The map without the key. -/
def erase (map : Keyed key) (k : κ) : Keyed key := map.keep fun value => key value ≠ k

/-- Putting a value in replaces the one under its key. -/
theorem nodup_put (map : Keyed key) (value : ν) :
    (((map.values.filter fun v => key v ≠ key value) ++ [value]).map key).Nodup := by
  rw [List.map_append, List.nodup_append]
  refine ⟨map.nodup_filter _, List.nodup_singleton _, ?_⟩
  intro k hk k' hk'
  obtain ⟨v, hv, rfl⟩ := List.mem_map.mp hk
  simp only [List.map_cons, List.map_nil, List.mem_singleton] at hk'
  have hne := (List.mem_filter.mp hv).2
  rw [hk']
  simpa using hne

/-- The map with the value at its end. -/
def put (map : Keyed key) (value : ν) : Keyed key :=
  ⟨(map.values.filter fun v => key v ≠ key value) ++ [value], map.nodup_put value⟩

section

variable {map : Keyed key} {k : κ} {value : ν}

/-- What is found under a key is a value of the map with that key. -/
theorem get?_eq_some : map.get? k = some value ↔ value ∈ map.values ∧ key value = k := by
  constructor
  · intro h
    exact ⟨List.mem_of_find?_eq_some h, by simpa using List.find?_some h⟩
  · rintro ⟨hmem, rfl⟩
    -- another value with the key would be the same one
    obtain ⟨v, hv⟩ : ∃ v, map.get? (key value) = some v :=
      Option.isSome_iff_exists.mp (List.find?_isSome.mpr ⟨value, hmem, by simp⟩)
    have hkey : key v = key value := by simpa using List.find?_some hv
    rw [hv, List.inj_on_of_nodup_map map.nodup (List.mem_of_find?_eq_some hv) hmem hkey]

theorem key_of_get? (h : map.get? k = some value) : key value = k := (get?_eq_some.mp h).2

/-- Keeping some values keeps those found. -/
theorem get?_keep {p : ν → Bool} : (map.keep p).get? k = (map.get? k).filter p := by
  refine Option.ext fun value => ?_
  rw [get?_eq_some, Option.filter_eq_some_iff, get?_eq_some]
  unfold keep
  rw [List.mem_filter]
  tauto

/-- Erasing a key empties its place alone. -/
theorem get?_erase {other : κ} :
    (map.erase other).get? k = if k = other then none else map.get? k := by
  unfold erase
  rw [get?_keep]
  refine Option.ext fun value => ?_
  rw [Option.filter_eq_some_iff]
  by_cases hk : k = other
  · rw [if_pos hk]
    refine iff_of_false ?_ (by simp)
    rintro ⟨hget, hne⟩
    simp [key_of_get? hget, hk] at hne
  · rw [if_neg hk]
    refine and_iff_left_of_imp fun hget => ?_
    simpa [key_of_get? hget] using hk

/-- Putting a value in fills its place alone. -/
theorem get?_put : (map.put value).get? k = if k = key value then some value else map.get? k := by
  refine Option.ext fun v => ?_
  rw [get?_eq_some]
  unfold put
  rw [List.mem_append, List.mem_filter, List.mem_singleton]
  by_cases hk : k = key value
  · rw [if_pos hk, Option.some.injEq]
    constructor
    · rintro ⟨⟨-, hne⟩ | rfl, rfl⟩
      · simp [hk] at hne
      · rfl
    · rintro rfl
      exact ⟨.inr rfl, hk.symm⟩
  · rw [if_neg hk, get?_eq_some]
    constructor
    · rintro ⟨⟨hmem, -⟩ | rfl, rfl⟩
      · exact ⟨hmem, rfl⟩
      · exact absurd rfl hk
    · rintro ⟨hmem, rfl⟩
      exact ⟨.inl ⟨hmem, by simpa using hk⟩, rfl⟩

/-- Without a value fewer are left. -/
theorem length_erase_lt (h : map.get? k = some value) :
    (map.erase k).values.length < map.values.length := by
  obtain ⟨hmem, hkey⟩ := get?_eq_some.mp h
  refine List.length_filter_lt_length_iff_exists.mpr ⟨value, hmem, ?_⟩
  simpa using hkey

end

end Keyed

end Symm.Lib
