import Mathlib.Data.List.AList
import Mathlib.Algebra.BigOperators.Group.List.Basic
import Mathlib.Tactic.Abel

/-!
# Totals over finite maps

The sum of a weight over the values of an association list, and what inserting
a new key and erasing a key do to it.
-/

namespace Symm.Lib

universe u v w

variable {κ : Type u} {ν : Type v} {M : Type w} [DecidableEq κ] [AddCommGroup M]

/-- The sum of the weights of all values. -/
def total (weight : ν → M) (map : AList fun _ : κ => ν) : M :=
  (map.entries.map fun entry => weight entry.2).sum

/-- The weight of the value at a key, zero without one. -/
def weightAt (weight : ν → M) (map : AList fun _ : κ => ν) (key : κ) : M :=
  ((map.lookup key).map weight).getD 0

/-- A total only depends on the weights of the values present. -/
theorem total_congr {f g : ν → M} {map : AList fun _ : κ => ν}
    (h : ∀ key value, map.lookup key = some value → f value = g value) :
    total f map = total g map := by
  unfold total
  congr 1
  refine List.map_congr_left fun entry hentry => ?_
  obtain ⟨key, value⟩ := entry
  exact h key value (AList.mem_lookup_iff.mpr hentry)

/-- A new key adds its weight. -/
theorem total_insert {weight : ν → M} {map : AList fun _ : κ => ν} {key : κ} {value : ν}
    (h : map.lookup key = none) :
    total weight (map.insert key value) = weight value + total weight map := by
  have hkey : key ∉ map := AList.lookup_eq_none.mp h
  unfold total
  rw [AList.entries_insert_of_notMem hkey, List.map_cons, List.sum_cons]

/-- Erasing a key takes its weight out. -/
theorem total_erase (weight : ν → M) (map : AList fun _ : κ => ν) (key : κ) :
    total weight (map.erase key) = total weight map - weightAt weight map key := by
  cases hl : map.lookup key with
  | none =>
    have herase : (map.erase key).entries = map.entries :=
      List.kerase_of_notMem_keys (AList.lookup_eq_none.mp hl)
    simp only [total, herase, weightAt, hl, Option.map_none, Option.getD_none, sub_zero]
  | some value =>
    have hmem : key ∈ map.entries.keys := by
      show key ∈ map
      rw [← AList.lookup_isSome, hl, Option.isSome_some]
    obtain ⟨b, front, back, -, hentries, herase⟩ := List.exists_of_kerase hmem
    have hb : b = value := by
      have hin : (⟨key, b⟩ : (_ : κ) × ν) ∈ map.entries := by
        rw [hentries]
        exact List.mem_append_right _ List.mem_cons_self
      exact Option.some.inj ((AList.mem_lookup_iff.mpr hin).symm.trans hl)
    have htotal : total weight (map.erase key) =
        ((front ++ back).map fun entry => weight entry.2).sum := by
      rw [← herase]
      rfl
    rw [htotal]
    simp only [total, weightAt, hl, hentries, hb, List.map_append, List.map_cons,
      List.sum_append, List.sum_cons, Option.map_some, Option.getD_some]
    abel

end Symm.Lib
