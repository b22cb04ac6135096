import Mathlib.Algebra.BigOperators.Group.List.Basic
import Mathlib.Algebra.Order.BigOperators.Group.List
import Mathlib.Algebra.Order.Field.Rat
import Mathlib.Data.List.Sort
import Mathlib.Tactic.FieldSimp
import Mathlib.Tactic.Linarith

/-!
# Figures of a sample

The mean, the median and the least value of a list of numbers do not see its order, and
what is added to a sample leaves its mean alone only where it has the same mean.

The numbers are exact. A sum of doubles depends on its order in the last place; where that
shows, the mean is added up in order (`Symm.Lib.Doubles`) or left out.

- `mean`, `median`;
- `mean_perm`, `median_perm`, `min?_perm`: the order does not matter;
- `mean_append_iff`: what an addition does to a mean;
- `eq_of_sum_eq`: counts that are bounded one by one and agree in sum agree one by one.
-/

namespace Symm.Lib

universe u

/-- The mean, where there is a value. -/
def mean (values : List ℚ) : Option ℚ :=
  if values.length > 0 then some (values.sum / values.length) else none

/-- The middle value in ascending order, or the mean of the two. -/
def median (values : List ℚ) : ℚ :=
  let sorted := values.mergeSort (· ≤ ·)
  let mid := sorted.length / 2
  if sorted.length % 2 = 0 then (sorted.getD (mid - 1) 0 + sorted.getD mid 0) / 2
  else sorted.getD mid 0

variable {as bs : List ℚ}

/-- The exact mean does not depend on the order. -/
theorem mean_perm (h : as.Perm bs) : mean as = mean bs := by
  unfold mean
  rw [h.length_eq, h.sum_eq]

/-- Sorting forgets the order. -/
theorem mergeSort_perm_eq (h : as.Perm bs) :
    as.mergeSort (· ≤ ·) = bs.mergeSort (· ≤ ·) := by
  have hsorted : ∀ values : List ℚ,
      (values.mergeSort (· ≤ ·)).Pairwise fun a b => decide (a ≤ b) = true := by
    intro values
    refine List.pairwise_mergeSort (fun a b c hab hbc => ?_) (fun a b => ?_) values
    · simp only [decide_eq_true_eq] at *
      exact hab.trans hbc
    · simpa using le_total a b
  refine List.Perm.eq_of_pairwise (fun a b _ _ hab hba => ?_) (hsorted as) (hsorted bs)
    ((List.mergeSort_perm as _).trans (h.trans (List.mergeSort_perm bs _).symm))
  exact le_antisymm (of_decide_eq_true hab) (of_decide_eq_true hba)

/-- The median does not depend on the order. -/
theorem median_perm (h : as.Perm bs) : median as = median bs := by
  unfold median
  rw [mergeSort_perm_eq h]

/-- The least value does not depend on the order. -/
theorem min?_perm (h : as.Perm bs) : as.min? = bs.min? := by
  cases hmin : as.min? with
  | none =>
    rw [List.min?_eq_none_iff] at hmin
    rw [List.min?_eq_none_iff.mpr (hmin ▸ h).nil_eq.symm]
  | some least =>
    obtain ⟨hmem, hle⟩ := List.min?_eq_some_iff.mp hmin
    exact (List.min?_eq_some_iff.mpr
      ⟨h.mem_iff.mp hmem, fun b hb => hle b (h.mem_iff.mpr hb)⟩).symm

theorem mean_of_ne {values : List ℚ} (h : values ≠ []) :
    mean values = some (values.sum / values.length) :=
  if_pos (List.length_pos_iff.mpr h)

/-- Values added to a sample keep its mean where there are none, or they have that mean. -/
theorem mean_append_iff : mean (as ++ bs) = mean as ↔ bs = [] ∨ mean bs = mean as := by
  by_cases hbs : bs = []
  · simp [hbs]
  rw [or_iff_right hbs]
  by_cases has : as = []
  · rw [has, List.nil_append]
  have hcountA : (0 : ℚ) < as.length := by exact_mod_cast List.length_pos_iff.mpr has
  have hcountB : (0 : ℚ) < bs.length := by exact_mod_cast List.length_pos_iff.mpr hbs
  have hboth : as ++ bs ≠ [] := List.append_ne_nil_of_left_ne_nil has bs
  rw [mean_of_ne hboth, mean_of_ne has, mean_of_ne hbs, List.sum_append, List.length_append,
    Option.some_inj, Option.some_inj, Nat.cast_add,
    div_eq_div_iff (by positivity) hcountA.ne', div_eq_div_iff hcountB.ne' hcountA.ne']
  constructor
  · intro h
    linarith
  · intro h
    linarith

/-- What two readings give, of which one is silent where the other is not. -/
theorem filterMap_orElse_perm {α : Type u} {f g : α → Option ℚ} {items : List α}
    (h : ∀ a ∈ items, f a = none ∨ g a = none) :
    (items.filterMap fun a => f a <|> g a).Perm (items.filterMap f ++ items.filterMap g) := by
  induction items with
  | nil => exact .nil
  | cons first rest ih =>
    obtain ⟨hfirst, hrest⟩ := List.forall_mem_cons.mp h
    cases hf : f first with
    | none =>
      cases hg : g first with
      | none => simpa [List.filterMap_cons, hf, hg] using ih hrest
      | some value =>
        have hcons := ((ih hrest).cons value).trans List.perm_middle.symm
        simpa [List.filterMap_cons, hf, hg] using hcons
    | some value =>
      have hg : g first = none := hfirst.resolve_left (by simp [hf])
      simpa [List.filterMap_cons, hf, hg] using ih hrest

/-- Counts that are bounded one by one and agree in sum agree one by one. -/
theorem eq_of_sum_eq {α : Type u} {items : List α} {f g : α → ℕ} (hle : ∀ a ∈ items, f a ≤ g a)
    (hsum : (items.map f).sum = (items.map g).sum) : ∀ a ∈ items, f a = g a := by
  induction items with
  | nil => exact fun a ha => by cases ha
  | cons first rest ih =>
    obtain ⟨hfirst, hrest⟩ := List.forall_mem_cons.mp hle
    have hbound : (rest.map f).sum ≤ (rest.map g).sum := List.sum_le_sum hrest
    rw [List.map_cons, List.map_cons, List.sum_cons, List.sum_cons] at hsum
    refine List.forall_mem_cons.mpr ⟨by omega, ih hrest (by omega)⟩

end Symm.Lib
