import Mathlib.Algebra.Order.BigOperators.Group.List
import Mathlib.Data.List.Perm.Subperm

/-!
# Accounts kept by many workers

A table of workers, each of which delivers at most one result when it is done, and a
stock of weighted items that the results are meant to add up to.

- `filterMap_set_same`, `filterMap_set_done`: what is delivered when one worker moves;
- `sum_eq_iff_length_eq`: picks without repetition from a stock of positive weights
  weigh as much as the stock exactly when nothing of it is left.
-/

namespace Symm.Lib

universe u v w

section Workers

variable {α : Type u} {β : Type v} {deliver : α → Option β}

/-- A worker that moves without delivering changes nothing. -/
theorem filterMap_set_same {workers : List α} {i : ℕ} {worker moved : α}
    (hi : workers[i]? = some worker) (h : deliver moved = deliver worker) :
    (workers.set i moved).filterMap deliver = workers.filterMap deliver := by
  induction workers generalizing i with
  | nil => rfl
  | cons first rest ih =>
    cases i with
    | zero =>
      obtain rfl : first = worker := by simpa using hi
      rw [List.set_cons_zero, List.filterMap_cons, List.filterMap_cons, h]
    | succ i =>
      rw [List.set_cons_succ, List.filterMap_cons, List.filterMap_cons, ih (by simpa using hi)]

/-- A worker that is done adds its result, wherever it stands in the table. -/
theorem filterMap_set_done {workers : List α} {i : ℕ} {worker moved : α} {result : β}
    (hi : workers[i]? = some worker) (hbefore : deliver worker = none)
    (hafter : deliver moved = some result) :
    ((workers.set i moved).filterMap deliver).Perm (workers.filterMap deliver ++ [result]) := by
  induction workers generalizing i with
  | nil => simp at hi
  | cons first rest ih =>
    cases i with
    | zero =>
      obtain rfl : first = worker := by simpa using hi
      rw [List.set_cons_zero, List.filterMap_cons_some hafter, List.filterMap_cons_none hbefore]
      exact (List.perm_append_singleton result _).symm
    | succ i =>
      have hrest := ih (i := i) (by simpa using hi)
      rw [List.set_cons_succ]
      cases hfirst : deliver first with
      | none =>
        rw [List.filterMap_cons_none hfirst, List.filterMap_cons_none hfirst]
        exact hrest
      | some delivered =>
        rw [List.filterMap_cons_some hfirst, List.filterMap_cons_some hfirst]
        exact hrest.cons delivered

end Workers

section Stock

variable {α : Type u} {K : Type w} [AddCommMonoid K] [PartialOrder K]
  [IsOrderedCancelAddMonoid K] {weight : α → K} {picks stock : List α}

/-- Of positive weights, a part weighs as much as the whole only if it is the whole. -/
theorem sum_eq_iff_length_eq (hsub : picks.Subperm stock) (hpos : ∀ a ∈ stock, 0 < weight a) :
    (picks.map weight).sum = (stock.map weight).sum ↔ picks.length = stock.length := by
  obtain ⟨picked, hpicked, hsublist⟩ := hsub
  obtain ⟨rest, hrest⟩ := hsublist.exists_perm_append
  have hall : stock.Perm (picks ++ rest) := hrest.trans (hpicked.append_right rest)
  have hsum : (stock.map weight).sum = (picks.map weight).sum + (rest.map weight).sum := by
    rw [(hall.map weight).sum_eq, List.map_append, List.sum_append]
  have hlength : stock.length = picks.length + rest.length := by
    rw [hall.length_eq, List.length_append]
  rw [hsum, hlength]
  cases rest with
  | nil => simp
  | cons a rest =>
    have hleft : 0 < ((a :: rest).map weight).sum := by
      refine List.sum_pos _ (fun x hx => ?_) (by simp)
      obtain ⟨b, hb, rfl⟩ := List.mem_map.mp hx
      exact hpos b (hall.symm.subset (List.mem_append_right picks hb))
    have hmore := lt_add_of_pos_right (picks.map weight).sum hleft
    constructor
    · intro heq
      exact absurd heq hmore.ne
    · intro heq
      simp at heq

end Stock

end Symm.Lib
