import Mathlib.Data.List.Induction
import Mathlib.Order.Lattice

/-!
# The first best candidate

A scan that keeps the best candidate so far and replaces it only by a strictly
better one ends at the first of the best candidates, or where it started when no
candidate is better than that.

The scan is a fold over a list of candidates, with the best one so far and its worth as
its state. `foldl_better` describes the whole fold, by induction from the end of the
list: either nothing was better than the start, or the candidate that won has none as
good before it and none better behind it.
-/

namespace Symm.Lib

universe u v

variable {α : Type u} {K : Type v} [LinearOrder K] (gain : α → K)

/-- One turn of the scan. -/
def better (best : α × K) (a : α) : α × K := if best.2 < gain a then (a, gain a) else best

/-- The first of the best candidates, if one is better than the start. -/
theorem foldl_better (l : List α) (start : α × K) :
    (l.foldl (better gain) start = start ∧ ∀ a ∈ l, gain a ≤ start.2) ∨
      ∃ pre a post, l = pre ++ a :: post ∧ l.foldl (better gain) start = (a, gain a) ∧
        start.2 < gain a ∧ (∀ b ∈ pre, gain b < gain a) ∧ ∀ b ∈ post, gain b ≤ gain a := by
  induction l using List.reverseRecOn with
  | nil => exact .inl ⟨rfl, fun a ha => absurd ha List.not_mem_nil⟩
  | append_singleton l c ih =>
    rw [List.foldl_append, List.foldl_cons, List.foldl_nil]
    rcases ih with ⟨heq, hle⟩ | ⟨pre, a, post, rfl, heq, hstart, hpre, hpost⟩
    · -- nothing was better so far
      rw [heq, better]
      by_cases hc : start.2 < gain c
      · refine .inr ⟨l, c, [], rfl, if_pos hc, hc, fun b hb => (hle b hb).trans_lt hc, ?_⟩
        exact fun b hb => absurd hb List.not_mem_nil
      · refine .inl ⟨if_neg hc, fun b hb => ?_⟩
        rcases List.mem_append.mp hb with hb | hb
        · exact hle b hb
        · rw [List.mem_singleton.mp hb]
          exact not_lt.mp hc
    · rw [heq, better]
      by_cases hc : gain a < gain c
      · refine .inr ⟨_, c, [], rfl, if_pos hc, hstart.trans hc, fun b hb => ?_, ?_⟩
        · rcases List.mem_append.mp hb with hb | hb
          · exact (hpre b hb).trans hc
          · rcases List.mem_cons.mp hb with rfl | hb
            · exact hc
            · exact (hpost b hb).trans_lt hc
        · exact fun b hb => absurd hb List.not_mem_nil
      · refine .inr ⟨pre, a, post ++ [c], ?_, if_neg hc, hstart, hpre, fun b hb => ?_⟩
        · rw [List.append_assoc, List.cons_append]
        · rcases List.mem_append.mp hb with hb | hb
          · exact hpost b hb
          · rw [List.mem_singleton.mp hb]
            exact not_lt.mp hc

end Symm.Lib
