import Mathlib.Data.List.Basic

/-!
# Consecutive pieces of a list

`chunk n xs` cuts a list into pieces of `n` elements, the last one maybe shorter.
Nothing is lost by it: `flatten_chunk`.
-/

namespace Symm.Lib

universe u

variable {α : Type u}

/-- The pieces of a list of at most `fuel` elements. -/
def chunkFuel (n : ℕ) : ℕ → List α → List (List α)
  | 0, _ => []
  | _ + 1, [] => []
  | fuel + 1, x :: xs => (x :: xs).take n :: chunkFuel n fuel ((x :: xs).drop n)

/-- The consecutive pieces of length `n`. -/
def chunk (n : ℕ) (xs : List α) : List (List α) := chunkFuel n xs.length xs

theorem flatten_chunkFuel {n : ℕ} (hn : 0 < n) {fuel : ℕ} {xs : List α}
    (hfuel : xs.length ≤ fuel) : (chunkFuel n fuel xs).flatten = xs := by
  induction fuel generalizing xs with
  | zero =>
    rw [List.eq_nil_of_length_eq_zero (Nat.le_zero.1 hfuel)]
    rfl
  | succ fuel ih =>
    cases xs with
    | nil => rfl
    | cons x xs =>
      have hrest : ((x :: xs).drop n).length ≤ fuel := by
        simp only [List.length_drop, List.length_cons] at hfuel ⊢
        omega
      rw [chunkFuel, List.flatten_cons, ih hrest, List.take_append_drop]

theorem flatten_chunk {n : ℕ} (hn : 0 < n) (xs : List α) : (chunk n xs).flatten = xs :=
  flatten_chunkFuel hn (Nat.le_refl _)

end Symm.Lib
