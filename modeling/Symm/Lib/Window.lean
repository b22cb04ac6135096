import Mathlib.Data.List.DropRight

/-!
# Sliding windows

A window of size `n` over a series is its last `n` elements, `List.rtake n`. A window
that drops its oldest element for each one that comes in is the window over all that came
in, wherever one starts to look.

- `length_rtake`, `rtake_of_length_le`: how much of a series is in its window;
- `rtake_rtake_append`: a window and what comes after it have the same window as the
  series they end;
- `getLast?_rtake`: the last element is in every window that has room.
-/

namespace Symm.Lib

universe u

variable {α : Type u} {l r : List α} {n : ℕ}

theorem length_rtake (l : List α) (n : ℕ) : (l.rtake n).length = min n l.length := by
  rw [List.rtake, List.length_drop]
  omega

theorem rtake_of_length_le (h : l.length ≤ n) : l.rtake n = l := by
  rw [List.rtake, Nat.sub_eq_zero_of_le h, List.drop_zero]

/-- Where the later part fills the window, the earlier one is out of it. -/
theorem rtake_append_of_le (h : n ≤ r.length) : (l ++ r).rtake n = r.rtake n := by
  have hlen : (l ++ r).length - n = l.length + (r.length - n) := by
    rw [List.length_append]
    omega
  rw [List.rtake, hlen, ← List.drop_drop, List.drop_left, List.rtake]

/-- The window over a series is the window over its window and what comes after it. -/
theorem rtake_rtake_append (l r : List α) (n : ℕ) :
    (l.rtake n ++ r).rtake n = (l ++ r).rtake n := by
  rcases le_or_gt l.length n with hle | hlt
  · rw [rtake_of_length_le hle]
  · -- what the first window leaves out is out of the second as well
    have hsplit : l.take (l.length - n) ++ l.rtake n = l := List.take_append_drop _ l
    have hroom : n ≤ (l.rtake n ++ r).length := by
      rw [List.length_append, length_rtake]
      omega
    calc (l.rtake n ++ r).rtake n
        = (l.take (l.length - n) ++ (l.rtake n ++ r)).rtake n := (rtake_append_of_le hroom).symm
      _ = (l ++ r).rtake n := by rw [← List.append_assoc, hsplit]

/-- The last value stays the last. -/
theorem getLast?_rtake (h : 0 < n) (l : List α) : (l.rtake n).getLast? = l.getLast? := by
  rcases List.eq_nil_or_concat l with rfl | ⟨init, a, rfl⟩
  · rw [List.rtake_nil]
  · obtain ⟨m, rfl⟩ : ∃ m, n = m + 1 := ⟨n - 1, by omega⟩
    rw [List.concat_eq_append, List.rtake_concat_succ, List.getLast?_append, List.getLast?_append]
    rfl

end Symm.Lib
