import Mathlib.Data.List.Basic

/-!
# Patches

A patch writes some of the settings of a record and leaves the others as they are.
After any patches a setting has the value that was written to it last.

- `Patch`, `patched`, `lastWrite`: records by their settings;
- `lastWrite_append`, `lastWrite_filter`: later patches win, idle ones do not count;
- `read_foldl`: a program whose steps patch its readings ends where the patches end.
-/

namespace Symm.Lib

universe u v w x

variable {K : Type u} {V : K → Type v}

/-- What is written to each setting, if anything. -/
abbrev Patch (V : K → Type v) := (k : K) → Option (V k)

/-- The settings after a patch. -/
def patched (settings : (k : K) → V k) (patch : Patch V) : (k : K) → V k :=
  fun k => (patch k).getD (settings k)

/-- What is written to a setting last. -/
def lastWrite (k : K) : List (Patch V) → Option (V k)
  | [] => none
  | patch :: later => (lastWrite k later).or (patch k)

variable {k : K} {patches earlier later : List (Patch V)}

/-- Later patches win. -/
theorem lastWrite_append :
    lastWrite k (earlier ++ later) = (lastWrite k later).or (lastWrite k earlier) := by
  induction earlier with
  | nil => exact Option.or_none.symm
  | cons patch earlier ih =>
    show (lastWrite k (earlier ++ later)).or (patch k) =
      (lastWrite k later).or ((lastWrite k earlier).or (patch k))
    rw [ih, Option.or_assoc]

/-- A key is written if some patch writes it. -/
theorem lastWrite_isSome : (lastWrite k patches).isSome ↔ ∃ patch ∈ patches, (patch k).isSome := by
  induction patches with
  | nil => simp [lastWrite]
  | cons patch patches ih =>
    rw [lastWrite, Option.isSome_or, Bool.or_eq_true, ih, List.exists_mem_cons_iff, or_comm]

/-- What does not write the setting makes no difference to it. -/
theorem lastWrite_filter {A : Type w} {writes : A → Patch V} {keeps : A → Bool} {actions : List A}
    (h : ∀ action ∈ actions, keeps action = false → writes action k = none) :
    lastWrite k ((actions.filter keeps).map writes) = lastWrite k (actions.map writes) := by
  induction actions with
  | nil => rfl
  | cons action actions ih =>
    obtain ⟨haction, hrest⟩ := List.forall_mem_cons.mp h
    rw [List.filter_cons]
    cases hkeeps : keeps action with
    | true => rw [if_pos rfl, List.map_cons, List.map_cons, lastWrite, lastWrite, ih hrest]
    | false =>
      rw [if_neg (by decide), ih hrest, List.map_cons, lastWrite, haction hkeeps, Option.or_none]

/-- The value that was written last stays. -/
theorem foldl_patched (settings : (k : K) → V k) (patches : List (Patch V)) (k : K) :
    patches.foldl patched settings k = (lastWrite k patches).getD (settings k) := by
  induction patches generalizing settings with
  | nil => rfl
  | cons patch patches ih =>
    rw [List.foldl_cons, ih, lastWrite]
    cases lastWrite k patches with
    | none => rfl
    | some value => rfl

/-- A program whose steps patch its readings. -/
theorem read_foldl {S : Type w} {A : Type x} {step : S → A → S} {read : S → (k : K) → V k}
    {writes : A → Patch V} (h : ∀ s a, read (step s a) = patched (read s) (writes a)) (s : S)
    (actions : List A) (k : K) :
    read (actions.foldl step s) k = (lastWrite k (actions.map writes)).getD (read s k) := by
  rw [← foldl_patched]
  induction actions generalizing s with
  | nil => rfl
  | cons action actions ih => rw [List.foldl_cons, ih, List.map_cons, List.foldl_cons, h]

end Symm.Lib
