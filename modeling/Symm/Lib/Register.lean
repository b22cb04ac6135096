import Mathlib.Order.WithBot
import Mathlib.Data.List.MinMax

/-!
# Registers that the newest entry wins

A register keeps a value and the stamp of the entry that it took last. An entry with
an older stamp is passed over; a newer one is taken over the value there is, which may
leave its trace in the result. `foldl_take_newest` says when it leaves none: whatever
entries come, in any order, the value is what the newest of them makes of a value that
no older entry leads out of.

- `take`: one entry, and `Newer`: whether it is taken;
- `foldl_take_newest`: what a list of entries leaves, where one stamp is the greatest;
- `exists_newest`: among entries with distinct stamps there is such a one.

What a value keeps of the older ones is in the predicate `C`, which the caller chooses:
it has to hold at first, and older entries have to keep it. The order in which entries
come is then of no account, which is what a view that is fed by several unordered
sources needs.
-/

namespace Symm.Lib

universe u v w

variable {X : Type u} {E : Type v} {S : Type w} [LinearOrder S]

/-- A value, and the stamp of the last entry taken. -/
abbrev Register (X : Type u) (S : Type w) := X × WithBot S

/-- The entry is newer than the one taken last. -/
def Newer (stamp : E → S) (register : Register X S) (entry : E) : Prop :=
  register.2 < stamp entry

instance (stamp : E → S) (register : Register X S) (entry : E) :
    Decidable (Newer stamp register entry) :=
  inferInstanceAs (Decidable (register.2 < stamp entry))

/-- An entry is taken where it is newer. -/
def take (merge : X → E → X) (stamp : E → S) (register : Register X S) (entry : E) : Register X S :=
  if Newer stamp register entry then (merge register.1 entry, stamp entry) else register

variable {merge : X → E → X} {stamp : E → S} {register : Register X S} {entries : List E}

/-- Entries that are not newer are passed over. -/
theorem foldl_take_of_not_newer (h : ∀ entry ∈ entries, ¬ Newer stamp register entry) :
    entries.foldl (take merge stamp) register = register := by
  induction entries with
  | nil => rfl
  | cons entry rest ih =>
    obtain ⟨hentry, hrest⟩ := List.forall_mem_cons.mp h
    have hpassed : take merge stamp register entry = register := if_neg hentry
    rw [List.foldl_cons, hpassed, ih hrest]

/-- The newest entry of all, if it comes first, is the only one that is taken. -/
theorem foldl_take_cons (register : Register X S) {newest : E} (hnew : Newer stamp register newest)
    (h : ∀ entry ∈ entries, stamp entry ≤ stamp newest) :
    (newest :: entries).foldl (take merge stamp) register =
      (merge register.1 newest, ↑(stamp newest)) := by
  have htaken : take merge stamp register newest = (merge register.1 newest, ↑(stamp newest)) :=
    if_pos hnew
  rw [List.foldl_cons, htaken]
  exact foldl_take_of_not_newer fun entry hentry =>
    not_lt_of_ge (WithBot.coe_le_coe.mpr (h entry hentry))

/-- The newest entry of all has the last word: where `C` holds of the first value and
older entries keep it, it is taken over a value of which `C` holds. -/
theorem foldl_take_newest (merge : X → E → X) (stamp : E → S) (register : Register X S)
    (entries : List E) (C : X → Prop) {newest : E} (hmem : newest ∈ entries)
    (hnew : Newer stamp register newest)
    (h : ∀ entry ∈ entries, entry ≠ newest → stamp entry < stamp newest) (hstart : C register.1)
    (hmerge : ∀ entry ∈ entries, Newer stamp register entry → ∀ x, C x → C (merge x entry)) :
    ∃ x, C x ∧ entries.foldl (take merge stamp) register = (merge x newest, ↑(stamp newest)) := by
  induction entries generalizing register with
  | nil => exact absurd hmem List.not_mem_nil
  | cons entry rest ih =>
    obtain ⟨hentry, hrest⟩ := List.forall_mem_cons.mp h
    obtain ⟨hentrymerge, hrestmerge⟩ := List.forall_mem_cons.mp hmerge
    -- after the newest entry nothing is taken
    by_cases heq : entry = newest
    · subst heq
      refine ⟨register.1, hstart, foldl_take_cons register hnew fun other hother => ?_⟩
      by_cases hsame : other = entry
      · rw [hsame]
      · exact (hrest other hother hsame).le
    · have hlater : newest ∈ rest := (List.mem_cons.mp hmem).resolve_left (Ne.symm heq)
      rw [List.foldl_cons]
      -- before it, an entry is taken or passed over, and the newest is still newer
      by_cases hnewer : Newer stamp register entry
      · have htaken : take merge stamp register entry = (merge register.1 entry, ↑(stamp entry)) :=
          if_pos hnewer
        rw [htaken]
        refine ih _ hlater (WithBot.coe_lt_coe.mpr (hentry heq)) hrest
          (hentrymerge hnewer register.1 hstart) ?_
        exact fun other hother hlt => hrestmerge other hother (lt_trans hnewer hlt)
      · have hpassed : take merge stamp register entry = register := if_neg hnewer
        rw [hpassed]
        exact ih register hlater hnew hrest hstart hrestmerge

/-- After an entry with a smaller stamp the newer one is newer still. -/
theorem newer_mk {entry newest : E} (x : X) (h : stamp entry < stamp newest) :
    Newer stamp (x, ↑(stamp entry)) newest := WithBot.coe_lt_coe.mpr h

/-- Nothing is newer than the newest, where that is not. -/
theorem not_newer_of_le {entry newest : E} (h : ¬ Newer stamp register newest)
    (hle : stamp entry ≤ stamp newest) : ¬ Newer stamp register entry := by
  intro hnewer
  exact h (lt_of_lt_of_le hnewer (WithBot.coe_le_coe.mpr hle))

/-- Among distinct stamps one is the newest. -/
theorem exists_newest (stamp : E → S) {entries : List E} (hne : entries ≠ [])
    (hdistinct : ∀ a ∈ entries, ∀ b ∈ entries, stamp a = stamp b → a = b) :
    ∃ newest ∈ entries, ∀ entry ∈ entries, entry ≠ newest → stamp entry < stamp newest := by
  obtain ⟨newest, hnewest⟩ := Option.ne_none_iff_exists'.mp
    (mt (List.argmax_eq_none (f := stamp)).mp hne)
  have hmem := List.argmax_mem hnewest
  refine ⟨newest, hmem, fun entry hentry hother => ?_⟩
  refine lt_of_le_of_ne (List.le_of_mem_argmax hentry hnewest) fun heq => ?_
  exact hother (hdistinct entry hentry newest hmem heq)

end Symm.Lib
