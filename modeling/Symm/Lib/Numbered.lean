import Mathlib.Data.List.Nodup
import Mathlib.Data.List.ReduceOption

/-!
# Numbered names

A list is written under a name and its numbers, beside entries under other names; it is
read back by counting up to the first name that is absent. An entry that is written
twice keeps the last value.

- `numbered`, `readNumbered`: the two directions;
- `readNumbered_take`: as many values come back as are asked for.
-/

namespace Symm.Lib

universe u

variable {α : Type u}

/-- The values of a list under numbered names. -/
def numbered (name : String) (values : List α) : List (String × α) :=
  values.zipIdx.map fun entry => (name ++ toString entry.2, entry.1)

/-- The values under the first `count` numbered names, up to the first that is absent. -/
def readNumbered (count : ℕ) (name : String) (look : String → Option α) : List α :=
  (((List.range count).map fun i => look (name ++ toString i)).takeWhile
    Option.isSome).reduceOption

/-- Numbered names tell their numbers. -/
theorem numberedName_inj {name : String} {m n : ℕ}
    (h : name ++ toString m = name ++ toString n) : m = n := by
  have hlist := congrArg String.toList h
  rw [String.toList_append, String.toList_append] at hlist
  have hdigits : (toString m).toList = (toString n).toList := List.append_cancel_left hlist
  rw [Nat.toString_eq_ofList_toDigits, Nat.toString_eq_ofList_toDigits, String.toList_ofList,
    String.toList_ofList] at hdigits
  rw [← Nat.ofDigitChars_ten_toDigits (n := m), ← Nat.ofDigitChars_ten_toDigits (n := n), hdigits]

/-- Under each name is the value of that place. -/
theorem mem_numbered {name : String} {values : List α} {i : ℕ} {value : α} :
    (name ++ toString i, value) ∈ numbered name values ↔ values[i]? = some value := by
  unfold numbered
  rw [List.mem_map]
  constructor
  · rintro ⟨⟨found, index⟩, hmem, heq⟩
    obtain ⟨hname, rfl⟩ := Prod.mk.inj heq
    rw [← numberedName_inj hname]
    exact List.mem_zipIdx_iff_getElem?.mp hmem
  · exact fun h => ⟨(value, i), List.mem_zipIdx_iff_getElem?.mpr h, rfl⟩

/-- No two values share a name. -/
theorem nodup_numbered (name : String) (values : List α) :
    ((numbered name values).map Prod.fst).Nodup := by
  have hkeys : (numbered name values).map Prod.fst =
      (List.range values.length).map fun i => name ++ toString i := by
    unfold numbered
    rw [List.map_map, List.range_eq_range', ← List.zipIdx_map_snd, List.map_map]
    rfl
  rw [hkeys]
  exact List.nodup_range.map fun _ _ => numberedName_inj

/-- Among entries under different names each is found, wherever it stands. -/
theorem lookup_of_mem {entries : List (String × α)} {name : String} {value : α}
    (hnodup : (entries.map Prod.fst).Nodup) (h : (name, value) ∈ entries) :
    entries.lookup name = some value := by
  induction entries with
  | nil => cases h
  | cons entry rest ih =>
    obtain ⟨habsent, hrest⟩ := List.nodup_cons.mp hnodup
    rcases List.mem_cons.mp h with rfl | hmem
    · exact List.lookup_cons_self
    · have hne : name ≠ entry.1 := fun heq =>
        habsent (heq ▸ List.mem_map_of_mem (f := Prod.fst) hmem)
      rw [List.lookup_cons, beq_false_of_ne hne]
      exact ih hrest hmem

/-- The values are found under their numbers, also where the last entry counts. -/
theorem lookup_numbered_reverse (name : String) (values : List α) (i : ℕ) :
    (numbered name values).reverse.lookup (name ++ toString i) = values[i]? := by
  cases hvalue : values[i]? with
  | none =>
    rw [List.lookup_eq_none_iff]
    rintro ⟨key, value⟩ hmem
    rw [bne_iff_ne]
    rintro rfl
    rw [List.mem_reverse, mem_numbered, hvalue] at hmem
    cases hmem
  | some value =>
    refine lookup_of_mem ?_ (List.mem_reverse.mpr (mem_numbered.mpr hvalue))
    rw [List.map_reverse, List.nodup_reverse]
    exact nodup_numbered name values

/-- Counting up to the first absent value gives the first values. -/
theorem counted_eq_take (count : ℕ) (values : List α) :
    (((List.range count).map fun i => values[i]?).takeWhile Option.isSome).reduceOption =
      values.take count := by
  induction count generalizing values with
  | zero => rfl
  | succ count ih =>
    rw [List.range_succ_eq_map, List.map_cons, List.map_map]
    cases values with
    | nil => rfl
    | cons value rest =>
      rw [List.take_succ_cons, ← ih rest]
      rfl

/-- What is found under numbered names is read back. -/
theorem readNumbered_take {count : ℕ} {name : String} {look : String → Option α}
    {values : List α} (h : ∀ i : ℕ, look (name ++ toString i) = values[i]?) :
    readNumbered count name look = values.take count := by
  unfold readNumbered
  simp only [h]
  exact counted_eq_take count values

end Symm.Lib
