import Mathlib.Data.List.Dedup
import Mathlib.Data.List.Lex
import Mathlib.Data.List.Sort
import Mathlib.Order.Nat

/-!
# Texts in the order of their code units

A script sorts texts by their UTF-16 code units, which is not the order of their
characters: those beyond the basic plane sort by the first of two surrogates.

- `units`: the code units of a text;
- `units_inj`: they determine it, so that the order is antisymmetric;
- `sortTexts`: `sort()`, and `sortTexts_perm`: it does not see the order it is given;
- `sortSet`: the sorted members of a list, each once.
-/

namespace Symm.Lib

/-- The UTF-16 code units of a character. -/
def charUnits (c : Char) : List ℕ :=
  if c.toNat < 0x10000 then [c.toNat]
  else [0xD800 + (c.toNat - 0x10000) / 0x400, 0xDC00 + (c.toNat - 0x10000) % 0x400]

/-- The UTF-16 code units of a text. -/
def units (text : String) : List ℕ := text.toList.flatMap charUnits

/-- `sort()` of texts. -/
def sortTexts (texts : List String) : List String :=
  texts.mergeSort fun a b => units a ≤ units b

/-- The sorted texts of `new Set(texts)`. -/
def sortSet (texts : List String) : List String := sortTexts texts.dedup

/-! ## Code units -/

/-- A character of the basic plane is no surrogate. -/
theorem not_surrogate (c : Char) :
    c.toNat < 0xD800 ∨ 0xDFFF < c.toNat ∧ c.toNat < 0x110000 := c.valid

/-- The first code unit tells how many the character has. -/
theorem charUnits_append_inj {c d : Char} {us vs : List ℕ}
    (h : charUnits c ++ us = charUnits d ++ vs) : c = d ∧ us = vs := by
  have hc := not_surrogate c
  have hd := not_surrogate d
  unfold charUnits at h
  split at h <;> split at h
  · obtain ⟨hhead, htail⟩ := List.cons.inj h
    exact ⟨Char.toNat_inj.mp hhead, htail⟩
  · -- a surrogate against a character of the basic plane
    obtain ⟨hhead, -⟩ := List.cons.inj h
    omega
  · obtain ⟨hhead, -⟩ := List.cons.inj h
    omega
  · obtain ⟨hhigh, hrest⟩ := List.cons.inj h
    obtain ⟨hlow, htail⟩ := List.cons.inj hrest
    exact ⟨Char.toNat_inj.mp (by omega), htail⟩

/-- The code units of a text tell its characters: a surrogate is half of none but its own.
-/
theorem flatMap_charUnits_inj : ∀ {cs ds : List Char},
    cs.flatMap charUnits = ds.flatMap charUnits → cs = ds
  | [], [], _ => rfl
  | [], d :: ds, h => by
    rw [List.flatMap_cons, List.flatMap_nil] at h
    unfold charUnits at h
    split at h <;> cases h
  | c :: cs, [], h => by
    rw [List.flatMap_cons, List.flatMap_nil] at h
    unfold charUnits at h
    split at h <;> cases h
  | c :: cs, d :: ds, h => by
    rw [List.flatMap_cons, List.flatMap_cons] at h
    obtain ⟨rfl, hrest⟩ := charUnits_append_inj h
    rw [flatMap_charUnits_inj hrest]

theorem units_inj {a b : String} (h : units a = units b) : a = b :=
  String.toList_inj.mp (flatMap_charUnits_inj h)

/-! ## Sorting -/

/-- Sorting puts texts in the order of their code units. -/
theorem sortTexts_sorted (texts : List String) :
    (sortTexts texts).Pairwise fun a b => units a ≤ units b := by
  have hsorted : (sortTexts texts).Pairwise fun a b => decide (units a ≤ units b) = true := by
    refine List.pairwise_mergeSort (fun a b c hab hbc => ?_) (fun a b => ?_) texts
    · exact decide_eq_true ((of_decide_eq_true hab).trans (of_decide_eq_true hbc))
    · rcases le_total (units a) (units b) with h | h
      · rw [decide_eq_true h, Bool.true_or]
      · rw [decide_eq_true h, Bool.or_true]
  exact hsorted.imp of_decide_eq_true

theorem perm_sortTexts (texts : List String) : (sortTexts texts).Perm texts :=
  List.mergeSort_perm _ _

@[simp] theorem mem_sortTexts {text : String} {texts : List String} :
    text ∈ sortTexts texts ↔ text ∈ texts := (perm_sortTexts texts).mem_iff

/-- A sorted list is the only one of its members. -/
theorem eq_of_sorted {as bs : List String} (h : as.Perm bs)
    (ha : as.Pairwise fun a b => units a ≤ units b)
    (hb : bs.Pairwise fun a b => units a ≤ units b) : as = bs :=
  h.eq_of_pairwise (fun _ _ _ _ hab hba => units_inj (le_antisymm hab hba)) ha hb

theorem sortTexts_perm {as bs : List String} (h : as.Perm bs) : sortTexts as = sortTexts bs :=
  eq_of_sorted ((perm_sortTexts as).trans (h.trans (perm_sortTexts bs).symm))
    (sortTexts_sorted as) (sortTexts_sorted bs)

@[simp] theorem mem_sortSet {text : String} {texts : List String} :
    text ∈ sortSet texts ↔ text ∈ texts := by
  unfold sortSet
  rw [mem_sortTexts, List.mem_dedup]

@[simp] theorem sortSet_nil : sortSet [] = [] := by
  unfold sortSet
  rw [List.dedup_nil]
  exact (perm_sortTexts []).eq_nil

theorem sortSet_nodup (texts : List String) : (sortSet texts).Nodup :=
  (perm_sortTexts _).nodup_iff.mpr (List.nodup_dedup texts)

/-- Sorted without repetition, texts depend on their members only. -/
theorem sortSet_congr {as bs : List String} (h : ∀ text, text ∈ as ↔ text ∈ bs) :
    sortSet as = sortSet bs := by
  refine sortTexts_perm ((List.perm_ext_iff_of_nodup (List.nodup_dedup as)
    (List.nodup_dedup bs)).mpr fun text => ?_)
  rw [List.mem_dedup, List.mem_dedup]
  exact h text

theorem sortSet_sortSet (texts : List String) : sortSet (sortSet texts) = sortSet texts :=
  sortSet_congr fun _ => mem_sortSet

example : units "😀" = [0xD83D, 0xDE00] ∧ "\uFFFF" < "😀" ∧ units "😀" < units "\uFFFF" := by
  decide +kernel

end Symm.Lib
