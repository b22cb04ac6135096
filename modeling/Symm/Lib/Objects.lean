import Mathlib.Data.List.AList
import Mathlib.Data.String.Basic

/-!
# Object stores and their keys

A finite map from keys to objects that is written one key at a time, listed by
key prefix and deleted by key prefix. Deletion is where such a store differs
from a map: it takes every key that continues the prefix with it.

A prefix test on texts is taken to their characters, so the lemmas on lists apply. A
store is an association list without repetitions; reading, writing and listing it are
then those of `AList`, and only the deletion by prefix is new. `lookup_deletePrefix` and
`lookup_foldl_deletePrefix` say what is left under a key, for one prefix and for
several.
-/

namespace Symm.Lib

universe u v

/-- The text starts with the prefix. -/
def Starts (pre text : String) : Prop := pre.toList <+: text.toList

instance (pre text : String) : Decidable (Starts pre text) :=
  inferInstanceAs (Decidable (pre.toList <+: text.toList))

/-- The text ends with the suffix. -/
def Ends (suf text : String) : Prop := suf.toList <:+ text.toList

instance (suf text : String) : Decidable (Ends suf text) :=
  inferInstanceAs (Decidable (suf.toList <:+ text.toList))

/-- The text without the prefix, where it has it. -/
def trimPrefix (text pre : String) : String :=
  if Starts pre text then String.ofList (text.toList.drop pre.toList.length) else text

/-- The text without the suffix, where it has it. -/
def trimSuffix (text suf : String) : String :=
  if Ends suf text then
    String.ofList (text.toList.take (text.toList.length - suf.toList.length))
  else text

theorem starts_append (pre text : String) : Starts pre (pre ++ text) := by
  unfold Starts
  rw [String.toList_append]
  exact List.prefix_append _ _

/-- A common prefix does not decide whether one text starts with another. -/
theorem starts_append_left {pre a b : String} : Starts (pre ++ a) (pre ++ b) ↔ Starts a b := by
  unfold Starts
  rw [String.toList_append, String.toList_append, List.prefix_append_right_inj]

@[simp] theorem trimPrefix_append (pre text : String) : trimPrefix (pre ++ text) pre = text := by
  unfold trimPrefix
  rw [if_pos (starts_append pre text), String.toList_append, List.drop_left, String.ofList_toList]

@[simp] theorem trimSuffix_append (text suf : String) : trimSuffix (text ++ suf) suf = text := by
  have hends : Ends suf (text ++ suf) := by
    unfold Ends
    rw [String.toList_append]
    exact List.suffix_append _ _
  unfold trimSuffix
  rw [if_pos hends, String.toList_append, List.length_append, Nat.add_sub_cancel, List.take_left,
    String.ofList_toList]

theorem trimSuffix_of_not_ends {text suf : String} (h : ¬ Ends suf text) :
    trimSuffix text suf = text := if_neg h

/-- Where there is something to trim, trimming makes the text shorter. -/
theorem trimSuffix_ne {text suf : String} (h : Ends suf text) (hsuf : suf ≠ "") :
    trimSuffix text suf ≠ text := by
  intro heq
  unfold trimSuffix at heq
  rw [if_pos h] at heq
  have hlen := congrArg (fun s : String => s.toList.length) heq
  have hpos : 0 < suf.toList.length := by
    rw [List.length_pos_iff]
    intro hnil
    exact hsuf (String.toList_inj.mp hnil)
  have hle : suf.toList.length ≤ text.toList.length := h.length_le
  simp only [String.toList_ofList, List.length_take] at hlen
  omega

/-- A store of objects. -/
abbrev Objects (Raw : Type u) : Type u := AList fun _ : String => Raw

namespace Objects

variable {Raw : Type u}

/-- The keys that start with the prefix. -/
def list (pre : String) (store : Objects Raw) : List String :=
  store.keys.filter fun key => Starts pre key

/-- Remove every key that starts with the prefix. -/
def deletePrefix (pre : String) (store : Objects Raw) : Objects Raw where
  entries := store.entries.filter fun entry => ¬ Starts pre entry.1
  nodupKeys := store.nodupKeys.sublist List.filter_sublist

/-- A listing has the keys under the prefix that the store has. -/
theorem mem_list {pre key : String} {store : Objects Raw} :
    key ∈ store.list pre ↔ (store.lookup key).isSome ∧ Starts pre key := by
  unfold list
  rw [List.mem_filter, decide_eq_true_iff, AList.lookup_isSome]
  exact Iff.rfl

/-- Deleting a prefix takes off what is under it, and nothing else. -/
theorem lookup_deletePrefix (pre key : String) (store : Objects Raw) :
    (store.deletePrefix pre).lookup key = if Starts pre key then none else store.lookup key := by
  refine Option.ext fun raw => ?_
  have hmem : raw ∈ (store.deletePrefix pre).lookup key ↔
      ⟨key, raw⟩ ∈ store.entries ∧ ¬ Starts pre key := by
    rw [AList.mem_lookup_iff]
    unfold deletePrefix
    rw [List.mem_filter, decide_eq_true_iff]
  show raw ∈ (store.deletePrefix pre).lookup key ↔ _
  rw [hmem]
  by_cases hpre : Starts pre key
  · rw [if_pos hpre]
    exact iff_of_false (fun h => h.2 hpre) (Option.some_ne_none raw).symm
  · rw [if_neg hpre]
    exact (and_iff_left hpre).trans AList.mem_lookup_iff.symm

/-- What is left after a list of prefixes is deleted. -/
theorem lookup_foldl_deletePrefix (pre : String → String) (paths : List String) (key : String)
    (store : Objects Raw) :
    (paths.foldl (fun store path => store.deletePrefix (pre path)) store).lookup key =
      if ∃ path ∈ paths, Starts (pre path) key then none else store.lookup key := by
  induction paths generalizing store with
  | nil => rw [if_neg (by rintro ⟨_, h, _⟩; exact absurd h List.not_mem_nil)]; rfl
  | cons path rest ih =>
    rw [List.foldl_cons, ih, lookup_deletePrefix]
    by_cases hpath : Starts (pre path) key
    · rw [if_pos hpath, ite_self, if_pos ⟨path, List.mem_cons_self, hpath⟩]
    · rw [if_neg hpath]
      refine if_congr ?_ rfl rfl
      constructor
      · rintro ⟨p, hp, hs⟩
        exact ⟨p, List.mem_cons_of_mem path hp, hs⟩
      · rintro ⟨p, hp, hs⟩
        rcases List.mem_cons.mp hp with rfl | hp
        · exact absurd hs hpath
        · exact ⟨p, hp, hs⟩

/-- Insertions under keys of their own give one entry each, the last one first. -/
theorem entries_foldl_insert {α : Type v} (key : α → String) (value : α → Raw) (items : List α)
    {store : Objects Raw} (hnodup : (items.map key).Nodup)
    (hfresh : ∀ item ∈ items, key item ∉ store) :
    (items.foldl (fun store item => store.insert (key item) (value item)) store).entries =
      (items.map fun item => ⟨key item, value item⟩).reverse ++ store.entries := by
  induction items generalizing store with
  | nil => rfl
  | cons item rest ih =>
    rw [List.map_cons, List.nodup_cons] at hnodup
    rw [List.foldl_cons, ih hnodup.2, AList.entries_insert_of_notMem
      (hfresh item List.mem_cons_self), List.map_cons, List.reverse_cons, List.append_assoc]
    · rfl
    · intro other hother hmem
      rcases (AList.mem_insert store).mp hmem with heq | hmem
      · exact hnodup.1 (List.mem_map.mpr ⟨other, hother, heq⟩)
      · exact hfresh other (List.mem_cons_of_mem item hother) hmem

end Objects

end Symm.Lib
