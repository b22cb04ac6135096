import Mathlib.Algebra.Ring.Nat
import Mathlib.Data.List.Basic

/-!
# Joined segments

A list of segments joined by a separator is a prefix of a text in two ways: the
segments are the first ones of the text, or all but the last are and the last
one is only the beginning of the segment in its place (`Continues`). A prefix
test on the joined text cannot tell the two apart.

`intercalate_prefix_iff` is the whole truth about such a test: it succeeds in these two
cases and in no other. Everything before it takes one segment off both texts, on the
left, where a text either is one segment or has a separator after its first
(`splitOn_cases`).

No segment has the separator in it, and there is at least one: without the first the
segments could not be read back at all.
-/

namespace Symm.Lib

universe u

variable {α : Type u}

/-- The segments but the last are the first ones of the text, and the last is a
proper beginning of the next. -/
def Continues : List (List α) → List (List α) → Prop
  | [last], next :: _ => last <+: next ∧ last ≠ next
  | seg :: seg' :: segs, next :: rest => seg = next ∧ Continues (seg' :: segs) rest
  | _, _ => False

theorem not_continues_nil (segs : List (List α)) : ¬ Continues segs [] := by
  rcases segs with _ | ⟨_, _ | _⟩ <;> exact id

/-- What continues the last segment does not have it. -/
theorem Continues.not_prefix {segs text : List (List α)} (h : Continues segs text) :
    ¬ segs <+: text := by
  induction segs generalizing text with
  | nil => exact h.elim
  | cons seg rest ih =>
    cases text with
    | nil => exact absurd h (not_continues_nil _)
    | cons next more =>
      intro hpre
      obtain ⟨heq, hrest⟩ := List.cons_prefix_cons.mp hpre
      cases rest with
      | nil => exact h.2 heq
      | cons seg' segs => exact ih h.2 hrest

/-- What goes on is at least as long. -/
theorem Continues.length_le {segs text : List (List α)} (h : Continues segs text) :
    segs.length ≤ text.length := by
  induction segs generalizing text with
  | nil => exact Nat.zero_le _
  | cons seg rest ih =>
    cases text with
    | nil => exact absurd h (not_continues_nil _)
    | cons next more =>
      cases rest with
      | nil => exact Nat.succ_le_succ (Nat.zero_le _)
      | cons seg' segs => exact Nat.succ_le_succ (ih h.2)

/-- A segment that begins a text lies in the text's first segment. -/
theorem prefix_append_cons_iff {x : α} {seg first rest : List α} (hseg : x ∉ seg) :
    seg <+: first ++ x :: rest ↔ seg <+: first := by
  constructor
  · intro h
    rcases List.prefix_or_prefix_of_prefix h (List.prefix_append first (x :: rest)) with h' | h'
    · exact h'
    · obtain ⟨more, rfl⟩ := h'
      rw [List.prefix_append_right_inj] at h
      cases more with
      | nil => exact (List.append_nil first).symm ▸ List.prefix_rfl
      | cons y ys =>
        obtain ⟨rfl, -⟩ := List.cons_prefix_cons.mp h
        exact absurd (List.mem_append_right first List.mem_cons_self) hseg
  · exact fun h => h.trans (List.prefix_append _ _)

/-- A segment with its separator begins a text exactly when it is its first one. -/
theorem append_cons_prefix_iff {x : α} {seg first more rest : List α} (hseg : x ∉ seg)
    (hfirst : x ∉ first) :
    seg ++ x :: more <+: first ++ x :: rest ↔ seg = first ∧ more <+: rest := by
  constructor
  · intro h
    have hle : seg <+: first :=
      (prefix_append_cons_iff hseg).mp ((List.prefix_append seg (x :: more)).trans h)
    obtain ⟨tail, rfl⟩ := hle
    rw [List.append_assoc, List.prefix_append_right_inj] at h
    cases tail with
    | nil => exact ⟨(List.append_nil seg).symm, (List.cons_prefix_cons.mp h).2⟩
    | cons y ys =>
      obtain ⟨rfl, -⟩ := List.cons_prefix_cons.mp h
      exact absurd (List.mem_append_right seg List.mem_cons_self) hfirst
  · rintro ⟨rfl, h⟩
    rw [List.prefix_append_right_inj]
    exact List.cons_prefix_cons.mpr ⟨rfl, h⟩

variable [DecidableEq α]

instance decidableContinues : ∀ (segs text : List (List α)), Decidable (Continues segs text)
  | [], _ => isFalse id
  | [_], [] => isFalse id
  | [last], next :: _ => inferInstanceAs (Decidable (last <+: next ∧ last ≠ next))
  | _ :: _ :: _, [] => isFalse id
  | seg :: seg' :: segs, next :: rest =>
    have := decidableContinues (seg' :: segs) rest
    inferInstanceAs (Decidable (seg = next ∧ Continues (seg' :: segs) rest))

/-- A text is one segment, or a segment, the separator and the rest. -/
theorem splitOn_cases (x : α) (text : List α) :
    (x ∉ text ∧ text.splitOn x = [text]) ∨
      ∃ seg rest, text = seg ++ x :: rest ∧ x ∉ seg ∧ text.splitOn x = seg :: rest.splitOn x := by
  by_cases hmem : x ∈ text
  · obtain ⟨seg, rest, rfl, hseg⟩ := List.eq_append_cons_of_mem hmem
    exact .inr ⟨seg, rest, rfl, hseg, List.splitOn_append_cons_self_of_not_mem hseg rest⟩
  · exact .inl ⟨hmem, List.splitOn_eq_singleton hmem⟩

/-- One more segment than separators. -/
theorem length_splitOn (x : α) (text : List α) :
    (text.splitOn x).length = text.count x + 1 := by
  rcases splitOn_cases x text with ⟨hout, heq⟩ | ⟨seg, rest, htext, hseg, heq⟩
  · rw [heq, List.count_eq_zero.mpr hout]
    rfl
  · have ih := length_splitOn x rest
    rw [heq, List.length_cons, ih, htext, List.count_append, List.count_eq_zero.mpr hseg,
      List.count_cons_self]
    omega
termination_by text.length
decreasing_by
  rw [htext, List.length_append, List.length_cons]
  omega

/-- What is appended without a separator goes to the last segment. -/
theorem splitOn_append_of_not_mem {x : α} (text : List α) {more : List α} (h : x ∉ more) :
    ∃ front last, text.splitOn x = front ++ [last] ∧
      (text ++ more).splitOn x = front ++ [last ++ more] := by
  rcases splitOn_cases x text with ⟨hout, heq⟩ | ⟨seg, rest, htext, hseg, heq⟩
  · refine ⟨[], text, heq, List.splitOn_eq_singleton ?_⟩
    rw [List.mem_append, not_or]
    exact ⟨hout, h⟩
  · obtain ⟨front, last, hfront, hmore⟩ := splitOn_append_of_not_mem rest h
    refine ⟨seg :: front, last, ?_, ?_⟩
    · rw [heq, hfront]
      rfl
    · rw [htext, List.append_assoc, List.cons_append,
        List.splitOn_append_cons_self_of_not_mem hseg, hmore]
      rfl
termination_by text.length
decreasing_by
  rw [htext, List.length_append, List.length_cons]
  omega

/-- The segments hold what is no separator. -/
theorem sum_length_splitOn (x : α) (text : List α) :
    ((text.splitOn x).map List.length).sum = (text.filter (· ≠ x)).length := by
  rcases splitOn_cases x text with ⟨hout, heq⟩ | ⟨seg, rest, htext, hseg, heq⟩
  · have hall : text.filter (· ≠ x) = text := by
      rw [List.filter_eq_self]
      intro y hy
      exact decide_eq_true fun hyx => hout (hyx ▸ hy)
    rw [heq, hall, List.map_singleton, List.sum_singleton]
  · have ih := sum_length_splitOn x rest
    have hall : seg.filter (· ≠ x) = seg := by
      rw [List.filter_eq_self]
      intro y hy
      exact decide_eq_true fun hyx => hseg (hyx ▸ hy)
    rw [heq, List.map_cons, List.sum_cons, ih, htext, List.filter_append, hall,
      List.length_append, List.filter_cons_of_neg (by simp)]
termination_by text.length
decreasing_by
  rw [htext, List.length_append, List.length_cons]
  omega

/-- Joined segments begin a text exactly when they are its first segments or the
text continues the last of them. -/
theorem intercalate_prefix_iff (x : α) {segs : List (List α)} (hsegs : ∀ seg ∈ segs, x ∉ seg)
    (hne : segs ≠ []) (text : List α) :
    [x].intercalate segs <+: text ↔
      segs <+: text.splitOn x ∨ Continues segs (text.splitOn x) := by
  induction segs generalizing text with
  | nil => exact absurd rfl hne
  | cons seg rest ih =>
    have hseg := hsegs seg List.mem_cons_self
    have hrest : ∀ s ∈ rest, x ∉ s := fun s hs => hsegs s (List.mem_cons_of_mem seg hs)
    cases rest with
    | nil =>
      have hsingle : ∀ (first : List α) (more : List (List α)),
          seg <+: first ↔ [seg] <+: first :: more ∨ Continues [seg] (first :: more) := by
        intro first more
        rw [List.cons_prefix_cons, and_iff_left (List.nil_prefix)]
        show _ ↔ seg = first ∨ (seg <+: first ∧ seg ≠ first)
        constructor
        · intro h
          by_cases heq : seg = first
          · exact .inl heq
          · exact .inr ⟨h, heq⟩
        · rintro (rfl | h)
          · exact List.prefix_rfl
          · exact h.1
      rw [List.intercalate_singleton]
      rcases splitOn_cases x text with ⟨-, heq⟩ | ⟨first, more, rfl, -, heq⟩
      · rw [heq]
        exact hsingle text []
      · rw [heq, prefix_append_cons_iff hseg]
        exact hsingle first _
    | cons seg' segs =>
      -- another segment follows, so the first one ends at a separator
      rw [List.intercalate_cons_cons, List.append_assoc]
      show seg ++ x :: [x].intercalate (seg' :: segs) <+: text ↔ _
      rcases splitOn_cases x text with ⟨hout, heq⟩ | ⟨first, more, rfl, hfirst, heq⟩
      · rw [heq]
        refine iff_of_false (fun h => hout (h.subset ?_)) ?_
        · exact List.mem_append_right seg List.mem_cons_self
        · rintro (h | h)
          · exact absurd h.length_le (by simp)
          · exact not_continues_nil _ h.2
      · rw [heq, append_cons_prefix_iff hseg hfirst, ih hrest (List.cons_ne_nil _ _) more,
          List.cons_prefix_cons]
        exact and_or_left

end Symm.Lib
