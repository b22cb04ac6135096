import Symm.Kraken.Untyped

/-!
# The text of a nonce (`kraken/auth.go`)

The nonce is signed as `fmt.Sprint` writes it and sent as it stands in the document. Both
texts of a value that is no string are the same only where it is `Plain`. The proofs read
the two texts from the left: `Follows` is what may stand after a value in a list.

- `PlainNumber`, `Any.Plain`: the values whose texts agree;
- `digits_agree`, `string_ne_quote`: numbers, and strings, which never agree in a list;
- `sprint_eq_iff`: when the texts agree.

Both writers choose plain or scientific notation by the exponent of a number, at
different bounds, and they differ in how many digits an exponent has. `PlainNumber`
collects the ranges in which the texts agree, and outside of them `number_agree` finds
where they part.

A string never agrees: `fmt.Sprint` writes it bare and the document quotes it. A list
agrees if it is empty or has one plain item, since the items are set apart by a blank in
the one text and by a comma in the other; a map never does.
-/

namespace Symm.Kraken

open Symm.Lib

/-! ## Texts that agree -/

/-- The power of ten of a number's first digit. -/
def exponent (value : ℚ) : ℤ := (shortest |value|).point - 1

/-- A number that `fmt.Sprint` writes as the document has it. -/
def PlainNumber (value : ℚ) : Prop :=
  value = 0 ∨ -4 ≤ exponent value ∧ exponent value < 6 ∨
    20 < exponent value ∨ exponent value < -9

/-- A value, other than a string, that `fmt.Sprint` writes as the document has it. -/
def Any.Plain : Any → Prop
  | .nil => False
  | .bool _ => True
  | .float64 value => PlainNumber value
  | .string _ => False
  | .slice [] => True
  | .slice [item] => item.Plain
  | .slice (_ :: _ :: _) => False
  | .map _ => False

/-- What follows a text in a list whose items are set apart by `separator`. -/
def Follows (separator : Char) (rest : List Char) : Prop :=
  ∀ c ∈ rest.head?, c = separator ∨ c = ']'

theorem dropWhile_follows {rest : List Char} (hrest : Follows ',' rest) :
    rest.dropWhile inFixed = rest := by
  cases rest with
  | nil => rfl
  | cons c rest =>
    rcases hrest c rfl with rfl | rfl <;> rfl

theorem pad_one (n : ℕ) : List.replicate (1 - (Nat.toDigits 10 n).length) '0' = [] := by
  have := Nat.length_toDigits_pos (b := 10) (n := n)
  simp only [List.replicate_eq_nil_iff]
  omega

theorem pad_two {n : ℕ} (hn : 9 < n) :
    List.replicate (2 - (Nat.toDigits 10 n).length) '0' = [] := by
  have : ¬ (Nat.toDigits 10 n).length ≤ 1 := fun hlen => by
    have := (Nat.length_toDigits_le_iff (b := 10) (by decide) (by decide)).mp hlen
    omega
  simp only [List.replicate_eq_nil_iff]
  omega

section Digits

variable {d : Digits} (hdigits : ∀ c ∈ d.digits, c.isDigit)
include hdigits

/-- The two rules for digits agree, where they do, on the digits alone. -/
theorem digits_agree {x y : List Char} (hy : Follows ',' y)
    (h : sprintDigits d ++ x = jsonDigits d ++ y) :
    (-4 ≤ d.point - 1 ∧ d.point - 1 < 6 ∨ 20 < d.point - 1 ∨ d.point - 1 < -9) ∧ x = y := by
  unfold sprintDigits jsonDigits at h
  split_ifs at h with hsprint hjson hjson
  · have htail := congrArg (List.dropWhile inFixed) h
    rw [Digits.dropWhile_scientific hdigits, Digits.dropWhile_scientific hdigits] at htail
    simp only [List.cons.injEq, true_and, pad_one] at htail
    rcases le_or_gt (d.point - 1).natAbs 9 with hsmall | hlarge
    · -- the exponent has a zero in front in one of the two texts only
      rw [Nat.toDigits_of_lt_base (by omega)] at htail
      have hzero : '0' = Nat.digitChar (d.point - 1).natAbs := (List.cons.inj htail).1
      have hnat := congrArg Char.toNat hzero
      rw [Nat.toNat_digitChar_of_lt_ten (by omega)] at hnat
      simp at hnat
      omega
    · rw [pad_two hlarge] at htail
      exact ⟨by omega, List.append_cancel_left htail⟩
  · -- a power of ten against digits alone
    have htail := congrArg (List.dropWhile inFixed) h
    rw [Digits.dropWhile_scientific hdigits, Digits.dropWhile_fixed hdigits,
      dropWhile_follows hy] at htail
    rcases hy 'e' (by simp [← htail]) with hc | hc <;> exact absurd hc (by decide)
  · omega
  · exact ⟨.inl (by omega), List.append_cancel_left h⟩

omit hdigits in
/-- In these ranges both writers choose the same notation. -/
theorem digits_eq (h : -4 ≤ d.point - 1 ∧ d.point - 1 < 6 ∨ 20 < d.point - 1 ∨ d.point - 1 < -9) :
    sprintDigits d = jsonDigits d := by
  unfold sprintDigits jsonDigits
  split_ifs with hsprint hjson hjson
  · simp only [Digits.scientific, pad_one, pad_two (show 9 < (d.point - 1).natAbs by omega)]
  · omega
  · omega
  · rfl

/-- The digits of a number are not read as a missing nonce. -/
theorem sprintDigits_ne : sprintDigits d ≠ [] ∧ sprintDigits d ≠ "<nil>".toList := by
  have hbar : "<nil>".toList = ['<', 'n', 'i', 'l', '>'] := rfl
  unfold sprintDigits
  split_ifs
  · have htail := Digits.dropWhile_scientific hdigits 2 []
    rw [List.append_nil] at htail
    constructor <;> intro h <;> rw [h] at htail <;> simp [hbar, inFixed] at htail
  · have htail := Digits.dropWhile_fixed hdigits []
    rw [List.append_nil] at htail
    refine ⟨Digits.fixed_ne_nil d, fun h => ?_⟩
    rw [h] at htail
    simp [hbar, inFixed] at htail

end Digits

/-- Where the two texts agree as far as the comma, the number is plain and nothing is left
over. -/
theorem number_agree {value : ℚ} {x y : List Char} (hy : Follows ',' y)
    (h : (writeFloat64 sprintDigits value).toList ++ x =
      (writeFloat64 jsonDigits value).toList ++ y) :
    PlainNumber value ∧ x = y := by
  unfold writeFloat64 at h
  split_ifs at h with hzero hneg
  · exact ⟨.inl hzero, List.append_cancel_left h⟩
  · simp only [String.toList_ofList, List.cons_append, List.cons.injEq, true_and] at h
    rw [← abs_of_neg hneg] at h
    obtain ⟨hplain, hrest⟩ := digits_agree (fun c hc => isDigit_shortest hc) hy h
    exact ⟨.inr hplain, hrest⟩
  · simp only [String.toList_ofList] at h
    rw [← abs_of_nonneg (not_lt.mp hneg)] at h
    obtain ⟨hplain, hrest⟩ := digits_agree (fun c hc => isDigit_shortest hc) hy h
    exact ⟨.inr hplain, hrest⟩

/-- A plain number is written alike by both. -/
theorem number_eq {value : ℚ} (h : PlainNumber value) :
    writeFloat64 sprintDigits value = writeFloat64 jsonDigits value := by
  unfold writeFloat64
  split_ifs with hzero hneg
  · rfl
  · have hplain := h.resolve_left hzero
    rw [exponent, abs_of_neg hneg] at hplain
    rw [digits_eq hplain]
  · have hplain := h.resolve_left hzero
    rw [exponent, abs_of_nonneg (not_lt.mp hneg)] at hplain
    rw [digits_eq hplain]

theorem number_ne (value : ℚ) :
    writeFloat64 sprintDigits value ≠ "" ∧ writeFloat64 sprintDigits value ≠ "<nil>" := by
  unfold writeFloat64
  split_ifs
  · decide
  · constructor <;> intro h <;> simpa using congrArg String.toList h
  · obtain ⟨hempty, hnil⟩ := sprintDigits_ne (d := shortest value) fun c hc => isDigit_shortest hc
    exact ⟨fun h => hempty (by simpa using congrArg String.toList h),
      fun h => hnil (by simpa using congrArg String.toList h)⟩

/-! A string that begins as it does in quotes would have a quote or a backslash after it. -/

def quoteOrBackslash (c : Char) : Prop := c = '"' ∨ c = '\\'

/-- What escaping makes of a quote or a backslash is made of those. -/
theorem quoteOrBackslash_escape {c a : Char} (hc : quoteOrBackslash c) (ha : a ∈ escape c) :
    quoteOrBackslash a := by
  have hescape : escape c = ['\\', c] := if_pos hc
  rw [hescape] at ha
  rcases List.mem_pair.mp ha with rfl | rfl
  · exact .inr rfl
  · exact hc

theorem escape_ne_nil (c : Char) : escape c ≠ [] := by
  unfold escape
  split_ifs <;> simp

/-- What is escaped comes no sooner than what it stands for. -/
theorem mem_take_flatMap_escape {a : Char} : ∀ {text : List Char} {n : ℕ},
    a ∈ (text.flatMap escape).take n → ∃ c ∈ text.take n, a ∈ escape c
  | [], n, ha => by simp at ha
  | c :: text, 0, ha => by simp at ha
  | c :: text, n + 1, ha => by
    rw [List.flatMap_cons, List.take_append, List.mem_append] at ha
    rcases ha with ha | ha
    · exact ⟨c, by simp, List.mem_of_mem_take ha⟩
    · have hpos := List.length_pos_of_ne_nil (escape_ne_nil c)
      have hsooner : n + 1 - (escape c).length ≤ n := by omega
      obtain ⟨b, hb, hab⟩ := mem_take_flatMap_escape
        ((List.take_prefix_take_left hsooner).subset ha)
      exact ⟨b, by simp [hb], hab⟩

/-- Escaping does not shorten a text. -/
theorem length_le_flatMap_escape (text : List Char) :
    text.length ≤ (text.flatMap escape).length := by
  induction text with
  | nil => simp
  | cons c text ih =>
    have := List.length_pos_of_ne_nil (escape_ne_nil c)
    simp only [List.flatMap_cons, List.length_append, List.length_cons]
    omega

/-- A string in a list is never written as the document has it. -/
theorem string_ne_quote {text : String} {x y : List Char} (hx : Follows ' ' x) :
    text.toList ++ x ≠ (quote text).toList ++ y := by
  intro h
  have hlength := length_le_flatMap_escape text.toList
  simp only [quote, String.toList_ofList, List.append_assoc] at h
  generalize text.toList = chars at h hlength
  have htake : ∀ n ≤ chars.length + 1,
      (chars ++ x).take n = ('"' :: chars.flatMap escape).take n := by
    intro n hn
    rw [h, List.take_append_of_le_length (by simp only [List.length_cons]; omega)]
  -- by induction on the length: each character is escaped from one before it
  have hquotes : ∀ n ≤ chars.length,
      ∀ c ∈ ('"' :: chars.flatMap escape).take (n + 1), quoteOrBackslash c := by
    intro n
    induction n with
    | zero =>
      intro _ c hc
      exact .inl (by simpa using hc)
    | succ n ih =>
      intro hn c hc
      rw [List.take_succ_cons] at hc
      rcases List.mem_cons.mp hc with rfl | hc
      · exact .inl rfl
      · obtain ⟨b, hb, hcb⟩ := mem_take_flatMap_escape hc
        refine quoteOrBackslash_escape (ih (by omega) b ?_) hcb
        rwa [← htake _ (by omega), List.take_append_of_le_length hn]
  -- so is the one that follows the string, which is no separator then
  have hnext := htake (chars.length + 1) le_rfl
  cases x with
  | nil =>
    have := congrArg List.length hnext
    simp only [List.append_nil, List.length_take, List.length_cons] at this
    omega
  | cons c x =>
    have hmem : c ∈ (chars ++ c :: x).take (chars.length + 1) := by simp [List.take_append]
    rw [hnext] at hmem
    rcases hx c rfl with rfl | rfl <;> rcases hquotes _ le_rfl _ hmem with hc | hc <;>
      exact absurd hc (by decide)

/-! ## The text of a value -/

theorem sprint_slice_one (item : Any) :
    (sprint (.slice [item])).toList = '[' :: ((sprint item).toList ++ [']']) := by
  simp [sprint, sprintItems]

theorem jsonText_slice_one (item : Any) :
    (jsonText (encode (.slice [item]))).toList =
      '[' :: ((jsonText (encode item)).toList ++ [']']) := by
  simp [encode, encodeItems, jsonText, jsonTextItems]

theorem sprint_slice_more (item other : Any) (rest : List Any) :
    ∃ tail, (sprint (.slice (item :: other :: rest))).toList =
      '[' :: ((sprint item).toList ++ ' ' :: tail) := by
  simp [sprint, sprintItems]

theorem jsonText_slice_more (item other : Any) (rest : List Any) :
    ∃ tail, (jsonText (encode (.slice (item :: other :: rest)))).toList =
      '[' :: ((jsonText (encode item)).toList ++ ',' :: tail) := by
  simp [encode, encodeItems, jsonText, jsonTextItems]

/-- A value in a list is written as the document has it only where it is plain. -/
theorem sprint_agree : ∀ (value : Any) {x y : List Char}, Follows ' ' x → Follows ',' y →
    (sprint value).toList ++ x = (jsonText (encode value)).toList ++ y → value.Plain ∧ x = y
  | .nil, x, y, _, _, h => by simp [sprint, encode, jsonText] at h
  | .bool value, x, y, _, _, h => ⟨trivial, List.append_cancel_left h⟩
  | .float64 value, x, y, _, hy, h => number_agree hy h
  | .string text, x, y, hx, _, h => absurd h (string_ne_quote hx)
  | .slice [], x, y, _, _, h => ⟨trivial, List.append_cancel_left h⟩
  | .slice [item], x, y, _, _, h => by
    rw [sprint_slice_one, jsonText_slice_one, List.cons_append, List.cons_append,
      List.cons.injEq, List.append_assoc, List.append_assoc] at h
    obtain ⟨hplain, hrest⟩ := sprint_agree item (by simp [Follows]) (by simp [Follows]) h.2
    exact ⟨hplain, List.append_cancel_left hrest⟩
  | .slice (item :: other :: rest), x, y, _, _, h => by
    obtain ⟨spaced, hsprint⟩ := sprint_slice_more item other rest
    obtain ⟨listed, hjson⟩ := jsonText_slice_more item other rest
    rw [hsprint, hjson, List.cons_append, List.cons_append, List.cons.injEq,
      List.append_assoc, List.append_assoc] at h
    -- a space would be a comma
    obtain ⟨-, hrest⟩ := sprint_agree item (by simp [Follows]) (by simp [Follows]) h.2
    simp at hrest
  | .map members, x, y, _, _, h => by simp [sprint, encode, jsonText] at h

/-- A plain value is printed as its JSON. -/
theorem sprint_eq : ∀ {value : Any}, value.Plain → sprint value = jsonText (encode value)
  | .bool value, _ => rfl
  | .float64 value, h => number_eq h
  | .slice [], _ => rfl
  | .slice [item], h => by
    apply String.toList_injective
    rw [sprint_slice_one, jsonText_slice_one, sprint_eq (show item.Plain from h)]

theorem sprint_eq_iff (value : Any) : sprint value = jsonText (encode value) ↔ value.Plain := by
  refine ⟨fun h => ?_, sprint_eq⟩
  exact (sprint_agree value (x := []) (y := []) (by simp [Follows]) (by simp [Follows])
    (by rw [h])).1

/-- A value that is written as the document has it is a nonce. -/
theorem sprint_ne : ∀ {value : Any}, value.Plain → sprint value ≠ "" ∧ sprint value ≠ "<nil>"
  | .bool true, _ => by decide
  | .bool false, _ => by decide
  | .float64 value, _ => number_ne value
  | .slice [], _ => by decide
  | .slice [item], _ => by
    constructor <;> intro h <;> simpa [sprint_slice_one] using congrArg String.toList h

end Symm.Kraken
