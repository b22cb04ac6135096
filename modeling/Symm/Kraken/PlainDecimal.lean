import Mathlib.Data.List.TakeWhile
import Symm.Kraken.Nonce
import Symm.Lib.Numerals

/-!
# Wire numbers (`kraken/level3.go`)

A price or a quantity arrives as a JSON number, and `plainDecimal` writes its
power of ten out by moving the point over its own digits, so that no digit is
lost on the way to the decimal type. Lengths and counts are `int`, of 64 bits,
and wrap around; memory is unbounded otherwise, up to the length that an `int`
can count. `ToLower` is that of ASCII: no other letter has a lower case that is
told apart here.

- `plainDecimal`: the code, with the panics of `strings.Repeat` and of an overlong text;
- `Scientific`, `Numeral`: the texts that JSON allows for a number, and what they mean;
- `expand_eq`: the three ways in which the point can move, in one formula;
- `plainDecimal_exact_iff`: the digits are kept exactly where an `int` can count them,
  and what is no number is refused.
-/

namespace Symm.Kraken

open Symm.Lib Symm.Tokenizer

/-! ## Texts -/

/-- How an operation on texts panics. -/
inductive Panic
  | negativeRepeatCount
  | stringTooLong
  deriving DecidableEq

/-- `strings.Cut` at a character: what is before and after it, and whether it is
there. -/
def cut (sep : Char) : List Char → List Char × List Char × Bool
  | [] => ([], [], false)
  | c :: rest =>
    if c = sep then ([], rest, true)
    else
      let (before, after, found) := cut sep rest
      (c :: before, after, found)

/-- `strings.Trim`. -/
def trim (cutset : Char → Bool) (text : List Char) : List Char :=
  ((text.dropWhile cutset).reverse.dropWhile cutset).reverse

/-- `strings.Repeat` of one character. -/
def repeatChar (c : Char) (count : Int64) : Except Panic (List Char) :=
  if count < 0 then .error .negativeRepeatCount else .ok (List.replicate count.toInt.toNat c)

/-- Texts one after the other; an `int` counts the length. -/
def concat (texts : List (List Char)) : Except Panic (List Char) :=
  if texts.flatten.length < 2 ^ 63 then .ok texts.flatten else .error .stringTooLong

/-! ## Wire numbers -/

/-- The errors of `plainDecimal`. -/
inductive DecimalError
  | invalidExponent (text : List Char)
  | invalidMantissa (text : List Char)
  deriving DecidableEq

/-- The sign that is written back, and the mantissa behind it. -/
def splitSign : List Char → List Char × List Char
  | '-' :: mantissa => (['-'], mantissa)
  | '+' :: mantissa => ([], mantissa)
  | mantissa => ([], mantissa)

/-- The point left of the digits, right of them, or inside. -/
def expand (sign integer fraction : List Char) (exponent : Int64) : Except Panic (List Char) :=
  let digits := integer ++ fraction
  let point := Int64.ofNat integer.length + exponent
  if point ≤ 0 then
    (repeatChar '0' (-point)).bind fun zeros => concat [sign, ['0', '.'], zeros, digits]
  else if Int64.ofNat digits.length ≤ point then
    (repeatChar '0' (point - Int64.ofNat digits.length)).bind fun zeros =>
      concat [sign, digits, zeros]
  else concat [sign, digits.take point.toInt.toNat, ['.'], digits.drop point.toInt.toNat]

/-- `plainDecimal`. -/
def plainDecimal (text : List Char) : Except Panic (Except DecimalError (List Char)) :=
  let (mantissa, exponentText, scientific) := cut 'e' (text.map Char.toLower)
  if ¬ scientific then .ok (.ok text)
  else
    match parseInt exponentText with
    | none => .ok (.error (.invalidExponent text))
    | some exponent =>
      let (sign, mantissa) := splitSign mantissa
      let (integer, fraction, _) := cut '.' mantissa
      let digits := integer ++ fraction
      if digits = [] ∨ trim Char.isDigit digits ≠ [] then .ok (.error (.invalidMantissa text))
      else (expand sign integer fraction exponent).map .ok

/-! ## Cutting and trimming -/

/-- `strings.Cut` cuts at the first separator. -/
theorem cut_append {sep : Char} {before : List Char} (h : sep ∉ before) (after : List Char) :
    cut sep (before ++ sep :: after) = (before, after, true) := by
  induction before with
  | nil => simp [cut]
  | cons c before ih =>
    obtain ⟨hc, hrest⟩ : sep ≠ c ∧ sep ∉ before := by simpa using h
    simp [cut, Ne.symm hc, ih hrest]

theorem cut_absent {sep : Char} {text : List Char} (h : sep ∉ text) :
    cut sep text = (text, [], false) := by
  induction text with
  | nil => rfl
  | cons c text ih =>
    obtain ⟨hc, hrest⟩ : sep ≠ c ∧ sep ∉ text := by simpa using h
    simp [cut, Ne.symm hc, ih hrest]

/-- What was cut is the text, with the separator back in its place. -/
theorem cut_eq (sep : Char) (text : List Char) :
    text = (cut sep text).1 ++
      if (cut sep text).2.2 then sep :: (cut sep text).2.1 else [] := by
  induction text with
  | nil => rfl
  | cons c text ih =>
    rw [cut]
    split
    · rename_i hc
      simp [hc]
    · simpa using ih

theorem cut_after_absent {sep : Char} {text : List Char} (h : (cut sep text).2.2 = false) :
    (cut sep text).2.1 = [] := by
  induction text with
  | nil => rfl
  | cons c text ih =>
    rw [cut] at h ⊢
    split at h
    · cases h
    · rename_i hc
      rw [if_neg hc]
      exact ih h

/-- Trimming leaves nothing of a text that is all cutset. -/
theorem trim_eq_nil {cutset : Char → Bool} {text : List Char} :
    trim cutset text = [] ↔ ∀ c ∈ text, cutset c = true := by
  have hhead : ∀ c rest, text.dropWhile cutset = c :: rest → cutset c = false := by
    intro c rest h
    have := List.head_dropWhile_not cutset (l := text) (by simp [h])
    simpa [h] using this
  rw [trim, List.reverse_eq_nil_iff, List.dropWhile_eq_nil_iff]
  constructor
  · intro h
    rw [← List.dropWhile_eq_nil_iff]
    cases hdrop : text.dropWhile cutset with
    | nil => rfl
    | cons c rest =>
      have hc : cutset c = true := h c (by simp [hdrop])
      rw [hhead c rest hdrop] at hc
      cases hc
  · intro h
    rw [List.dropWhile_eq_nil_iff.mpr h]
    simp

/-! ## Lower case -/

theorem toLower_val {c : Char} (h : c.val ≥ 'A'.val ∧ c.val ≤ 'Z'.val) :
    c.toLower.val = c.val + 32 :=
  congrArg Char.val (dif_pos h : c.toLower = _)

theorem toLower_of_not {c : Char} (h : ¬ (c.val ≥ 'A'.val ∧ c.val ≤ 'Z'.val)) : c.toLower = c :=
  dif_neg h

/-- The characters of a numeral. -/
def Written (c : Char) : Prop := c.isDigit = true ∨ c = '.' ∨ c = '+' ∨ c = '-'

theorem toLower_of_isDigit {c : Char} (h : c.isDigit = true) : c.toLower = c := by
  have hcode : c.val ≤ 57 := by
    simp only [Char.isDigit, Bool.and_eq_true, decide_eq_true_eq] at h
    exact h.2
  refine toLower_of_not ?_
  rintro ⟨hcap, -⟩
  exact absurd (UInt32.le_trans hcap hcode) (by decide)

/-- What a numeral is written with has no capitals, but for the marker of its exponent. -/
theorem Written.toLower {c : Char} (h : Written c) : c.toLower = c := by
  rcases h with hdigit | rfl | rfl | rfl
  · exact toLower_of_isDigit hdigit
  · rfl
  · rfl
  · rfl

/-- No letter is lowered to a character of a numeral. -/
theorem Written.of_toLower {c : Char} (h : Written c.toLower) : c.toLower = c := by
  by_cases hcap : c.val ≥ 'A'.val ∧ c.val ≤ 'Z'.val
  · have hlower : c.toLower.toNat = c.toNat + 32 := by
      have hZ : c.toNat ≤ 90 := hcap.2
      show c.toLower.val.toNat = c.val.toNat + 32
      rw [toLower_val hcap, UInt32.toNat_add]
      exact Nat.mod_eq_of_lt (by change c.toNat + 32 < _; omega)
    have hletter : 65 ≤ c.toNat := hcap.1
    have hsmall : c.toLower.toNat ≤ 57 := by
      rcases h with hdigit | heq | heq | heq
      · simp only [Char.isDigit, Bool.and_eq_true, decide_eq_true_eq] at hdigit
        exact hdigit.2
      all_goals
        rw [heq]
        decide
    omega
  · exact toLower_of_not hcap

/-- Only the marker and its capital are lowered to the marker. -/
theorem eq_marker_of_toLower {c : Char} (h : c.toLower = 'e') : c = 'e' ∨ c = 'E' := by
  by_cases hcap : c.val ≥ 'A'.val ∧ c.val ≤ 'Z'.val
  · have hval : c.val + 32 = 101 := (toLower_val hcap).symm.trans (congrArg Char.val h)
    refine .inr (Char.ext ?_)
    show c.val = 69
    have hsub : c.val + 32 - 32 = 101 - 32 := by rw [hval]
    simpa using hsub
  · exact .inl ((toLower_of_not hcap).symm.trans h)

theorem Written.ne_marker {c : Char} (h : Written c) : c ≠ 'e' := by
  rcases h with hdigit | rfl | rfl | rfl
  · rintro rfl
    exact absurd hdigit (by decide)
  · decide
  · decide
  · decide

/-! ## Moving the point in `int`s -/

/-- What an `int64` holds does not wrap. -/
theorem bmod_fits {n : ℤ} (hlow : -2 ^ 63 ≤ n) (hhigh : n < 2 ^ 63) : n.bmod (2 ^ 64) = n := by
  rw [Int.bmod_def]
  split <;> omega

/-- What is just above wraps to the other end. -/
theorem bmod_over {n : ℤ} (hlow : 2 ^ 63 ≤ n) (hhigh : n < 2 ^ 64) :
    n.bmod (2 ^ 64) = n - 2 ^ 64 := by
  rw [Int.bmod_def]
  split <;> omega

/-- `strings.Repeat` repeats a character as often as it is told. -/
theorem repeatChar_ok {c : Char} {count : Int64} (h : 0 ≤ count.toInt) :
    repeatChar c count = .ok (List.replicate count.toInt.toNat c) := by
  rw [repeatChar, if_neg]
  rw [Int64.lt_iff_toInt_lt, Int64.toInt_zero]
  omega

theorem repeatChar_negative {c : Char} {count : Int64} (h : count.toInt < 0) :
    repeatChar c count = .error .negativeRepeatCount := by
  rw [repeatChar, if_pos]
  rwa [Int64.lt_iff_toInt_lt, Int64.toInt_zero]

theorem concat_eq {texts : List (List Char)} {text : List Char} (h : texts.flatten = text) :
    concat texts = if text.length < 2 ^ 63 then .ok text else .error .stringTooLong := by
  rw [concat, h]

section Expand

variable {n : Numeral} {exponent : Int64}

/-- The point, where the sum is an `int`. -/
theorem toInt_point (exponent : Int64) (hlen : n.digits.length < 2 ^ 63) :
    (Int64.ofNat n.integer.length + exponent).toInt =
      ((n.integer.length : ℤ) + exponent.toInt).bmod (2 ^ 64) := by
  have hdigits := n.length_digits
  rw [Int64.toInt_add, Int64.toInt_ofNat_of_lt (by omega)]

/-- The point moves to the left of all digits: zeros in front. -/
theorem expand_left (hlen : n.digits.length < 2 ^ 63)
    (hleft : (n.integer.length : ℤ) + exponent.toInt ≤ 0) :
    ∃ panic, expand n.sign.plain.text n.integer (n.fraction.getD []) exponent =
      if (n.shift exponent.toInt).text.length < 2 ^ 63 then .ok (n.shift exponent.toInt).text
      else .error panic := by
  have hlow := exponent.le_toInt
  have hpoint := toInt_point exponent hlen
  rw [bmod_fits (by omega) (by omega)] at hpoint
  have hneg : (-(Int64.ofNat n.integer.length + exponent)).toInt =
      (-((n.integer.length : ℤ) + exponent.toInt)).bmod (2 ^ 64) := by
    rw [Int64.toInt_neg, hpoint]
  rw [expand, if_pos (by rwa [Int64.le_iff_toInt_le, hpoint, Int64.toInt_zero])]
  rcases eq_or_ne ((n.integer.length : ℤ) + exponent.toInt) (-2 ^ 63) with hmin | hmin
  · have hlong : ¬ (n.shift exponent.toInt).text.length < 2 ^ 63 := by
      have hlength := n.length_text_shift exponent.toInt
      rw [if_pos hleft] at hlength
      omega
    rw [hmin, bmod_over (by norm_num) (by norm_num)] at hneg
    rw [repeatChar_negative (by rw [hneg]; norm_num)]
    exact ⟨.negativeRepeatCount, (if_neg hlong).symm⟩
  · rw [bmod_fits (by omega) (by omega)] at hneg
    rw [repeatChar_ok (by omega)]
    refine ⟨.stringTooLong, concat_eq ?_⟩
    simp [Numeral.text_shift, Numeral.moved, pointed, hleft, hneg, Numeral.digits]

/-- The point moves to the right of all digits: zeros behind. -/
theorem expand_right (hlen : n.digits.length < 2 ^ 63)
    (hpos : 0 < (n.integer.length : ℤ) + exponent.toInt)
    (hfits : (n.integer.length : ℤ) + exponent.toInt < 2 ^ 63)
    (hright : (n.digits.length : ℤ) ≤ n.integer.length + exponent.toInt) :
    expand n.sign.plain.text n.integer (n.fraction.getD []) exponent =
      if (n.shift exponent.toInt).text.length < 2 ^ 63 then .ok (n.shift exponent.toInt).text
      else .error .stringTooLong := by
  have hpoint := toInt_point exponent hlen
  rw [bmod_fits (by omega) hfits] at hpoint
  have hdigits : (Int64.ofNat (n.integer ++ n.fraction.getD []).length).toInt =
      n.digits.length := Int64.toInt_ofNat_of_lt hlen
  have hpast : (Int64.ofNat n.integer.length + exponent -
      Int64.ofNat (n.integer ++ n.fraction.getD []).length).toInt =
        n.integer.length + exponent.toInt - n.digits.length := by
    rw [Int64.toInt_sub, hpoint, hdigits, bmod_fits (by omega) (by omega)]
  rw [expand, if_neg (by rw [Int64.le_iff_toInt_le, hpoint, Int64.toInt_zero]; omega),
    if_pos (by rw [Int64.le_iff_toInt_le, hpoint, hdigits]; exact hright),
    repeatChar_ok (by omega)]
  refine concat_eq ?_
  have hleft : ¬ (n.integer.length : ℤ) + exponent.toInt ≤ 0 := by omega
  rw [Numeral.text_shift, Numeral.moved, if_neg hleft, if_pos hright, hpast]
  simp [pointed, Numeral.digits]

/-- The point moves among the digits. -/
theorem expand_inside (hlen : n.digits.length < 2 ^ 63)
    (hpos : 0 < (n.integer.length : ℤ) + exponent.toInt)
    (hinside : (n.integer.length : ℤ) + exponent.toInt < n.digits.length) :
    expand n.sign.plain.text n.integer (n.fraction.getD []) exponent =
      if (n.shift exponent.toInt).text.length < 2 ^ 63 then .ok (n.shift exponent.toInt).text
      else .error .stringTooLong := by
  have hpoint := toInt_point exponent hlen
  rw [bmod_fits (by omega) (by omega)] at hpoint
  have hdigits : (Int64.ofNat (n.integer ++ n.fraction.getD []).length).toInt =
      n.digits.length := Int64.toInt_ofNat_of_lt hlen
  rw [expand, if_neg (by rw [Int64.le_iff_toInt_le, hpoint, Int64.toInt_zero]; omega),
    if_neg (by rw [Int64.le_iff_toInt_le, hpoint, hdigits]; omega)]
  refine concat_eq ?_
  rw [Numeral.text_shift, Numeral.moved, if_neg (by omega), if_neg (by omega), hpoint]
  simp [pointed, Numeral.digits]

/-- The point is past what an `int` counts, and wraps around to the left. -/
theorem expand_over (hlen : n.digits.length < 2 ^ 63)
    (hover : 2 ^ 63 ≤ (n.integer.length : ℤ) + exponent.toInt) :
    (∃ panic, expand n.sign.plain.text n.integer (n.fraction.getD []) exponent =
      .error panic) ∧ ¬ (n.shift exponent.toInt).text.length < 2 ^ 63 := by
  have hhigh := exponent.toInt_lt
  have hdigits := n.length_digits
  have hlength := n.length_text_shift exponent.toInt
  rw [if_neg (by omega), if_pos (by omega)] at hlength
  refine ⟨?_, by omega⟩
  have hpoint := toInt_point exponent hlen
  rw [bmod_over hover (by omega)] at hpoint
  have hneg : (-(Int64.ofNat n.integer.length + exponent)).toInt =
      (-((n.integer.length : ℤ) + exponent.toInt - 2 ^ 64)).bmod (2 ^ 64) := by
    rw [Int64.toInt_neg, hpoint]
  rw [expand, if_pos (by rw [Int64.le_iff_toInt_le, hpoint, Int64.toInt_zero]; omega)]
  rcases eq_or_ne ((n.integer.length : ℤ) + exponent.toInt) (2 ^ 63) with hmin | hmin
  · rw [hmin, bmod_over (by norm_num) (by norm_num)] at hneg
    rw [repeatChar_negative (by rw [hneg]; norm_num)]
    exact ⟨.negativeRepeatCount, rfl⟩
  · rw [bmod_fits (by omega) (by omega)] at hneg
    rw [repeatChar_ok (by omega)]
    refine ⟨.stringTooLong, if_neg ?_⟩
    have hall : (n.integer ++ n.fraction.getD []).length = n.digits.length := rfl
    simp only [List.flatten_cons, List.flatten_nil, List.append_nil, List.length_append,
      List.length_replicate, List.length_cons, List.length_nil] at hall ⊢
    omega

end Expand

/-- `expand` writes the numeral with its point moved, and panics where that is
longer than an `int` can count. -/
theorem expand_eq {n : Numeral} (hlen : n.digits.length < 2 ^ 63) (exponent : Int64) :
    ∃ panic, expand n.sign.plain.text n.integer (n.fraction.getD []) exponent =
      if (n.shift exponent.toInt).text.length < 2 ^ 63 then .ok (n.shift exponent.toInt).text
      else .error panic := by
  rcases le_or_gt ((n.integer.length : ℤ) + exponent.toInt) 0 with hleft | hpos
  · exact expand_left hlen hleft
  rcases le_or_gt (n.digits.length : ℤ) (n.integer.length + exponent.toInt) with hright | hinside
  · rcases le_or_gt (2 ^ 63) ((n.integer.length : ℤ) + exponent.toInt) with hover | hfits
    · obtain ⟨⟨panic, hpanic⟩, hlong⟩ := expand_over hlen hover
      exact ⟨panic, by rw [hpanic, if_neg hlong]⟩
    · exact ⟨.stringTooLong, expand_right hlen hpos hfits hright⟩
  · exact ⟨.stringTooLong, expand_inside hlen hpos hinside⟩

/-! ## Whole texts -/

theorem written_of_mem_digits {n : Numeral} {c : Char} (h : c ∈ n.digits) : Written c :=
  .inl (n.digit c h)

theorem written_of_mem_sign {sign : Sign} {c : Char} (h : c ∈ sign.text) : Written c := by
  cases sign with
  | absent => cases h
  | plus => exact .inr (.inr (.inl (List.mem_singleton.mp h)))
  | minus => exact .inr (.inr (.inr (List.mem_singleton.mp h)))

/-- So is its whole text. -/
theorem written_of_mem_text {n : Numeral} {c : Char} (h : c ∈ n.text) : Written c := by
  rw [Numeral.text, List.append_assoc, List.mem_append, List.mem_append] at h
  rcases h with hsign | hinteger | hfraction
  · exact written_of_mem_sign hsign
  · exact written_of_mem_digits (List.mem_append_left _ hinteger)
  · cases hf : n.fraction with
    | none => simp [hf, pointed] at hfraction
    | some fraction =>
      rw [hf] at hfraction
      rcases List.mem_cons.mp hfraction with rfl | hmem
      · exact .inr (.inl rfl)
      · refine written_of_mem_digits (n := n) (List.mem_append_right _ ?_)
        rwa [hf]

theorem written_of_mem_exponent {e : Exponent} {c : Char} (h : c ∈ e.text) : Written c := by
  rcases List.mem_append.mp h with hsign | hdigit
  · exact written_of_mem_sign hsign
  · exact .inl (e.digit c hdigit)

theorem map_toLower {text : List Char} (h : ∀ c ∈ text, Written c) :
    text.map Char.toLower = text := by
  rw [List.map_congr_left fun c hc => (h c hc).toLower, List.map_id']

theorem of_map_toLower {text : List Char} (h : ∀ c ∈ text.map Char.toLower, Written c) :
    text.map Char.toLower = text := by
  rw [List.map_congr_left fun c hc => (h _ (List.mem_map_of_mem hc)).of_toLower, List.map_id']

/-! ## Numbers -/

theorem isDigit_ne {c d : Char} (h : c.isDigit = true) (hd : d.isDigit = false) : c ≠ d := by
  rintro rfl
  rw [h] at hd
  cases hd

/-- The sign is split off, and what stays has digits and a point. -/
theorem splitSign_text (n : Numeral) : splitSign n.text = (n.sign.plain.text,
    n.integer ++ pointed n.fraction) := by
  obtain ⟨sign, integer, fraction, hdigit, hne⟩ := n
  cases sign with
  | plus => rfl
  | minus => rfl
  | absent =>
    cases integer with
    | nil =>
      cases fraction with
      | none => exact absurd rfl hne
      | some fraction => rfl
    | cons c integer =>
      have hc : c.isDigit = true := hdigit c (List.mem_cons_self)
      have hminus : c ≠ '-' := isDigit_ne hc (by decide)
      have hplus : c ≠ '+' := isDigit_ne hc (by decide)
      simp [Numeral.text, Sign.text, Sign.plain, splitSign, hminus, hplus]

/-- Cutting at the point gives the integer and the fraction. -/
theorem cut_point (n : Numeral) : cut '.' (n.integer ++ pointed n.fraction) =
      (n.integer, n.fraction.getD [], n.fraction.isSome) := by
  have hpoint : '.' ∉ n.integer := by
    intro hmem
    exact isDigit_ne (n.digit '.' (List.mem_append_left _ hmem)) (by decide) rfl
  cases n.fraction with
  | none => simpa [pointed] using cut_absent hpoint
  | some fraction => exact cut_append hpoint fraction

/-- An exponent that an `int64` holds is read as its power. -/
theorem parseInt_text {e : Exponent} (hlow : -2 ^ 63 ≤ e.power) (hhigh : e.power < 2 ^ 63) :
    parseInt e.text = some (Int64.ofInt e.power) := by
  have hdigits : atoiDigits e.digits = some (digitsValue e.digits) :=
    if_pos ⟨e.ne_nil, List.all_eq_true.mpr e.digit⟩
  have hatoi : atoi e.text = some e.power := by
    rw [Exponent.text, Exponent.power]
    cases e.sign with
    | absent => simpa [Sign.text, Sign.factor] using atoi_of_digits hdigits
    | plus => simp [Sign.text, Sign.factor, atoi, hdigits]
    | minus => simp [Sign.text, Sign.factor, atoi, hdigits]
  rw [parseInt, hatoi, Option.bind_some, if_pos ⟨hlow, hhigh⟩]

/-- A numeral in front of a power of ten is expanded. -/
theorem plainDecimal_of_lower {text exponentText : List Char} {n : Numeral} {exponent : Int64}
    (htext : text.map Char.toLower = n.text ++ 'e' :: exponentText)
    (hexponent : parseInt exponentText = some exponent) :
    plainDecimal text =
      (expand n.sign.plain.text n.integer (n.fraction.getD []) exponent).map .ok := by
  have hmarker : 'e' ∉ n.text := fun hmem => (written_of_mem_text hmem).ne_marker rfl
  have htrim : trim Char.isDigit (n.integer ++ n.fraction.getD []) = [] := trim_eq_nil.mpr n.digit
  have hgood : ¬ (n.integer ++ n.fraction.getD [] = [] ∨
      trim Char.isDigit (n.integer ++ n.fraction.getD []) ≠ []) := by
    rintro (hnil | htrimmed)
    · exact n.ne_nil hnil
    · exact htrimmed htrim
  rw [plainDecimal, htext, cut_append hmarker]
  dsimp only
  rw [if_neg (by simp), hexponent]
  dsimp only
  rw [splitSign_text, cut_point]
  exact if_neg hgood

/-! ## Texts that are no numbers -/

theorem splitSign_eq (mantissa : List Char) :
    ∃ sign : Sign, mantissa = sign.text ++ (splitSign mantissa).2 := by
  unfold splitSign
  split
  · exact ⟨.minus, rfl⟩
  · exact ⟨.plus, rfl⟩
  · exact ⟨.absent, rfl⟩

/-- A mantissa that passes the checks is a numeral. -/
theorem exists_numeral {mantissa integer fraction : List Char} {found : Bool}
    (hcut : cut '.' (splitSign mantissa).2 = (integer, fraction, found))
    (hne : integer ++ fraction ≠ []) (htrim : trim Char.isDigit (integer ++ fraction) = []) :
    ∃ n : Numeral, n.text = mantissa := by
  obtain ⟨sign, hsign⟩ := splitSign_eq mantissa
  have hrest := cut_eq '.' (splitSign mantissa).2
  rw [hcut] at hrest
  have hdigit : ∀ c ∈ integer ++ fraction, c.isDigit = true := trim_eq_nil.mp htrim
  cases found with
  | true =>
    refine ⟨⟨sign, integer, some fraction, hdigit, hne⟩, ?_⟩
    rw [hsign, hrest]
    simp [Numeral.text, pointed]
  | false =>
    have hnil : fraction = [] := by
      have hafter := cut_after_absent
        (show (cut '.' (splitSign mantissa).2).2.2 = false by rw [hcut])
      rwa [hcut] at hafter
    subst hnil
    refine ⟨⟨sign, integer, none, hdigit, hne⟩, ?_⟩
    rw [hsign, hrest]
    simp [Numeral.text, pointed]

/-- What is read as an exponent is the text of one. -/
theorem exists_exponent {text : List Char} {exponent : Int64} (h : parseInt text = some exponent) :
    ∃ e : Exponent, e.text = text := by
  have hdigits : ∀ (sign : Sign) (digits : List Char) (n : ℕ), atoiDigits digits = some n →
      ∃ e : Exponent, e.text = sign.text ++ digits := by
    intro sign digits n hn
    rw [atoiDigits] at hn
    split at hn
    · rename_i hgood
      exact ⟨⟨sign, digits, List.all_eq_true.mp hgood.2, hgood.1⟩, rfl⟩
    · cases hn
  obtain ⟨value, hatoi, -⟩ := Option.bind_eq_some_iff.mp h
  unfold atoi at hatoi
  split at hatoi <;> obtain ⟨n, hn, -⟩ := Option.map_eq_some_iff.mp hatoi
  · exact hdigits .minus _ n hn
  · exact hdigits .plus _ n hn
  · exact hdigits .absent _ n hn

/-- A text whose mantissa is no numeral, or whose exponent is no `int`, is
refused. -/
theorem plainDecimal_of_not {text mantissa exponentText : List Char} (hmarker : 'e' ∉ mantissa)
    (htext : text.map Char.toLower = mantissa ++ 'e' :: exponentText)
    (hbad : (¬ ∃ n : Numeral, n.text = mantissa) ∨ ¬ ∃ e : Exponent, e.text = exponentText) :
    ∃ err, plainDecimal text = .ok (.error err) := by
  rw [plainDecimal, htext, cut_append hmarker]
  dsimp only
  rw [if_neg (by simp)]
  cases hexponent : parseInt exponentText with
  | none => exact ⟨_, rfl⟩
  | some exponent =>
    have hmantissa : ¬ ∃ n : Numeral, n.text = mantissa := by
      rcases hbad with hmantissa | hno
      · exact hmantissa
      · exact absurd (exists_exponent hexponent) hno
    cases hcut : cut '.' (splitSign mantissa).2 with
    | mk integer rest =>
      obtain ⟨fraction, found⟩ := rest
      have hrefused : integer ++ fraction = [] ∨ trim Char.isDigit (integer ++ fraction) ≠ [] := by
        by_contra! hgood
        exact hmantissa (exists_numeral hcut hgood.1 hgood.2)
      exact ⟨_, if_pos hrefused⟩

/-! ## Digit for digit -/

/-- The text is that of a numeral with the value of the number, with no more
decimals than it takes, and with the digits of its mantissa in order. -/
def Expands (number : Scientific) (plain : List Char) : Prop :=
  ∃ numeral : Numeral, numeral.text = plain ∧ numeral.value = number.value ∧
    (numeral.places : ℤ) = max 0 (number.mantissa.places - number.power) ∧
    number.mantissa.digits <:+: numeral.digits

/-- The number has no power of ten, or an `int` counts what it is expanded to:
the zeros in front of its digits, or those behind them. -/
def Fits (number : Scientific) : Prop :=
  number.exponent = none ∨
    let sign : ℤ := number.mantissa.sign.plain.text.length
    let point : ℤ := number.mantissa.integer.length + number.power
    (point ≤ 0 → sign + (number.mantissa.places - number.power + 2) < 2 ^ 63) ∧
      (number.mantissa.places ≤ number.power → sign + point < 2 ^ 63)

/-- Shifting the point is what expanding a number means. -/
theorem expands_shift (number : Scientific) :
    Expands number (number.mantissa.shift number.power).text :=
  ⟨_, rfl, number.mantissa.value_shift _, number.mantissa.places_shift _,
    number.mantissa.infix_digits_shift _⟩

theorem length_plain_le (sign : Sign) : sign.plain.text.length ≤ sign.text.length := by
  cases sign <;> decide

/-- Whether the expanded text can be counted is decided by the number alone. -/
theorem fits_iff {number : Scientific} (hlen : number.text.length < 2 ^ 63)
    (hscientific : number.exponent ≠ none) :
    (number.mantissa.shift number.power).text.length < 2 ^ 63 ↔ Fits number := by
  have hplain := length_plain_le number.mantissa.sign
  have hmantissa := number.mantissa.length_text
  have hdigits := number.mantissa.length_digits
  have hlength := number.mantissa.length_text_shift number.power
  have hshort : number.mantissa.text.length + 1 < 2 ^ 63 := by
    rw [Scientific.text, List.length_append] at hlen
    cases hexponent : number.exponent with
    | none => exact absurd hexponent hscientific
    | some exponent =>
      simp only [hexponent, List.length_cons] at hlen
      omega
  rw [Fits, or_iff_right hscientific]
  dsimp only
  split at hlength
  · have hne : number.mantissa.digits.length ≠ 0 :=
      fun hzero => number.mantissa.ne_nil (List.length_eq_zero_iff.mp hzero)
    omega
  · split at hlength <;> omega

/-- A number is expanded, unless that is longer than an `int` can count. -/
theorem plainDecimal_text {number : Scientific} (hlen : number.text.length < 2 ^ 63)
    (hlow : -2 ^ 63 ≤ number.power) (hhigh : number.power < 2 ^ 63)
    (hscientific : number.exponent ≠ none) :
    ∃ panic, plainDecimal number.text =
      if (number.mantissa.shift number.power).text.length < 2 ^ 63 then
        .ok (.ok (number.mantissa.shift number.power).text)
      else .error panic := by
  obtain ⟨n, exponent⟩ := number
  cases exponent with
  | none => exact absurd rfl hscientific
  | some marked =>
    obtain ⟨capital, exponent⟩ := marked
    have hdigits : n.digits.length < 2 ^ 63 := by
      have hmantissa := n.length_text
      simp only [Scientific.text, List.length_append] at hlen
      omega
    -- lowering the text changes the marker alone
    have htext : (Scientific.text ⟨n, some (capital, exponent)⟩).map Char.toLower =
        n.text ++ 'e' :: exponent.text := by
      have hmarker : Char.toLower (if capital then 'E' else 'e') = 'e' := by
        cases capital <;> rfl
      rw [Scientific.text, List.map_append, List.map_cons, hmarker,
        map_toLower fun _ => written_of_mem_text, map_toLower fun _ => written_of_mem_exponent]
    -- an exponent in the range of an `int64` is read as it is
    have hpower : (Int64.ofInt exponent.power).toInt = exponent.power :=
      Int64.toInt_ofInt_of_le hlow hhigh
    obtain ⟨panic, hexpand⟩ := expand_eq hdigits (Int64.ofInt exponent.power)
    rw [hpower] at hexpand
    refine ⟨panic, ?_⟩
    rw [plainDecimal_of_lower htext (parseInt_text hlow hhigh), hexpand]
    exact apply_ite (Except.map Except.ok) _ _ _

/-- Without a marker the text is the number already. -/
theorem plainDecimal_plain {number : Scientific} (hplain : number.exponent = none) :
    plainDecimal number.text = .ok (.ok number.text) ∧ Expands number number.text := by
  have htext : number.text = number.mantissa.text := by
    rw [Scientific.text, hplain, List.append_nil]
  have hpower : number.power = 0 := by rw [Scientific.power, hplain]
  have hmarker : 'e' ∉ number.mantissa.text := fun hmem =>
    (written_of_mem_text hmem).ne_marker rfl
  constructor
  · rw [plainDecimal, htext, map_toLower fun _ => written_of_mem_text, cut_absent hmarker]
    rfl
  · refine ⟨number.mantissa, htext.symm, ?_, ?_, List.infix_rfl⟩
    · rw [Scientific.value, hpower, zpow_zero, mul_one]
    · rw [hpower]
      omega

/-- A text with a marker is refused, unless a numeral is before it and an exponent
behind it. -/
theorem plainDecimal_refuses {mantissa exponentText : List Char} {marker : Char}
    (hmarker : marker ∈ ['e', 'E']) (hsmall : 'e' ∉ mantissa) (hcapital : 'E' ∉ mantissa)
    (hbad : (¬ ∃ n : Numeral, n.text = mantissa) ∨ ¬ ∃ e : Exponent, e.text = exponentText) :
    ∃ err, plainDecimal (mantissa ++ marker :: exponentText) = .ok (.error err) := by
  have hlower : marker.toLower = 'e' := by
    rcases List.mem_pair.mp hmarker with rfl | rfl <;> rfl
  have hno : 'e' ∉ mantissa.map Char.toLower := by
    intro hmem
    obtain ⟨c, hc, hce⟩ := List.mem_map.mp hmem
    rcases eq_marker_of_toLower hce with rfl | rfl
    · exact hsmall hc
    · exact hcapital hc
  refine plainDecimal_of_not hno (by rw [List.map_append, List.map_cons, hlower]) ?_
  rcases hbad with hmantissa | hexponent
  · refine .inl ?_
    rintro ⟨n, hn⟩
    refine hmantissa ⟨n, hn.trans (of_map_toLower fun c hc => ?_)⟩
    exact written_of_mem_text (hn ▸ hc)
  · refine .inr ?_
    rintro ⟨e, he⟩
    refine hexponent ⟨e, he.trans (of_map_toLower fun c hc => ?_)⟩
    exact written_of_mem_exponent (he ▸ hc)

/-- A number is expanded digit for digit exactly when an `int` counts what it is
expanded to, and every other text with a marker is refused. -/
theorem plainDecimal_exact_iff {text : List Char} (hlen : text.length < 2 ^ 63) :
    (∀ number : Scientific, number.text = text → -2 ^ 63 ≤ number.power →
      number.power < 2 ^ 63 →
      ((∃ plain, plainDecimal text = .ok (.ok plain) ∧ Expands number plain) ↔
        Fits number)) ∧
    ∀ (mantissa exponentText : List Char) (marker : Char),
      text = mantissa ++ marker :: exponentText → marker ∈ ['e', 'E'] →
      'e' ∉ mantissa → 'E' ∉ mantissa →
      ((¬ ∃ n : Numeral, n.text = mantissa) ∨ ¬ ∃ e : Exponent, e.text = exponentText) →
      ∃ err, plainDecimal text = .ok (.error err) := by
  constructor
  · rintro number rfl hlow hhigh
    rcases eq_or_ne number.exponent none with hplain | hscientific
    · exact iff_of_true ⟨_, plainDecimal_plain hplain⟩ (.inl hplain)
    · obtain ⟨panic, hnumber⟩ := plainDecimal_text hlen hlow hhigh hscientific
      rw [← fits_iff hlen hscientific, hnumber]
      constructor
      · rintro ⟨plain, hplain, -⟩
        by_contra hlong
        rw [if_neg hlong] at hplain
        cases hplain
      · intro hfits
        exact ⟨_, if_pos hfits, expands_shift number⟩
  · rintro mantissa exponentText marker rfl hmarker hsmall hcapital hbad
    exact plainDecimal_refuses hmarker hsmall hcapital hbad

/-- `1.50e-05`. -/
def sampleNumber : Scientific where
  mantissa := ⟨.absent, ['1'], some ['5', '0'], by simp, by simp⟩
  exponent := some (false, ⟨.minus, ['0', '5'], by simp, by simp⟩)

/-- A number with an exponent and a trailing zero, which stays. -/
theorem plainDecimal_exact_sample :
    plainDecimal "1.50e-05".toList = .ok (.ok "0.0000150".toList) ∧
      Expands sampleNumber "0.0000150".toList := by
  have htext : sampleNumber.text = "1.50e-05".toList := by decide +kernel
  have hplain : plainDecimal "1.50e-05".toList = .ok (.ok "0.0000150".toList) := by
    decide +kernel
  have hfits : Fits sampleNumber := .inr (by decide +kernel)
  have hlen : "1.50e-05".toList.length < 2 ^ 63 := by decide +kernel
  obtain ⟨plain, hsome, hexpands⟩ := ((plainDecimal_exact_iff hlen).1 sampleNumber htext
    (by decide +kernel) (by decide +kernel)).mpr hfits
  rw [hplain] at hsome
  cases hsome
  exact ⟨hplain, hexpands⟩

/-- The largest `int` as an exponent: the point wraps around. -/
theorem plainDecimal_wraps : ∃ number : Scientific,
    number.text = "1e9223372036854775807".toList ∧ number.power = 2 ^ 63 - 1 ∧
      plainDecimal number.text = .error .negativeRepeatCount := by
  refine ⟨⟨⟨.absent, ['1'], none, by simp, by simp⟩,
    some (false, ⟨.absent, "9223372036854775807".toList, by simp, by simp⟩)⟩, ?_, ?_, ?_⟩
  · rfl
  · rfl
  · rfl

end Symm.Kraken
