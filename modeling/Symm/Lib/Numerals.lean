import Mathlib.Algebra.Field.Rat
import Mathlib.Algebra.GroupWithZero.Basic
import Mathlib.Data.List.Infix
import Mathlib.Tactic.LinearCombination

/-!
# Decimal numerals

A numeral is a sign and a run of digits with a point somewhere in it; scientific
notation adds a power of ten. Multiplying by a power of ten moves the point over
the digits, and past their end over zeros.

- `Numeral`, `Exponent`, `Scientific`: the texts, and the rational each denotes;
- `Numeral.shift`: the point moved, as a numeral again;
- `value_shift`, `places_shift`, `digits_shift`: what moving the point keeps.

A numeral keeps its digits in two lists, before and after the point, so that moving the
point is moving digits from one list to the other. Its value is that of all digits over
a power of ten, which makes `value_shift` an equation between powers. Zeros are put in
where the digits run out, on the left or on the right, and the lemma on infixes says
that the digits themselves stay in order.
-/

namespace Symm.Lib

/-- The sign in front of a numeral. -/
inductive Sign
  | absent | plus | minus
  deriving DecidableEq

namespace Sign

def text : Sign → List Char
  | .absent => []
  | .plus => ['+']
  | .minus => ['-']

def factor : Sign → ℤ
  | .minus => -1
  | _ => 1

/-- The sign without a plus. -/
def plain : Sign → Sign
  | .minus => .minus
  | _ => .absent

@[simp] theorem factor_plain (sign : Sign) : sign.plain.factor = sign.factor := by
  cases sign <;> rfl

end Sign

/-! ## Digits -/

/-- What a run of digits counts to. -/
def digitsValue (digits : List Char) : ℕ := Nat.ofDigitChars 10 digits 0

@[simp] theorem digitsValue_append_zeros (digits : List Char) (k : ℕ) :
    digitsValue (digits ++ List.replicate k '0') = digitsValue digits * 10 ^ k := by
  simp [digitsValue, Nat.ofDigitChars_append, mul_comm]

@[simp] theorem digitsValue_zeros_append (k : ℕ) (digits : List Char) :
    digitsValue (List.replicate k '0' ++ digits) = digitsValue digits := by
  simp [digitsValue, Nat.ofDigitChars_append]

/-! ## Numerals -/

/-- Digits with at most one point, after an optional sign. -/
structure Numeral where
  sign : Sign
  integer : List Char
  fraction : Option (List Char)
  digit : ∀ c ∈ integer ++ fraction.getD [], c.isDigit = true
  ne_nil : integer ++ fraction.getD [] ≠ []

/-- The point and the digits after it. -/
def pointed : Option (List Char) → List Char
  | none => []
  | some fraction => '.' :: fraction

namespace Numeral

def digits (n : Numeral) : List Char := n.integer ++ n.fraction.getD []

/-- The number of digits after the point. -/
def places (n : Numeral) : ℕ := (n.fraction.getD []).length

def text (n : Numeral) : List Char := n.sign.text ++ n.integer ++ pointed n.fraction

def value (n : Numeral) : ℚ := n.sign.factor * digitsValue n.digits * 10 ^ (-(n.places : ℤ))

theorem length_digits (n : Numeral) : n.digits.length = n.integer.length + n.places :=
  List.length_append

theorem length_text (n : Numeral) :
    n.text.length = n.sign.text.length + n.digits.length + if n.fraction.isSome then 1 else 0 := by
  rw [length_digits, text, places]
  cases n.fraction with
  | none => simp [pointed]
  | some fraction =>
    simp [pointed]
    omega

/-! ## Moving the point -/

/-- The digits before and after the point once it is moved `e` to the right. -/
def moved (n : Numeral) (e : ℤ) : List Char × Option (List Char) :=
  let point : ℤ := n.integer.length + e
  if point ≤ 0 then (['0'], some (List.replicate (-point).toNat '0' ++ n.digits))
  else if n.digits.length ≤ point then
    (n.digits ++ List.replicate (point - n.digits.length).toNat '0', none)
  else (n.digits.take point.toNat, some (n.digits.drop point.toNat))

/-- The digits stay as they are, with zeros before and after them. -/
theorem moved_digits (n : Numeral) (e : ℤ) :
    ∃ lead, (n.moved e).1 ++ (n.moved e).2.getD [] =
      List.replicate lead '0' ++ (n.digits ++ List.replicate (e - n.places).toNat '0') := by
  have hlen := n.length_digits
  unfold moved
  dsimp only
  split
  · refine ⟨(-(n.integer.length + e)).toNat + 1, ?_⟩
    have hnone : (e - n.places).toNat = 0 := by omega
    simp [hnone, List.replicate_succ]
  · split
    · have htrail : (n.integer.length + e - n.digits.length).toNat = (e - n.places).toNat := by
        omega
      exact ⟨0, by simp [htrail]⟩
    · have hnone : (e - n.places).toNat = 0 := by omega
      exact ⟨0, by simp [hnone]⟩

/-- The numeral with its point moved `e` digits to the right, and no plus. -/
def shift (n : Numeral) (e : ℤ) : Numeral where
  sign := n.sign.plain
  integer := (n.moved e).1
  fraction := (n.moved e).2
  digit := by
    obtain ⟨lead, hmoved⟩ := n.moved_digits e
    rw [hmoved]
    simp only [List.mem_append, List.mem_replicate]
    rintro c (⟨-, rfl⟩ | hc | ⟨-, rfl⟩)
    · rfl
    · exact n.digit c hc
    · rfl
  ne_nil := by
    obtain ⟨lead, hmoved⟩ := n.moved_digits e
    rw [hmoved]
    have hne : n.digits ≠ [] := n.ne_nil
    simp [hne]

theorem text_shift (n : Numeral) (e : ℤ) :
    (n.shift e).text = n.sign.plain.text ++ (n.moved e).1 ++ pointed (n.moved e).2 := rfl

theorem digits_shift (n : Numeral) (e : ℤ) :
    ∃ lead, (n.shift e).digits =
      List.replicate lead '0' ++ (n.digits ++ List.replicate (e - n.places).toNat '0') :=
  n.moved_digits e

/-- The digits appear in order. -/
theorem infix_digits_shift (n : Numeral) (e : ℤ) : n.digits <:+: (n.shift e).digits := by
  obtain ⟨lead, hdigits⟩ := n.digits_shift e
  exact ⟨_, _, by rw [hdigits, List.append_assoc]⟩

/-- It has as many places as the shift leaves, and none below zero. -/
theorem places_shift (n : Numeral) (e : ℤ) : ((n.shift e).places : ℤ) = max 0 (n.places - e) := by
  have hlen := n.length_digits
  have hplaces : (n.shift e).places = ((n.moved e).2.getD []).length := rfl
  rw [hplaces, moved]
  split
  · simp only [Option.getD_some, List.length_append, List.length_replicate]
    omega
  · split
    · simp only [Option.getD_none, List.length_nil]
      omega
    · simp only [Option.getD_some, List.length_drop]
      omega

/-- Moving the point multiplies by a power of ten. -/
theorem value_shift (n : Numeral) (e : ℤ) : (n.shift e).value = n.value * 10 ^ e := by
  obtain ⟨lead, hdigits⟩ := n.digits_shift e
  have hten : (10 : ℚ) ≠ 0 := by norm_num
  have hpower : (10 : ℚ) ^ (e - n.places).toNat * 10 ^ (-((n.shift e).places : ℤ)) =
      10 ^ (-(n.places : ℤ)) * 10 ^ e := by
    rw [n.places_shift e, ← zpow_natCast, ← zpow_add₀ hten, ← zpow_add₀ hten]
    congr 1
    omega
  have hsign : (n.shift e).sign.factor = n.sign.factor := n.sign.factor_plain
  rw [value, value, hdigits, hsign, digitsValue_zeros_append, digitsValue_append_zeros]
  push_cast
  linear_combination (n.sign.factor * digitsValue n.digits : ℚ) * hpower

/-- How long the numeral is once its point is moved. -/
theorem length_text_shift (n : Numeral) (e : ℤ) :
    ((n.shift e).text.length : ℤ) = n.sign.plain.text.length +
      if n.integer.length + e ≤ 0 then n.places - e + 2
      else if n.places ≤ e then n.integer.length + e
      else n.digits.length + 1 := by
  have hlen := n.length_digits
  have htext : (n.shift e).text.length = n.sign.plain.text.length +
      ((n.moved e).1 ++ (n.moved e).2.getD []).length +
      if (n.moved e).2.isSome then 1 else 0 := length_text (n.shift e)
  rw [htext]
  by_cases hleft : (n.integer.length : ℤ) + e ≤ 0
  · simp only [moved, if_pos hleft, Option.getD_some, Option.isSome_some, List.length_append,
      List.length_replicate, List.length_singleton, if_true]
    omega
  · by_cases hright : (n.places : ℤ) ≤ e
    · have hpast : (n.digits.length : ℤ) ≤ n.integer.length + e := by omega
      simp only [moved, if_neg hleft, if_pos hright, if_pos hpast, Option.getD_none,
        Option.isSome_none, List.append_nil, List.length_append, List.length_replicate,
        Bool.false_eq_true, if_false]
      omega
    · have hinside : ¬ (n.digits.length : ℤ) ≤ n.integer.length + e := by omega
      simp only [moved, if_neg hleft, if_neg hright, if_neg hinside, Option.getD_some,
        Option.isSome_some, List.take_append_drop, if_true]
      omega

end Numeral

/-! ## Scientific notation -/

/-- The power of ten of a number in scientific notation. -/
structure Exponent where
  sign : Sign
  digits : List Char
  digit : ∀ c ∈ digits, c.isDigit = true
  ne_nil : digits ≠ []

namespace Exponent

def text (exponent : Exponent) : List Char := exponent.sign.text ++ exponent.digits

def power (exponent : Exponent) : ℤ := exponent.sign.factor * digitsValue exponent.digits

end Exponent

/-- A numeral with an optional power of ten, behind a small or a capital marker. -/
structure Scientific where
  mantissa : Numeral
  exponent : Option (Bool × Exponent)

namespace Scientific

def text (number : Scientific) : List Char :=
  number.mantissa.text ++ match number.exponent with
    | none => []
    | some (capital, exponent) => (if capital then 'E' else 'e') :: exponent.text

def power (number : Scientific) : ℤ :=
  match number.exponent with
  | none => 0
  | some (_, exponent) => exponent.power

def value (number : Scientific) : ℚ := number.mantissa.value * 10 ^ number.power

end Scientific

end Symm.Lib
