import Mathlib.Data.Rat.Floor

/-!
# Numbers of floating point

A finite number is the rational that it denotes; a negative zero is not told from zero.
A rational is rounded to the nearest number of a format, to the even one of two, and a
number of 64 bits is written with the fewest digits that are rounded back to it.

- `toFloat64`, `toFloat32`: rounding;
- `Floating`: numbers with infinities, and conversions;
- `shortest`: the digits of a number;
- `fixed`, `scientific`: the two ways to write digits.

`roundFloat` takes the number of bits and the exponents as arguments, so both formats
are one definition: scale by the power of two that leaves an integer with that many
bits, or by the least one the format has, and round that integer to even.

`shortest` looks for the nearest decimal of one digit, of two, and so on, until one is
rounded back to the number; 17 digits always are. Writers then choose between the two
notations by bounds of their own, which `writeFloat64` takes as an argument.
-/

namespace Symm.Lib

/-! ## Rounding -/

/-- The power of two at or below a positive rational. -/
def floorLog2 (q : ℚ) : ℤ :=
  let e : ℤ := Nat.log2 q.num.natAbs - Nat.log2 q.den
  if 2 ^ e ≤ q then e else e - 1

/-- The nearest integer, the even one of two. -/
def roundEven (q : ℚ) : ℤ :=
  let rest := q - ⌊q⌋
  if rest < 1 / 2 ∨ rest = 1 / 2 ∧ ⌊q⌋ % 2 = 0 then ⌊q⌋ else ⌊q⌋ + 1

/-- The nearest number with one bit more than `bits`, none of them worth less than
`2 ^ least`; none from `2 ^ most` on. -/
def roundFloat (bits least most : ℤ) (q : ℚ) : Option ℚ :=
  if q = 0 then some 0
  else
    let unit : ℚ := 2 ^ max (floorLog2 |q| - bits) least
    let rounded := roundEven (q / unit) * unit
    if |rounded| < 2 ^ most then some rounded else none

def toFloat64 : ℚ → Option ℚ := roundFloat 52 (-1074) 1024

def toFloat32 : ℚ → Option ℚ := roundFloat 23 (-149) 128

/-- A number of floating point. -/
inductive Floating
  | finite (value : ℚ)
  | infinite (negative : Bool)
  | nan
  deriving DecidableEq

namespace Floating

variable (round : ℚ → Option ℚ)

def of (q : ℚ) : Floating :=
  match round q with
  | some value => .finite value
  | none => .infinite (decide (q < 0))

/-- A conversion. -/
def convert : Floating → Floating
  | .finite value => of round value
  | number => number

/-- A number that needs no rounding. -/
def Fits : Floating → Prop
  | .finite value => round value = some value
  | _ => True

theorem convert_eq_self {round : ℚ → Option ℚ} : ∀ {number : Floating}, number.Fits round →
    number.convert round = number
  | .finite value, h => by
    rw [Fits] at h
    simp only [convert, of, h]
  | .infinite _, _ => rfl
  | .nan, _ => rfl

end Floating

/-! ## Digits -/

/-- The power of ten at or below a positive rational. -/
def floorLog10 (q : ℚ) : ℤ :=
  let e : ℤ := (Nat.toDigits 10 q.num.natAbs).length - (Nat.toDigits 10 q.den).length
  if 10 ^ e ≤ q then e else e - 1

/-- Digits, and the place of the point in front of them or after them. -/
structure Digits where
  digits : List Char
  point : ℤ

/-- A whole number of units of a power of ten; zeros at the end are dropped. -/
def Digits.of (count : ℕ) (power : ℤ) : Digits :=
  let digits := Nat.toDigits 10 count
  ⟨(digits.reverse.dropWhile (· = '0')).reverse, digits.length + power⟩

/-- The nearest of the decimals that are rounded to a positive number and have this many
digits or, as long as there are turns left, more. -/
def shortestFrom (q : ℚ) : (turns count : ℕ) → Digits
  | 0, count =>
    let power := floorLog10 q - count + 1
    .of ⌊q / 10 ^ power⌋.toNat power
  | turns + 1, count =>
    let power := floorLog10 q - count + 1
    let scaled := q / 10 ^ power
    let back (n : ℤ) : Prop := toFloat64 (n * 10 ^ power) = some q
    if back ⌊scaled⌋ ∧ (scaled - ⌊scaled⌋ ≤ ⌈scaled⌉ - scaled ∨ ¬ back ⌈scaled⌉) then
      .of ⌊scaled⌋.toNat power
    else if back ⌈scaled⌉ then .of ⌈scaled⌉.toNat power
    else shortestFrom q turns (count + 1)

/-- The fewest digits that are rounded back to a positive number; 17 always are. -/
def shortest (q : ℚ) : Digits := shortestFrom q 16 1

/-! ## Texts -/

/-- Digits with the point among them. -/
def Digits.fixed (d : Digits) : List Char :=
  if d.point ≤ 0 then '0' :: '.' :: (List.replicate (-d.point).toNat '0' ++ d.digits)
  else if d.digits.length ≤ d.point then
    d.digits ++ List.replicate (d.point - d.digits.length).toNat '0'
  else d.digits.take d.point.toNat ++ '.' :: d.digits.drop d.point.toNat

/-- Digits with a power of ten of at least `width` digits. -/
def Digits.scientific (width : ℕ) (d : Digits) : List Char :=
  let exponent := d.point - 1
  let digits := Nat.toDigits 10 exponent.natAbs
  d.digits.take 1 ++ (if d.digits.length ≤ 1 then [] else '.' :: d.digits.drop 1) ++
    'e' :: (if exponent < 0 then '-' else '+') ::
      (List.replicate (width - digits.length) '0' ++ digits)

/-- A number written by a rule for positive ones. -/
def writeFloat64 (rule : Digits → List Char) (q : ℚ) : String :=
  if q = 0 then "0"
  else if q < 0 then String.ofList ('-' :: rule (shortest (-q)))
  else String.ofList (rule (shortest q))

/-! ## Characters -/

/-- A character of digits with the point among them. -/
def inFixed (c : Char) : Bool := c.isDigit || c = '.'

theorem Digits.isDigit_of {count : ℕ} {power : ℤ} {c : Char} (hc : c ∈ (of count power).digits) :
    c.isDigit := by
  refine Nat.isDigit_of_mem_toDigits (b := 10) (n := count) (by decide) (by decide) ?_
  have hsuffix := (Nat.toDigits 10 count).reverse.dropWhile_suffix (p := (· = '0'))
  exact List.mem_reverse.mp (hsuffix.mem (List.mem_reverse.mp hc))

theorem isDigit_shortestFrom {q : ℚ} {c : Char} : ∀ {turns count : ℕ},
    c ∈ (shortestFrom q turns count).digits → c.isDigit
  | 0, _, hc => Digits.isDigit_of hc
  | turns + 1, count, hc => by
    simp only [shortestFrom] at hc
    split_ifs at hc
    · exact Digits.isDigit_of hc
    · exact Digits.isDigit_of hc
    · exact isDigit_shortestFrom hc

theorem isDigit_shortest {q : ℚ} {c : Char} (hc : c ∈ (shortest q).digits) : c.isDigit :=
  isDigit_shortestFrom hc

namespace Digits

variable {d : Digits} (hdigits : ∀ c ∈ d.digits, c.isDigit)
include hdigits

/-- The fixed notation has digits, a point and a sign. -/
theorem inFixed_fixed {c : Char} (hc : c ∈ d.fixed) : inFixed c := by
  have hdigit : ∀ c ∈ d.digits, inFixed c := fun c hc => by simp [inFixed, hdigits c hc]
  have hzero : inFixed '0' := by decide
  have hpoint : inFixed '.' := by decide
  unfold fixed at hc
  split_ifs at hc
  · simp only [List.mem_cons, List.mem_append, List.mem_replicate] at hc
    rcases hc with rfl | rfl | ⟨-, rfl⟩ | hc
    · exact hzero
    · exact hpoint
    · exact hzero
    · exact hdigit c hc
  · simp only [List.mem_append, List.mem_replicate] at hc
    rcases hc with hc | ⟨-, rfl⟩
    · exact hdigit c hc
    · exact hzero
  · simp only [List.mem_cons, List.mem_append] at hc
    rcases hc with hc | rfl | hc
    · exact hdigit c (List.mem_of_mem_take hc)
    · exact hpoint
    · exact hdigit c (List.mem_of_mem_drop hc)

omit hdigits in
/-- The fixed notation is never empty. -/
theorem fixed_ne_nil (d : Digits) : d.fixed ≠ [] := by
  unfold fixed
  split_ifs with hfirst hlast
  · simp
  · simp only [ne_eq, List.append_eq_nil_iff, List.replicate_eq_nil_iff, not_and]
    rintro hnil
    simp only [hnil, List.length_nil]
    omega
  · simp

/-- What follows the digits of a number. -/
theorem dropWhile_fixed (rest : List Char) :
    (d.fixed ++ rest).dropWhile inFixed = rest.dropWhile inFixed :=
  List.dropWhile_append_of_pos fun _ hc => inFixed_fixed hdigits hc

/-- The scientific one goes on with the marker of its exponent. -/
theorem dropWhile_scientific (width : ℕ) (rest : List Char) :
    (d.scientific width ++ rest).dropWhile inFixed =
      'e' :: (if d.point - 1 < 0 then '-' else '+') ::
        (List.replicate (width - (Nat.toDigits 10 (d.point - 1).natAbs).length) '0' ++
          (Nat.toDigits 10 (d.point - 1).natAbs ++ rest)) := by
  have hdigit : ∀ c ∈ d.digits, inFixed c := fun c hc => by simp [inFixed, hdigits c hc]
  have hmantissa : ∀ c ∈ d.digits.take 1 ++ (if d.digits.length ≤ 1 then [] else
      '.' :: d.digits.drop 1), inFixed c := by
    intro c hc
    rcases List.mem_append.mp hc with hc | hc
    · exact hdigit c (List.mem_of_mem_take hc)
    · split_ifs at hc
      · simp at hc
      · rcases List.mem_cons.mp hc with rfl | hc
        · decide
        · exact hdigit c (List.mem_of_mem_drop hc)
  simp only [scientific]
  rw [List.append_assoc, List.dropWhile_append_of_pos hmantissa]
  simp [inFixed]

end Digits

end Symm.Lib
