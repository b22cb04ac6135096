import Mathlib.Algebra.Field.Rat

/-!
# Values of a script

What a script of the browser finds in a decoded JSON document, before it has looked
at its type. Numbers are exact rationals.

- `Js`, `Record`: the values, and objects by their members;
- `Js.isNullish`, `Js.text`: what `??` passes over, and what `String` makes of a
  value;
- `scanDecimal`, `scanNumber`: the texts of decimals, and what `Number` makes of a text;
- `Host`: what the engine knows of dates and of the texts of numbers.
-/

namespace Symm.Lib

/-- A value. -/
inductive Js
  | undefined
  | null
  | bool (value : Bool)
  | num (value : ℚ)
  | str (text : String)
  | arr (items : List Js)
  | obj (members : String → Js)

/-- An object; a member that it does not have is undefined. -/
abbrev Record := String → Js

/-- The engine's dates and the texts of its numbers. -/
structure Host where
  /-- `new Date(text).toISOString()`, none where it throws. -/
  toISOString : String → Option String
  /-- `Date.parse`, in milliseconds. -/
  parse : String → ℚ
  /-- `String` of a number. -/
  text : ℚ → String
  /-- `toFixed(2)`. -/
  toFixed2 : ℚ → String

/-- A host that knows dates only as they are written, and writes no numbers. -/
def Host.plain : Host := ⟨some, fun _ => 0, fun _ => "", fun _ => ""⟩

namespace Js

/-- The left operand of `??` is passed over. -/
def isNullish : Js → Bool
  | .undefined => true
  | .null => true
  | _ => false

/-- `??`. -/
def orElse (value other : Js) : Js := if value.isNullish then other else value

/-- A string. -/
def string? : Js → Option String
  | .str text => some text
  | _ => none

mutual

/-- `String`. -/
def text (host : Host) : Js → String
  | .undefined => "undefined"
  | .null => "null"
  | .bool value => if value then "true" else "false"
  | .num value => host.text value
  | .str text => text
  | .arr items => ",".intercalate (texts host items)
  | .obj _ => "[object Object]"

/-- The texts of the items of an array. -/
def texts (host : Host) : List Js → List String
  | [] => []
  | item :: rest => (if item.isNullish then "" else text host item) :: texts host rest

end

end Js

/-! ## Decimals -/

/-- White space and line ends. -/
def isSpace (c : Char) : Bool :=
  c.toNat ∈ [0x9, 0xA, 0xB, 0xC, 0xD, 0x20, 0xA0, 0x1680, 0x2028, 0x2029, 0x202F, 0x205F, 0x3000,
    0xFEFF] || (0x2000 ≤ c.toNat && c.toNat ≤ 0x200A)

/-- `trim`. -/
def trimSpace (text : List Char) : List Char :=
  ((text.dropWhile isSpace).reverse.dropWhile isSpace).reverse

/-- The sign in front of a number, and what comes after it. -/
def scanSign : List Char → ℤ × List Char
  | '-' :: rest => (-1, rest)
  | '+' :: rest => (1, rest)
  | rest => (1, rest)

/-- The exponent that a text consists of. -/
def scanExponent : List Char → Option ℤ
  | [] => some 0
  | c :: rest =>
    if c = 'e' ∨ c = 'E' then
      match scanSign rest with
      | (sign, digits) =>
        if digits ≠ [] ∧ digits.all Char.isDigit then
          some (sign * Nat.ofDigitChars 10 digits 0)
        else none
    else none

/-- The value of digits with a sign and a power of ten. -/
def decimalValue (sign : ℤ) (digits : List Char) (exponent : ℤ) : ℚ :=
  sign * Nat.ofDigitChars 10 digits 0 * 10 ^ exponent

/-- The value of a text that is a decimal: a sign, digits with a point before, in or
after them, and an exponent. -/
def scanDecimal (text : List Char) : Option ℚ :=
  match scanSign text with
  | (sign, unsigned) =>
    let whole := unsigned.takeWhile Char.isDigit
    match unsigned.dropWhile Char.isDigit with
    | '.' :: rest =>
      let fraction := rest.takeWhile Char.isDigit
      if whole = [] ∧ fraction = [] then none
      else (scanExponent (rest.dropWhile Char.isDigit)).map fun exponent =>
        decimalValue sign (whole ++ fraction) (exponent - fraction.length)
    | rest =>
      if whole = [] then none
      else (scanExponent rest).map fun exponent => decimalValue sign whole exponent

/-- The value of a digit in bases up to sixteen. -/
def radixDigit (c : Char) : Option ℕ :=
  if c.isDigit then some (c.toNat - '0'.toNat)
  else if 'a'.toNat ≤ c.toNat ∧ c.toNat ≤ 'f'.toNat then some (c.toNat - 'a'.toNat + 10)
  else if 'A'.toNat ≤ c.toNat ∧ c.toNat ≤ 'F'.toNat then some (c.toNat - 'A'.toNat + 10)
  else none

/-- The value of a text of digits in the base. -/
def scanRadix (base : ℕ) (text : List Char) : Option ℚ :=
  if text = [] then none
  else ((text.foldlM fun value c =>
    ((radixDigit c).filter (· < base)).map (base * value + ·)) 0).map Nat.cast

/-- What `Number` makes of a text without space around it, where that is finite. -/
def scanNumber (text : List Char) : Option ℚ :=
  match text with
  | '0' :: c :: digits =>
    if c = 'x' ∨ c = 'X' then scanRadix 16 digits
    else if c = 'o' ∨ c = 'O' then scanRadix 8 digits
    else if c = 'b' ∨ c = 'B' then scanRadix 2 digits
    else scanDecimal text
  | _ => scanDecimal text

example : scanDecimal (trimSpace " -12.50e-1 ".toList) = some (-5 / 4) := by decide +kernel

end Symm.Lib
