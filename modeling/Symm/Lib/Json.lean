import Mathlib.Data.List.Basic

/-!
# JSON values and typed decoders

A decoder of a struct type walks the members of an object: each is matched to a
field by its name, first exactly and then up to case, and its value has to be
one the field's type accepts. A member that matches no field is passed over.

- `GoType`: the types such a decoder knows, with the types that decode
  themselves left to a predicate;
- `accepts`: the values a type accepts;
- `fieldNamed`: the field a member's name is matched to.
-/

namespace Symm.Lib

/-- A JSON value; a number is kept as it is written. -/
inductive Json
  | null
  | bool (value : Bool)
  | num (lexeme : String)
  | str (text : String)
  | arr (items : List Json)
  | obj (members : List (String × Json))

namespace Json

/-- The value of a name in a map filled from the members; the last one stays. -/
def get (members : List (String × Json)) (name : String) : Option Json :=
  members.reverse.lookup name

/-- The text of a string. -/
def text : Json → Option String
  | .str text => some text
  | _ => none

/-- The members of an object. -/
def members : Json → Option (List (String × Json))
  | .obj members => some members
  | _ => none

/-- A number without sign, fraction or exponent, below `bound`. -/
def isNat (bound : Nat) : Json → Bool
  | .num lexeme => lexeme.toList ≠ [] ∧ lexeme.toList.all Char.isDigit ∧
      lexeme.toList.foldl (fun n c => 10 * n + (c.toNat - 48)) 0 < bound
  | _ => false

/-- A number without fraction or exponent from `-bound` to below `bound`. -/
def isInt (bound : Nat) : Json → Bool
  | .num lexeme =>
    match lexeme.toList with
    | '-' :: digits => (Json.num (String.ofList digits)).isNat (bound + 1)
    | _ => (Json.num lexeme).isNat bound
  | _ => false

end Json

/-- A JSON object: its names are distinct. -/
structure JsonObject where
  members : List (String × Json)
  nodup : (members.map Prod.fst).Nodup

/-- The types a decoder knows; `custom` ones decode themselves. -/
inductive GoType
  | string
  | uint (bits : Nat)
  | int
  | custom (name : String)
  | slice (elem : GoType)
  | pointer (elem : GoType)
  | struct (fields : List (String × GoType))

namespace GoType

variable (fold : String → String) (custom : String → Json → Bool)

mutual

/-- The decoder accepts the value for the type. Only a type that decodes itself is
asked about `null`, and not through a pointer. -/
def accepts : GoType → Json → Bool
  | .string, .null => true
  | .string, value => value.text.isSome
  | .uint _, .null => true
  | .uint bits, value => value.isNat (2 ^ bits)
  | .int, .null => true
  | .int, value => value.isInt (2 ^ 63)
  | .custom name, value => custom name value
  | .slice _, .null => true
  | .slice elem, .arr items => items.all fun item => accepts elem item
  | .slice _, _ => false
  | .pointer _, .null => true
  | .pointer elem, value => accepts elem value
  | .struct _, .null => true
  | .struct fields, .obj members => members.all fun member =>
      ((acceptsNamed fields (· = member.1) member.2).or
        (acceptsNamed fields (fold · = fold member.1) member.2)).getD true
  | .struct _, _ => false

/-- The answer of the first field whose name matches, if any does. -/
def acceptsNamed : List (String × GoType) → (String → Bool) → Json → Option Bool
  | [], _, _ => none
  | field :: rest, named, value =>
    if named field.1 then some (accepts field.2 value) else acceptsNamed rest named value

end

/-- The field a member is matched to: one of its name, or one that folds alike. -/
def fieldNamed (fields : List (String × GoType)) (name : String) : Option (String × GoType) :=
  (fields.find? (·.1 = name)).or (fields.find? fun field => fold field.1 = fold name)

end GoType

end Symm.Lib
