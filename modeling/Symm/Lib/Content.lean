import Symm.Lib.Js
import Symm.Lib.Json

/-!
# What a JSON document says

Two documents say the same where their numbers are equal, however they are written, and
their objects have the same values under the same names, in any order. Of members with
one name the last one counts.

- `Content`, `content`: a document up to such differences;
- `Content.mapNumbers`: a document with its numbers replaced, and when it says the same.
-/

namespace Symm.Lib

/-- What a document says. -/
inductive Content
  | null
  | bool (value : Bool)
  | num (value : ℚ)
  | str (text : String)
  | arr (items : List Content)
  | obj (members : String → Option Content)

/-- The value of a number as it is written. -/
def numberValue (lexeme : String) : ℚ := (scanDecimal lexeme.toList).getD 0

mutual

def content : Json → Content
  | .null => .null
  | .bool value => .bool value
  | .num lexeme => .num (numberValue lexeme)
  | .str text => .str text
  | .arr items => .arr (contentItems items)
  | .obj members => .obj (contentMembers members)

def contentItems : List Json → List Content
  | [] => []
  | item :: rest => content item :: contentItems rest

/-- The members of an object; the last one of a name counts. -/
def contentMembers : List (String × Json) → String → Option Content
  | [], _ => none
  | (name, value) :: rest, other =>
    (contentMembers rest other).or (if other = name then some (content value) else none)

end

namespace Content

mutual

/-- The numbers replaced. -/
def mapNumbers (f : ℚ → ℚ) : Content → Content
  | .null => .null
  | .bool value => .bool value
  | .num value => .num (f value)
  | .str text => .str text
  | .arr items => .arr (mapItems f items)
  | .obj members => .obj fun name => mapMember f (members name)

def mapItems (f : ℚ → ℚ) : List Content → List Content
  | [] => []
  | item :: rest => mapNumbers f item :: mapItems f rest

def mapMember (f : ℚ → ℚ) : Option Content → Option Content
  | none => none
  | some value => some (mapNumbers f value)

end

mutual

/-- All numbers, at any depth, meet `p`. -/
def AllNumbers (p : ℚ → Prop) : Content → Prop
  | .null => True
  | .bool _ => True
  | .num value => p value
  | .str _ => True
  | .arr items => AllItems p items
  | .obj members => ∀ name, AllMember p (members name)

def AllItems (p : ℚ → Prop) : List Content → Prop
  | [] => True
  | item :: rest => AllNumbers p item ∧ AllItems p rest

def AllMember (p : ℚ → Prop) : Option Content → Prop
  | none => True
  | some value => AllNumbers p value

end

variable {f : ℚ → ℚ}

mutual

/-- A document says the same exactly where every number is replaced by itself. -/
theorem mapNumbers_eq_self : ∀ c : Content, c.mapNumbers f = c ↔ c.AllNumbers fun q => f q = q
  | .null => by simp [mapNumbers, AllNumbers]
  | .bool value => by simp [mapNumbers, AllNumbers]
  | .num value => by simp [mapNumbers, AllNumbers]
  | .str text => by simp [mapNumbers, AllNumbers]
  | .arr items => by simp [mapNumbers, AllNumbers, mapItems_eq_self items]
  | .obj members => by
    simp only [mapNumbers, AllNumbers, obj.injEq, funext_iff]
    exact forall_congr' fun name => mapMember_eq_self (members name)

/-- Rewriting leaves a list as it is exactly if it leaves each item. -/
theorem mapItems_eq_self : ∀ items : List Content,
    mapItems f items = items ↔ AllItems (fun q => f q = q) items
  | [] => by simp [mapItems, AllItems]
  | item :: rest => by
    simp [mapItems, AllItems, mapNumbers_eq_self item, mapItems_eq_self rest]

theorem mapMember_eq_self : ∀ member : Option Content,
    mapMember f member = member ↔ AllMember (fun q => f q = q) member
  | none => by simp [mapMember, AllMember]
  | some value => by simp [mapMember, AllMember, mapNumbers_eq_self value]

end

end Content

end Symm.Lib
