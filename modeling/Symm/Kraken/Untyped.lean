import Symm.Lib.Content
import Symm.Lib.Float64

/-!
# Untyped values (`kraken/auth.go`)

A body is decoded into `any` and encoded again, by sonic, and its nonce is written by
`fmt.Sprint`. Untyped numbers are of 64-bit floating point, so that a number may come back
as another one, and the two writers choose between digits and powers of ten at different
sizes.

- `Any`, `decode`, `encode`: documents as untyped values, and back;
- `sprint`, `jsonText`: a value as `fmt.Sprint` writes it, and as a document has it;
- `content_encode`: what a document says after it was decoded and encoded.

A decoded map is a Go map: a repeated name counts once, for its last value.
`content_encode` speaks of what a document says, members by name, so neither that nor
the order of the members shows in it; what does show is a number, which comes back as
the nearest double (`rewritten`), and a number beyond the largest double fails the
decoding.

The recursions over items and members are written out next to the one over documents, as
the three are mutual, and each theorem comes in the same three parts.
-/

namespace Symm.Kraken

open Symm.Lib

/-- What is decoded into `any`. The members of a map have names of their own. -/
inductive Any
  | nil
  | bool (value : Bool)
  | float64 (value : ℚ)
  | string (text : String)
  | slice (items : List Any)
  | map (members : List (String × Any))

/-! ## Decoding and encoding -/

/-- A number of JSON: an exponent from 21 on, or below -6, is written. -/
def jsonDigits (d : Digits) : List Char :=
  if d.point - 1 < -6 ∨ 20 < d.point - 1 then d.scientific 1 else d.fixed

mutual

/-- `sonic.Unmarshal` into `any`, none for a number beyond the largest. -/
def decode : Json → Option Any
  | .null => some .nil
  | .bool value => some (.bool value)
  | .num lexeme => (toFloat64 (numberValue lexeme)).map .float64
  | .str text => some (.string text)
  | .arr items => (decodeItems items).map .slice
  | .obj members => (decodeMembers members).map .map

def decodeItems : List Json → Option (List Any)
  | [] => some []
  | item :: rest => (decode item).bind fun item => (decodeItems rest).map (item :: ·)

/-- The members of a map; the last one of a name stays. -/
def decodeMembers : List (String × Json) → Option (List (String × Any))
  | [] => some []
  | (name, value) :: rest =>
    (decode value).bind fun value => (decodeMembers rest).map fun members =>
      if (members.lookup name).isSome then members else (name, value) :: members

end

mutual

/-- `sonic.Marshal`. -/
def encode : Any → Json
  | .nil => .null
  | .bool value => .bool value
  | .float64 value => .num (writeFloat64 jsonDigits value)
  | .string text => .str text
  | .slice items => .arr (encodeItems items)
  | .map members => .obj (encodeMembers members)

def encodeItems : List Any → List Json
  | [] => []
  | item :: rest => encode item :: encodeItems rest

def encodeMembers : List (String × Any) → List (String × Json)
  | [] => []
  | (name, value) :: rest => (name, encode value) :: encodeMembers rest

end

/-! ## The nonce -/

/-- `%v` of a number: an exponent from 6 on, or below -4, is written, with two digits. -/
def sprintDigits (d : Digits) : List Char :=
  if d.point - 1 < -4 ∨ 6 ≤ d.point - 1 then d.scientific 2 else d.fixed

mutual

/-- `fmt.Sprint`. -/
def sprint : Any → String
  | .nil => "<nil>"
  | .bool value => if value then "true" else "false"
  | .float64 value => writeFloat64 sprintDigits value
  | .string text => text
  | .slice items => "[" ++ " ".intercalate (sprintItems items) ++ "]"
  | .map members =>
    "map[" ++ " ".intercalate ((sprintMembers members).mergeSort
      (fun a b => decide (a.1 ≤ b.1)) |>.map fun member => member.1 ++ ":" ++ member.2) ++ "]"

def sprintItems : List Any → List String
  | [] => []
  | item :: rest => sprint item :: sprintItems rest

def sprintMembers : List (String × Any) → List (String × String)
  | [] => []
  | (name, value) :: rest => (name, sprint value) :: sprintMembers rest

end

/-- A character of a string in a document. -/
def escape (c : Char) : List Char :=
  if c = '"' ∨ c = '\\' then ['\\', c]
  else if c = '\n' then ['\\', 'n']
  else if c = '\r' then ['\\', 'r']
  else if c = '\t' then ['\\', 't']
  else if c.toNat < 32 then
    '\\' :: 'u' :: '0' :: '0' :: [Nat.digitChar (c.toNat / 16), Nat.digitChar (c.toNat % 16)]
  else [c]

/-- A string as it stands in a document. -/
def quote (text : String) : String :=
  String.ofList ('"' :: text.toList.flatMap escape ++ ['"'])

mutual

/-- The text of a document, its members in the order in which they are listed. -/
def jsonText : Json → String
  | .null => "null"
  | .bool value => if value then "true" else "false"
  | .num lexeme => lexeme
  | .str text => quote text
  | .arr items => "[" ++ ",".intercalate (jsonTextItems items) ++ "]"
  | .obj members => "\x7b" ++ ",".intercalate (jsonTextMembers members) ++ "\x7d"

def jsonTextItems : List Json → List String
  | [] => []
  | item :: rest => jsonText item :: jsonTextItems rest

def jsonTextMembers : List (String × Json) → List String
  | [] => []
  | (name, value) :: rest => (quote name ++ ":" ++ jsonText value) :: jsonTextMembers rest

end

/-- The text of a field: a string without its quotes. -/
def fieldText : Json → String
  | .str text => text
  | value => jsonText value

/-! ## What comes back -/

/-- A number as it comes back. -/
def rewritten (q : ℚ) : ℚ := numberValue (writeFloat64 jsonDigits ((toFloat64 q).getD 0))

/-- Under a name there is what was decoded from the member that counts, or nothing. -/
theorem lookup_decodeMembers : ∀ {members : List (String × Json)} {payload : List (String × Any)},
    decodeMembers members = some payload → ∀ name : String,
      payload.lookup name = none ∧ contentMembers members name = none ∨
        ∃ value any, payload.lookup name = some any ∧
          contentMembers members name = some (content value) ∧ decode value = some any
  | [], _, h, name => by
    obtain rfl := Option.some.inj h
    exact .inl ⟨rfl, rfl⟩
  | (key, value) :: rest, payload, h, name => by
    simp only [decodeMembers, Option.bind_eq_some_iff, Option.map_eq_some_iff] at h
    obtain ⟨any, hvalue, others, hrest, rfl⟩ := h
    have ih := lookup_decodeMembers hrest
    simp only [contentMembers]
    by_cases hkey : name = key
    · subst hkey
      rcases ih name with ⟨hnone, hcontent⟩ | ⟨last, any', hsome, hcontent, hlast⟩
      · -- the first member of the name is the last one too
        right
        refine ⟨value, any, ?_, ?_, hvalue⟩
        · simp [hnone]
        · simp [hcontent]
      · right
        refine ⟨last, any', ?_, ?_, hlast⟩
        · simp [hsome]
        · simp [hcontent]
    · have hlookup : (if (others.lookup key).isSome = true then others
          else (key, any) :: others).lookup name = others.lookup name := by
        split
        · rfl
        · simp [List.lookup_cons, beq_eq_false_iff_ne.mpr hkey]
      rw [hlookup, if_neg hkey, Option.or_none]
      exact ih name

mutual

/-- A document that is decoded and encoded says the same but for its numbers. -/
theorem content_encode : ∀ {value : Json} {any : Any}, decode value = some any →
    content (encode any) = (content value).mapNumbers rewritten
  | .null, _, h => by
    obtain rfl := Option.some.inj h
    rfl
  | .bool value, _, h => by
    obtain rfl := Option.some.inj h
    rfl
  | .num lexeme, _, h => by
    obtain ⟨value, hvalue, rfl⟩ := Option.map_eq_some_iff.mp h
    simp [encode, content, Content.mapNumbers, rewritten, hvalue]
  | .str text, _, h => by
    obtain rfl := Option.some.inj h
    rfl
  | .arr items, _, h => by
    obtain ⟨anys, hitems, rfl⟩ := Option.map_eq_some_iff.mp h
    simp only [encode, content, Content.mapNumbers, contentItems_encode hitems]
  | .obj members, _, h => by
    obtain ⟨payload, hmembers, rfl⟩ := Option.map_eq_some_iff.mp h
    simp only [encode, content, Content.mapNumbers, contentMembers_encode hmembers]

/-- Decoding and encoding items rewrites their content and no more. -/
theorem contentItems_encode : ∀ {items : List Json} {anys : List Any},
    decodeItems items = some anys →
      contentItems (encodeItems anys) = Content.mapItems rewritten (contentItems items)
  | [], _, h => by
    obtain rfl := Option.some.inj h
    rfl
  | item :: rest, _, h => by
    simp only [decodeItems, Option.bind_eq_some_iff, Option.map_eq_some_iff] at h
    obtain ⟨any, hitem, anys, hrest, rfl⟩ := h
    simp only [encodeItems, contentItems, Content.mapItems, content_encode hitem,
      contentItems_encode hrest]

/-- So it does with members, and with those that are repeated. -/
theorem contentMembers_encode : ∀ {members : List (String × Json)} {payload : List (String × Any)},
    decodeMembers members = some payload →
      contentMembers (encodeMembers payload) =
        fun name => Content.mapMember rewritten (contentMembers members name)
  | [], _, h => by
    obtain rfl := Option.some.inj h
    rfl
  | (key, value) :: rest, payload, h => by
    simp only [decodeMembers, Option.bind_eq_some_iff, Option.map_eq_some_iff] at h
    obtain ⟨any, hvalue, others, hrest, rfl⟩ := h
    have ih := contentMembers_encode hrest
    funext name
    have hmapped := congrFun ih name
    simp only [contentMembers]
    rcases lookup_decodeMembers hrest key with ⟨hnone, habsent⟩ | ⟨last, any', hsome, hlast, -⟩
    · rw [if_neg (by simp [hnone])]
      simp only [encodeMembers, contentMembers, hmapped]
      by_cases hkey : name = key
      · subst hkey
        simp [habsent, Content.mapMember, content_encode hvalue]
      · simp [hkey]
    · -- an earlier member of the name does not count
      rw [if_pos (by simp [hsome]), hmapped]
      by_cases hkey : name = key
      · subst hkey
        simp [hlast]
      · simp [hkey]

end

end Symm.Kraken
