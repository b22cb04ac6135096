import Symm.Kraken.NonceText

/-!
# The body of a private call (`kraken/auth.go`)

A private call is signed over its nonce and its body. `bodyWithNonce` marshals the body,
decodes it into untyped values to look for a nonce, adds one where there is none, and
marshals it again.

- `bodyWithNonce`: the body that is signed, and the nonce;
- `asked`, `SignedAsAsked`: the body that was asked for;
- `signed_body_iff`: when a body is signed as it was asked for.

Keys and the generator itself are not modelled here: its next nonce is an argument.

- `PlainContent`, `Kept`, `NonceKept`: the conditions, on the content of the body and
  its numbers;
- `kept_full`, `replaced_asked`, `replaced_full`: what the document has, in the three
  cases of a nonce: one of its own, none, an empty one.

A body goes through `any` before it is signed, so every number in it goes through a
double, whether or not it has to do with the nonce. The nonce is also put down a second
time, by `fmt.Sprint`, which is what is signed, and a number may be written otherwise
there. Both are conditions on the body alone; the converse finds in the document what
did not come back.
-/

namespace Symm.Kraken

open Symm.Lib

/-! ## The body -/

/-- What `sonic.Marshal` makes of a body. -/
inductive Body
  | nil
  | unmarshalable
  | json (value : Json)

/-- The errors of `bodyWithNonce`, all of kind `UnprocessableContent`. -/
inductive BodyError
  | notJSON
  | notObject
  deriving DecidableEq

def BodyError.message : BodyError → String
  | .notJSON => "[kraken.auth] private body is not JSON"
  | .notObject => "[kraken.auth] private body must be a JSON object"

/-- The fields of a body. -/
def payloadOf : Body → Except BodyError (List (String × Any))
  | .nil => .ok []
  | .unmarshalable => .error .notJSON
  | .json .null => .ok []
  | .json (.obj members) =>
    match decodeMembers members with
    | some payload => .ok payload
    | none => .error .notObject
  | .json _ => .error .notObject

/-- A member of a map set. -/
def setMember (name : String) (value : Any) (members : List (String × Any)) : List (String × Any) :=
  (name, value) :: members.filter (·.1 ≠ name)

/-- `bodyWithNonce`; `next` is what the generator gives if it is asked. -/
def bodyWithNonce (body : Body) (next : String) :
    Except BodyError (List (String × Json) × String) :=
  match payloadOf body with
  | .error err => .error err
  | .ok payload =>
    let nonce := sprint ((payload.lookup "nonce").getD .nil)
    if nonce = "" ∨ nonce = "<nil>" then
      .ok (encodeMembers (setMember "nonce" (.string next) payload), next)
    else .ok (encodeMembers payload, nonce)

/-! ## The body as it is signed -/

/-- Encoding keeps the members under their names. -/
theorem lookup_encodeMembers (name : String) : ∀ payload : List (String × Any),
    (encodeMembers payload).lookup name = (payload.lookup name).map encode
  | [] => rfl
  | (key, value) :: rest => by
    simp only [encodeMembers, List.lookup_cons, lookup_encodeMembers name rest]
    cases name == key <;> rfl

/-- Taking a member out takes out its content alone. -/
theorem contentMembers_filter (name other : String) : ∀ payload : List (String × Any),
    contentMembers (encodeMembers (payload.filter (·.1 ≠ name))) other =
      if other = name then none else contentMembers (encodeMembers payload) other
  | [] => by simp [encodeMembers, contentMembers]
  | (key, value) :: rest => by
    have ih := contentMembers_filter name other rest
    by_cases hkey : key = name
    · rw [List.filter_cons_of_neg (by simpa using hkey), ih]
      subst hkey
      by_cases hother : other = key <;> simp [encodeMembers, contentMembers, hother]
    · rw [List.filter_cons_of_pos (by simpa using hkey)]
      simp only [encodeMembers, contentMembers, ih]
      by_cases hother : other = name
      · subst hother
        simp [Ne.symm hkey]
      · simp [hother]

/-- Setting a member sets its content alone. -/
theorem contentMembers_setMember (name other : String) (value : Any)
    (payload : List (String × Any)) :
    contentMembers (encodeMembers (setMember name value payload)) other =
      if other = name then some (content (encode value))
      else contentMembers (encodeMembers payload) other := by
  simp only [setMember, encodeMembers, contentMembers, contentMembers_filter]
  by_cases hother : other = name <;> simp [hother]

/-- No nonce, or an empty one. -/
def emptyNonce : Option Content → Bool
  | none => true
  | some .null => true
  | some (.str text) => text = ""
  | some _ => false

/-- The fields that are asked for: those of the body, with a nonce of the generator if
there is none. -/
def asked (members : List (String × Json)) (next : String) (name : String) : Option Content :=
  if name = "nonce" ∧ emptyNonce (contentMembers members "nonce") then some (.str next)
  else contentMembers members name

/-- The document has the fields that are asked for, and the nonce that is signed is the text
of its field. -/
def SignedAsAsked (members : List (String × Json)) (next : String) : Prop :=
  ∃ document nonce, bodyWithNonce (.json (.obj members)) next = .ok (document, nonce) ∧
    contentMembers document = asked members next ∧
    ∃ value, document.lookup "nonce" = some value ∧ fieldText value = nonce

/-- A value, other than a string, that `fmt.Sprint` will write as the document has it. -/
def PlainContent : Content → Prop
  | .bool _ => True
  | .num value => ∀ rounded ∈ toFloat64 value, PlainNumber rounded
  | .arr [] => True
  | .arr [item] => PlainContent item
  | _ => False

/-- A nonce that is taken as it is in the document. -/
def NonceKept (next : String) : Option Content → Prop
  | none => True
  | some .null => True
  | some (.str text) => text = "<nil>" → next = "<nil>"
  | some value => PlainContent value

/-- A value is plain if its content is, however it is written. -/
theorem plain_decode : ∀ {value : Json} {any : Any}, decode value = some any →
    (any.Plain ↔ PlainContent (content value))
  | .null, _, h => by
    obtain rfl := Option.some.inj h
    simp [Any.Plain, content, PlainContent]
  | .bool value, _, h => by
    obtain rfl := Option.some.inj h
    simp [Any.Plain, content, PlainContent]
  | .num lexeme, _, h => by
    obtain ⟨value, hvalue, rfl⟩ := Option.map_eq_some_iff.mp h
    simp [Any.Plain, content, PlainContent, hvalue]
  | .str text, _, h => by
    obtain rfl := Option.some.inj h
    simp [Any.Plain, content, PlainContent]
  | .arr [], _, h => by
    obtain rfl := Option.some.inj h
    simp [Any.Plain, content, contentItems, PlainContent]
  -- a slice of one item is printed as the item in brackets
  | .arr [item], _, h => by
    simp only [decode, decodeItems, Option.map_eq_some_iff, Option.bind_eq_some_iff] at h
    obtain ⟨_, ⟨any, hitem, _, hnil, rfl⟩, rfl⟩ := h
    obtain rfl := Option.some.inj hnil
    simpa [Any.Plain, content, contentItems, PlainContent] using plain_decode hitem
  | .arr (item :: other :: rest), _, h => by
    simp only [decode, decodeItems, Option.map_eq_some_iff, Option.bind_eq_some_iff] at h
    obtain ⟨_, ⟨_, _, _, ⟨_, _, _, _, rfl⟩, rfl⟩, rfl⟩ := h
    simp [Any.Plain, content, contentItems, PlainContent]
  | .obj members, _, h => by
    obtain ⟨payload, -, rfl⟩ := Option.map_eq_some_iff.mp h
    simp [Any.Plain, content, PlainContent]

/-- All numbers of a body come back. -/
def Kept (members : List (String × Json)) : Prop :=
  ∀ name, Content.AllMember (fun q => rewritten q = q) (contentMembers members name)

section Decoded

variable {members : List (String × Json)} {payload : List (String × Any)} {next : String}
variable (hpayload : decodeMembers members = some payload)
include hpayload

/-- With a nonce of the generator: as it was asked for where there was none. -/
theorem replaced_asked (hempty : emptyNonce (contentMembers members "nonce")) :
    contentMembers (encodeMembers (setMember "nonce" (.string next) payload)) = asked members next ↔
      Kept members := by
  have hnonce : Content.AllMember (fun q => rewritten q = q) (contentMembers members "nonce") := by
    unfold emptyNonce at hempty
    split at hempty <;> simp_all [Content.AllMember, Content.AllNumbers]
  rw [funext_iff]
  refine forall_congr' fun name => ?_
  rw [contentMembers_setMember, contentMembers_encode hpayload, asked]
  by_cases hname : name = "nonce"
  · subst hname
    simp [hempty, hnonce, encode, content]
  · simp [hname, Content.mapMember_eq_self]

/-- With a nonce of the generator in place of another one. -/
theorem replaced_full (hfull : emptyNonce (contentMembers members "nonce") = false) :
    contentMembers (encodeMembers (setMember "nonce" (.string next) payload)) = asked members next ↔
      contentMembers members "nonce" = some (.str next) ∧ Kept members := by
  rw [funext_iff]
  constructor
  · intro h
    have hnonce := h "nonce"
    rw [contentMembers_setMember, asked, hfull] at hnonce
    simp only [encode, content, if_true, and_false, Bool.false_eq_true, if_false] at hnonce
    refine ⟨hnonce.symm, fun name => ?_⟩
    by_cases hname : name = "nonce"
    · subst hname
      rw [← hnonce]
      trivial
    · have hother := h name
      rw [contentMembers_setMember, contentMembers_encode hpayload, asked, if_neg hname,
        if_neg (by simp [hname])] at hother
      exact Content.mapMember_eq_self _ |>.mp hother
  · rintro ⟨hnonce, hkept⟩ name
    rw [contentMembers_setMember, contentMembers_encode hpayload, asked, hfull]
    by_cases hname : name = "nonce"
    · subst hname
      simp [hnonce, encode, content]
    · simpa [hname] using (Content.mapMember_eq_self _).mpr (hkept name)

/-- With the nonce that it had. -/
theorem kept_full (hfull : emptyNonce (contentMembers members "nonce") = false) :
    contentMembers (encodeMembers payload) = asked members next ↔ Kept members := by
  rw [funext_iff]
  refine forall_congr' fun name => ?_
  rw [contentMembers_encode hpayload, asked, hfull]
  simp [Content.mapMember_eq_self]

/-- With no nonce of its own, a body is signed as asked if the nonce is all that is set. -/
theorem signedAsAsked_replaced (h : sprint ((payload.lookup "nonce").getD .nil) = "" ∨
      sprint ((payload.lookup "nonce").getD .nil) = "<nil>") :
    SignedAsAsked members next ↔
      contentMembers (encodeMembers (setMember "nonce" (.string next) payload)) =
        asked members next := by
  have hbody : bodyWithNonce (.json (.obj members)) next =
      .ok (encodeMembers (setMember "nonce" (.string next) payload), next) := by
    simp only [bodyWithNonce, payloadOf, hpayload, if_pos h]
  constructor
  · rintro ⟨document, nonce, hok, hasked, -⟩
    rw [hbody] at hok
    obtain ⟨rfl, -⟩ := Prod.mk.inj (Except.ok.inj hok)
    exact hasked
  · intro hasked
    refine ⟨_, next, hbody, hasked, .str next, ?_, rfl⟩
    simp [setMember, encodeMembers, encode]

/-- With one of its own, it is signed as asked if that is signed as it is written. -/
theorem signedAsAsked_kept {value : Any} (hvalue : payload.lookup "nonce" = some value)
    (h : sprint value ≠ "" ∧ sprint value ≠ "<nil>") :
    SignedAsAsked members next ↔ contentMembers (encodeMembers payload) = asked members next ∧
      fieldText (encode value) = sprint value := by
  have hbody : bodyWithNonce (.json (.obj members)) next =
      .ok (encodeMembers payload, sprint value) := by
    simp [bodyWithNonce, payloadOf, hpayload, hvalue, h]
  have hfield : (encodeMembers payload).lookup "nonce" = some (encode value) := by
    rw [lookup_encodeMembers, hvalue]
    rfl
  constructor
  · rintro ⟨document, nonce, hok, hasked, field, hlookup, htext⟩
    rw [hbody] at hok
    obtain ⟨rfl, rfl⟩ := Prod.mk.inj (Except.ok.inj hok)
    rw [hfield] at hlookup
    obtain rfl := Option.some.inj hlookup
    exact ⟨hasked, htext⟩
  · rintro ⟨hasked, htext⟩
    exact ⟨_, _, hbody, hasked, _, hfield, htext⟩

/-- A nonce that is no string and not null. -/
theorem signedAsAsked_untyped {value : Json} {any : Any}
    (hsome : payload.lookup "nonce" = some any)
    (hcontent : contentMembers members "nonce" = some (content value))
    (hvalue : decode value = some any) (hfull : emptyNonce (some (content value)) = false)
    (hstr : content value ≠ .str next)
    (htext : fieldText (encode any) = jsonText (encode any)) :
    SignedAsAsked members next ↔ Kept members ∧ PlainContent (content value) := by
  rw [← hcontent] at hfull
  rw [← plain_decode hvalue]
  -- no plain value reads like a missing nonce, so a replaced one is wrong on both sides
  by_cases hreplaced : sprint any = "" ∨ sprint any = "<nil>"
  · rw [signedAsAsked_replaced hpayload (by simpa [hsome] using hreplaced),
      replaced_full hpayload hfull]
    constructor
    · rintro ⟨hnonce, -⟩
      rw [hcontent, Option.some.injEq] at hnonce
      exact absurd hnonce hstr
    · rintro ⟨-, hplain⟩
      obtain ⟨hempty, hnil⟩ := sprint_ne hplain
      exact absurd hreplaced (not_or.mpr ⟨hempty, hnil⟩)
  · rw [signedAsAsked_kept hpayload hsome (not_or.mp hreplaced), kept_full hpayload hfull, htext,
      eq_comm, sprint_eq_iff]

end Decoded

/-- A body that is an object is signed as it was asked for exactly where no number is beyond
the largest, all of them come back, and the nonce, if there is one, is kept as it is. -/
theorem signed_body_iff (members : List (String × Json)) (next : String) :
    SignedAsAsked members next ↔ (decodeMembers members).isSome ∧ Kept members ∧
      NonceKept next (contentMembers members "nonce") := by
  rcases hpayload : decodeMembers members with _ | payload
  · -- a number beyond the largest: nothing is returned
    have herror : bodyWithNonce (.json (.obj members)) next = .error .notObject := by
      simp only [bodyWithNonce, payloadOf, hpayload]
    simp [SignedAsAsked, herror]
  -- what `fmt.Sprint` makes of the nonce decides, and it goes by the value's type
  rcases lookup_decodeMembers hpayload "nonce" with ⟨hnone, habsent⟩ |
    ⟨value, any, hsome, hcontent, hvalue⟩
  · rw [signedAsAsked_replaced hpayload (by simp [hnone, sprint]),
      replaced_asked hpayload (by simp [habsent, emptyNonce])]
    simp [habsent, NonceKept]
  rw [hcontent]
  cases value with
  | null =>
    obtain rfl := Option.some.inj hvalue
    rw [signedAsAsked_replaced hpayload (by simp [hsome, sprint]),
      replaced_asked hpayload (by simp [hcontent, content, emptyNonce])]
    simp [content, NonceKept]
  | str text =>
    obtain rfl := Option.some.inj hvalue
    by_cases hempty : text = ""
    · rw [signedAsAsked_replaced hpayload (by simp [hsome, sprint, hempty]),
        replaced_asked hpayload (by simp [hcontent, content, emptyNonce, hempty])]
      simp [content, NonceKept, hempty]
    have hfull : emptyNonce (contentMembers members "nonce") = false := by
      simp [hcontent, content, emptyNonce, hempty]
    -- a string that reads like a missing nonce is replaced though it was given
    by_cases hnil : text = "<nil>"
    · rw [signedAsAsked_replaced hpayload (by simp [hsome, sprint, hnil]),
        replaced_full hpayload hfull, hcontent]
      simp [content, NonceKept, hnil, eq_comm, and_comm]
    · rw [signedAsAsked_kept hpayload hsome ⟨hempty, hnil⟩, kept_full hpayload hfull]
      simp [content, NonceKept, hnil, encode, fieldText, sprint]
  | bool value =>
    obtain rfl := Option.some.inj hvalue
    rw [signedAsAsked_untyped hpayload hsome hcontent hvalue rfl (by simp [content]) rfl]
    simp [content, NonceKept]
  | num lexeme =>
    obtain ⟨number, -, rfl⟩ := Option.map_eq_some_iff.mp hvalue
    rw [signedAsAsked_untyped hpayload hsome hcontent hvalue rfl (by simp [content]) rfl]
    simp [content, NonceKept]
  | arr items =>
    obtain ⟨anys, -, rfl⟩ := Option.map_eq_some_iff.mp hvalue
    rw [signedAsAsked_untyped hpayload hsome hcontent hvalue rfl (by simp [content]) rfl]
    simp [content, NonceKept]
  | obj inner =>
    obtain ⟨fields, -, rfl⟩ := Option.map_eq_some_iff.mp hvalue
    rw [signedAsAsked_untyped hpayload hsome hcontent hvalue rfl (by simp [content]) rfl]
    simp [content, NonceKept]

/-- The nonce of a clock in milliseconds is signed in another form than it is sent. -/
theorem number_signed_otherwise : ¬ ∀ members next, SignedAsAsked members next := by
  intro h
  obtain ⟨document, nonce, hok, -, value, hlookup, htext⟩ :=
    h [("nonce", .num "1616492376594")] "1616492376595"
  have hvalue : decodeMembers [("nonce", .num "1616492376594")] =
      some [("nonce", .float64 1616492376594)] := by
    have hfloat : toFloat64 (numberValue "1616492376594") = some 1616492376594 := by decide +kernel
    simp [decodeMembers, decode, hfloat]
  have hsprint : sprint (.float64 1616492376594) = "1.616492376594e+12" := by decide +kernel
  have hdigits : writeFloat64 jsonDigits 1616492376594 = "1616492376594" := by decide +kernel
  simp [bodyWithNonce, payloadOf, hvalue, hsprint, encodeMembers, encode, hdigits] at hok
  obtain ⟨rfl, rfl⟩ := hok
  simp at hlookup
  subst hlookup
  exact absurd htext (by decide)

end Symm.Kraken
