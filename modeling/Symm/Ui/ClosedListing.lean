import Symm.Broker.StoredLot

/-!
# Two readers of closed lots (`ui/hub_prefix.go`, `broker/cache.go`)

The hub lists the closed lots of a tier from the same objects its cache is
restored from. `closedEntry.read` looks for the lot under a `position` member,
`Cache.Restore` at the top level of the object.

- `ReadersAgree`: what counts after a restart is listed, and what is listed counts;
- `readers_agree_iff`: they agree on the objects that hold the lot in both places;
- `not_listed_of_tags`: the encoding of a lot is never listed.

The condition of `readers_agree_iff` is `Enveloped`: a lot at the top level of an object
has its id in the envelope, a lot in the envelope is at the top level as well, and the
last one of its symbol has the same id there. The last is about the whole list, since a
later object of a symbol takes the place of an earlier one in the cache while the
listing has both.

How members are read is given (`Attributes`); that a map, and nothing else, is read as
the map it holds is all that is used of it.
-/

namespace Symm.Ui

open Symm.Lib Symm.Broker

/-- `data.AttributeOk` of an object member and `data.Attribute` of a number. -/
structure Attributes where
  object : JsonObject → String → Option (List (String × Json))
  number : JsonObject → String → Nat

/-- The member is read as the map it holds, and nothing but a map is. -/
structure Attributes.Reads (attrs : Attributes) : Prop where
  found : ∀ object name row, Json.get object.members name = some (.obj row) →
    attrs.object object name = some row
  other : ∀ object name row, (∀ row, Json.get object.members name ≠ some (.obj row)) →
    attrs.object object name = some row → row = []

/-- The string a map has under a name; none is empty. -/
def stringOf (row : List (String × Json)) (name : String) : String :=
  ((Json.get row name).bind Json.text).getD ""

/-- `closedEntry`. -/
structure ClosedEntry where
  epoch : Nat
  tick : Nat
  timestamp : Nat
  row : List (String × Json)

/-- `closedEntry.read`. -/
def ClosedEntry.read (attrs : Attributes) (object : JsonObject) : Option ClosedEntry :=
  match attrs.object object "position" with
  | none => none
  | some row =>
    if row.isEmpty then none
    else if stringOf row "id" = "" then none
    else some {
      epoch := attrs.number object "epoch"
      tick := attrs.number object "tick"
      timestamp := attrs.number object "timestamp"
      row := row }

/-- The entries of `writeClosedListing`. -/
def closedListing (attrs : Attributes) (objects : List JsonObject) : List ClosedEntry :=
  objects.filterMap (ClosedEntry.read attrs)

/-- The two readers agree on the objects under a tier's closed prefix. -/
structure ReadersAgree (dec : Decoding) (attrs : Attributes) (tierKey : String)
    (lots : List Position) (objects : List JsonObject) : Prop where
  listed : ∀ object ∈ objects, ∀ lot, restoreObject dec tierKey object = some lot →
    lot.id ≠ "" → ∃ entry, ClosedEntry.read attrs object = some entry ∧
      stringOf entry.row "id" = lot.id
  restored : ∀ object ∈ objects, ∀ entry, ClosedEntry.read attrs object = some entry →
    stringOf entry.row "symbol" ≠ "" →
    (∃ lot, restoreObject dec tierKey object = some lot ∧ lot.id = stringOf entry.row "id" ∧
      lot.symbol = stringOf entry.row "symbol") ∧
    ∃ lot, held (restoreObjects dec tierKey lots objects) (stringOf entry.row "symbol") =
      some lot ∧ lot.id = stringOf entry.row "id"

/-- The map under the `position` member. -/
def envelope (object : JsonObject) : List (String × Json) :=
  ((Json.get object.members "position").bind Json.members).getD []

/-- A lot at the top level has its id in the envelope too; a lot in the envelope is at
the top level too, and the last lot of its symbol has its id. -/
structure Enveloped (dec : Decoding) (objects : List JsonObject) : Prop where
  inner : ∀ object ∈ objects, ∀ lot, decodeLot dec object = some lot → lot.symbol ≠ "" →
    lot.id ≠ "" → stringOf (envelope object) "id" = lot.id
  outer : ∀ object ∈ objects, stringOf (envelope object) "id" ≠ "" →
    stringOf (envelope object) "symbol" ≠ "" →
    (∃ lot, decodeLot dec object = some lot ∧ lot.id = stringOf (envelope object) "id" ∧
      lot.symbol = stringOf (envelope object) "symbol") ∧
    ∃ lot, lastOf dec objects (stringOf (envelope object) "symbol") = some lot ∧
      lot.id = stringOf (envelope object) "id"

/-! ## What each reader finds -/

theorem stringOf_nil (name : String) : stringOf [] name = "" := rfl

/-- An object is listed if its envelope names an id. -/
theorem read_spec {attrs : Attributes} (h : attrs.Reads) (object : JsonObject) :
    (stringOf (envelope object) "id" = "" → ClosedEntry.read attrs object = none) ∧
    (stringOf (envelope object) "id" ≠ "" → ∃ entry,
      ClosedEntry.read attrs object = some entry ∧ entry.row = envelope object) := by
  by_cases hobj : ∃ row, Json.get object.members "position" = some (.obj row)
  · obtain ⟨row, hrow⟩ := hobj
    have henvelope : envelope object = row := by
      unfold envelope
      rw [hrow]
      rfl
    unfold ClosedEntry.read
    rw [h.found object "position" row hrow, henvelope]
    dsimp only
    constructor
    · intro hempty
      rw [if_pos hempty, ite_self]
    · intro hid
      have hne : ¬ row.isEmpty := by
        intro hempty
        rw [List.isEmpty_iff.mp hempty] at hid
        exact hid (stringOf_nil "id")
      rw [if_neg hne, if_neg hid]
      exact ⟨_, rfl, rfl⟩
  · -- without an envelope there is no id
    have hnone : ∀ row, Json.get object.members "position" ≠ some (.obj row) :=
      fun row hrow => hobj ⟨row, hrow⟩
    have henvelope : envelope object = [] := by
      unfold envelope
      cases hget : Json.get object.members "position" with
      | none => rfl
      | some value =>
        cases value with
        | obj row => exact absurd hget (hnone row)
        | _ => rfl
    rw [henvelope]
    refine ⟨fun _ => ?_, fun hid => absurd (stringOf_nil "id") hid⟩
    unfold ClosedEntry.read
    split
    · rfl
    · rename_i row hrow
      rw [h.other object "position" row hnone hrow]
      rfl

/-- What decodes to a lot with a symbol is restored, under the id and symbol that it decodes
to. -/
theorem restoreObject_of_decode {dec : Decoding} {tierKey : String} {object : JsonObject}
    {stored : Position} (hdecode : decodeLot dec object = some stored)
    (hsymbol : stored.symbol ≠ "") : ∃ lot, restoreObject dec tierKey object = some lot ∧
      lot.id = stored.id ∧ lot.symbol = stored.symbol := by
  obtain ⟨lot, hlot, hid, hlotSymbol⟩ := @restore_eq_some tierKey stored hsymbol
  refine ⟨lot, ?_, hid, hlotSymbol⟩
  unfold restoreObject
  rw [hdecode]
  exact hlot

/-- And what is restored decodes to a lot with a symbol. -/
theorem decode_of_restoreObject {dec : Decoding} {tierKey : String} {object : JsonObject}
    {lot : Position} (h : restoreObject dec tierKey object = some lot) :
    ∃ stored, decodeLot dec object = some stored ∧ stored.symbol ≠ "" ∧ stored.id = lot.id ∧
      stored.symbol = lot.symbol := by
  obtain ⟨stored, hdecode, hrestore⟩ := Option.bind_eq_some_iff.mp h
  have hsymbol : stored.symbol ≠ "" := by
    intro hempty
    have hnone : Tier.restore tierKey stored = none := if_pos hempty
    rw [hnone] at hrestore
    cases hrestore
  obtain ⟨lot', hlot', hid, hlotSymbol⟩ := @restore_eq_some tierKey stored hsymbol
  cases hlot'.symm.trans hrestore
  exact ⟨stored, hdecode, hsymbol, hid.symm, hlotSymbol.symm⟩

/-- The lot of a symbol after a restart has the id of the last one stored. -/
theorem held_id_iff (dec : Decoding) (tierKey : String) (lots : List Position)
    (objects : List JsonObject) {symbol : String} (hsymbol : symbol ≠ "") (id : String) :
    (∃ lot, held (restoreObjects dec tierKey lots objects) symbol = some lot ∧ lot.id = id) ↔
      ∃ lot, lastOf dec objects symbol = some lot ∧ lot.id = id := by
  rw [held_restoreObjects dec tierKey lots objects hsymbol]
  cases hlast : lastOf dec objects symbol with
  | none =>
    constructor
    · rintro ⟨lot, hlot, -⟩
      cases hlot
    · rintro ⟨lot, hlot, -⟩
      cases hlot
  | some stored =>
    have hstored : stored.symbol = symbol := by
      have hfind := List.find?_some hlast
      exact of_decide_eq_true hfind
    obtain ⟨lot, hlot, hid, -⟩ := @restore_eq_some tierKey stored (hstored.trans_ne hsymbol)
    rw [Option.bind_some, hlot]
    constructor
    · rintro ⟨found, hfound, rfl⟩
      cases hfound
      exact ⟨stored, rfl, hid.symm⟩
    · rintro ⟨found, hfound, rfl⟩
      cases hfound
      exact ⟨lot, rfl, hid⟩

/-- The readers agree exactly on the objects that hold each lot in both places, the
last one of its symbol under its id. -/
theorem readers_agree_iff (dec : Decoding) {attrs : Attributes} (hattrs : attrs.Reads)
    (tierKey : String) (lots : List Position) (objects : List JsonObject) :
    ReadersAgree dec attrs tierKey lots objects ↔ Enveloped dec objects := by
  constructor
  · intro h
    refine ⟨fun object hobject stored hdecode hsymbol hid => ?_,
      fun object hobject hid hsymbol => ?_⟩
    · -- a lot that is restored is listed, under the id of its envelope
      obtain ⟨lot, hlot, hlotId, -⟩ := @restoreObject_of_decode dec tierKey object stored
        hdecode hsymbol
      obtain ⟨entry, hentry, hentryId⟩ := h.listed object hobject lot hlot (hlotId.trans_ne hid)
      have hread := read_spec hattrs object
      by_cases hempty : stringOf (envelope object) "id" = ""
      · rw [hread.1 hempty] at hentry
        cases hentry
      · obtain ⟨entry', hentry', hrow⟩ := hread.2 hempty
        cases hentry'.symm.trans hentry
        rw [← hrow, hentryId, hlotId]
    · -- an entry that is listed is restored, and holds its symbol
      obtain ⟨entry, hentry, hrow⟩ := (read_spec hattrs object).2 hid
      have hrestored := h.restored object hobject entry hentry (by rwa [hrow])
      rw [hrow] at hrestored
      obtain ⟨⟨lot, hlot, hlotId, hlotSymbol⟩, hheld⟩ := hrestored
      obtain ⟨stored, hdecode, -, hstoredId, hstoredSymbol⟩ := decode_of_restoreObject hlot
      exact ⟨⟨stored, hdecode, hstoredId.trans hlotId, hstoredSymbol.trans hlotSymbol⟩,
        (held_id_iff dec tierKey lots objects hsymbol _).mp hheld⟩
  · intro h
    refine ⟨fun object hobject lot hlot hid => ?_,
      fun object hobject entry hentry hsymbol => ?_⟩
    · obtain ⟨stored, hdecode, hsymbol, hstoredId, -⟩ := decode_of_restoreObject hlot
      have hinner := h.inner object hobject stored hdecode hsymbol (hstoredId.trans_ne hid)
      obtain ⟨entry, hentry, hrow⟩ := (read_spec hattrs object).2
        (hinner.trans_ne (hstoredId.trans_ne hid))
      exact ⟨entry, hentry, by rw [hrow, hinner, hstoredId]⟩
    · have hread := read_spec hattrs object
      have hid : stringOf (envelope object) "id" ≠ "" := by
        intro hempty
        rw [hread.1 hempty] at hentry
        cases hentry
      obtain ⟨entry', hentry', hrow⟩ := hread.2 hid
      cases hentry'.symm.trans hentry
      rw [hrow] at hsymbol ⊢
      obtain ⟨⟨stored, hdecode, hstoredId, hstoredSymbol⟩, hlast⟩ := h.outer object hobject hid
        hsymbol
      obtain ⟨lot, hlot, hlotId, hlotSymbol⟩ := @restoreObject_of_decode dec tierKey object stored
        hdecode (hstoredSymbol.trans_ne hsymbol)
      exact ⟨⟨lot, hlot, hlotId.trans hstoredId, hlotSymbol.trans hstoredSymbol⟩,
        (held_id_iff dec tierKey lots objects hsymbol _).mpr hlast⟩

/-- An object with no members but those of a lot, as the encoding of a lot is, is
never listed. -/
theorem not_listed_of_tags {attrs : Attributes} (hattrs : attrs.Reads) {object : JsonObject}
    (htags : ∀ member ∈ object.members, member.1 ∈ positionFields.map Prod.fst) :
    ClosedEntry.read attrs object = none := by
  have hnone : Json.get object.members "position" = none := by
    unfold Json.get
    rw [List.lookup_eq_none_iff]
    intro member hmember
    rw [bne_iff_ne]
    intro heq
    have htag := htags member (List.mem_reverse.mp hmember)
    rw [← heq] at htag
    exact absurd htag (by decide)
  refine (read_spec hattrs object).1 ?_
  unfold envelope
  rw [hnone]
  rfl

/-! ## Three stored objects -/

/-- A decoder that accepts what decodes itself, with nothing embedded. -/
def sampleDecoding : Decoding where
  fold := String.toLower
  custom := fun _ _ => true
  promoted := fun _ _ => true
  details := fun _ =>
    { Position.new "" "" "" "" with hasPrice := false, hasOnSettled := false }

/-- Members read as they are. -/
def sampleAttributes : Attributes where
  object := fun object name => (Json.get object.members name).bind Json.members
  number := fun _ _ => 0

theorem reads_sample : sampleAttributes.Reads where
  found _ _ _ h := by
    unfold sampleAttributes
    dsimp only
    rw [h]
    rfl
  other object name row hnone h := by
    unfold sampleAttributes at h
    dsimp only at h
    cases hget : Json.get object.members name with
    | none =>
      rw [hget] at h
      cases h
    | some value =>
      cases value with
      | obj row => exact absurd hget (hnone row)
      | _ =>
        rw [hget] at h
        cases h

/-- What names a lot. -/
def sampleNames : List (String × Json) := [("id", .str "lot"), ("symbol", .str "A/B")]

/-- The lot at the top level, in the envelope, and in both. -/
def sampleBare : JsonObject := ⟨sampleNames, by decide⟩

def sampleWrapped : JsonObject := ⟨[("position", .obj sampleNames)], by decide⟩

def sampleBoth : JsonObject := ⟨("position", .obj sampleNames) :: sampleNames, by decide⟩

/-- The lot they decode to. -/
def sampleLot : Position :=
  { sampleDecoding.details sampleBoth with id := "lot", symbol := "A/B", book := "" }

theorem readers_agree_sample :
    ReadersAgree sampleDecoding sampleAttributes "paper" [] [sampleBoth] := by
  have hdecode : decodeLot sampleDecoding sampleBoth = some sampleLot := by decide +kernel
  have hlast : lastOf sampleDecoding [sampleBoth] "A/B" = some sampleLot := by decide +kernel
  refine (readers_agree_iff sampleDecoding reads_sample "paper" [] [sampleBoth]).mpr
    ⟨fun object hobject lot hlot _ _ => ?_, fun object hobject _ _ => ?_⟩
  · rw [List.mem_singleton.mp hobject, hdecode] at hlot
    cases hlot
    rw [List.mem_singleton.mp hobject]
    rfl
  · rw [List.mem_singleton.mp hobject]
    exact ⟨⟨sampleLot, hdecode, rfl, rfl⟩, sampleLot, hlast, rfl⟩

/-- A bare lot counts and is not listed, and a wrapped one is listed and does not count. -/
theorem sampleBare_disagrees :
    ¬ ReadersAgree sampleDecoding sampleAttributes "paper" [] [sampleBare] ∧
      ¬ ReadersAgree sampleDecoding sampleAttributes "paper" [] [sampleWrapped] := by
  have hbare : restoreObject sampleDecoding "paper" sampleBare =
      some { sampleLot with book := "paper" } := by decide +kernel
  have hwrapped : restoreObject sampleDecoding "paper" sampleWrapped = none := by decide +kernel
  constructor
  · intro h
    obtain ⟨entry, hentry, -⟩ := h.listed sampleBare List.mem_cons_self _ hbare (by decide)
    cases hentry
  · intro h
    obtain ⟨⟨lot, hlot, -⟩, -⟩ := h.restored sampleWrapped List.mem_cons_self
      ⟨0, 0, 0, sampleNames⟩ rfl (by decide)
    rw [hwrapped] at hlot
    cases hlot

end Symm.Ui
