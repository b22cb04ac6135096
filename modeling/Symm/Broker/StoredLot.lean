import Mathlib.Data.List.Induction
import Symm.Broker.TierSpec
import Symm.Lib.Json

/-!
# Lots as the store holds them (`broker/position.go`, `broker/cache.go`)

A stored lot is a JSON object whose members are those of a `Position`.
`Cache.Restore` decodes it and `NewCache` keeps it under its symbol, where a
later object of the symbol replaces an earlier one.

An object stands for the bytes that hold it. What decodes outside of this
repository is given: the types that decode themselves, and the members of the
embedded `runtime.System`.

- `Decoding`: what is given, the members that decode themselves and how names fold;
- `decodeLot`: the members that name a lot, its id, its symbol and its book, read off
  the object, and the others as `Decoding` gives them;
- `held_restoreObjects`: after a restart a symbol has the last lot that was stored for
  it.

The members that name nothing are still looked at, since one that does not decode fails
the whole lot. A later member of the same name writes over an earlier one, as it does in
the decoder.
-/

namespace Symm.Broker

open Symm.Lib

/-- `StoplossState` and the members of `Stoploss`. -/
def stoplossFields : List (String × GoType) :=
  [("State", .uint 8)] ++
  (["InitialPnLPct", "MaxLossPct", "ProfitTargetPct", "PreviousPnLPct", "CurrentPnLPct",
    "PeakPnLPct", "FloorPnLPct"].map fun name => (name, .custom "float64")) ++
  [("PreviousTime", .custom "time.Time"), ("CurrentTime", .custom "time.Time")]

/-- `*decimal.Decimal`. -/
def decimalPointer : GoType := .pointer (.custom "decimal.Decimal")

/-- The members of `ExecutionData`. -/
def executionFields : List (String × GoType) :=
  [("order_id", .string), ("cl_ord_id", .string), ("order_userref", .int), ("exec_id", .string),
    ("exec_type", .string), ("trade_id", .int), ("symbol", .string), ("side", .string),
    ("last_qty", decimalPointer), ("last_price", decimalPointer), ("liquidity_ind", .string),
    ("cost", decimalPointer), ("order_type", .string), ("timestamp", .custom "time.Time"),
    ("order_status", .string), ("cum_qty", decimalPointer), ("cum_cost", decimalPointer),
    ("avg_price", decimalPointer), ("fee_usd_equiv", decimalPointer),
    ("fees", .slice (.struct [("asset", .string), ("qty", .custom "float64")]))]

/-- The members of `Position`. -/
def positionFields : List (String × GoType) :=
  [("stoploss", .pointer (.struct stoplossFields)), ("id", .string), ("book", .string),
    ("entry_path", .string), ("hold_paths", .slice .string), ("exit_path", .string),
    ("exit_trigger", .string), ("outcome_triggers", .slice .string), ("symbol", .string),
    ("opened_at", .custom "time.Time"), ("closed_at", .pointer (.custom "time.Time")),
    ("updated_at", .pointer (.custom "time.Time")), ("policy_epoch", .uint 64),
    ("entry_tick", .uint 64), ("exit_tick", .uint 64),
    ("entry_order", .pointer (.custom "spot.OrderRequest")),
    ("exit_order", .pointer (.custom "spot.OrderRequest")),
    ("fills", .slice (.pointer (.struct executionFields))), ("mark", decimalPointer),
    ("exit_vwap", decimalPointer), ("exit_room", decimalPointer), ("pnl", decimalPointer),
    ("pnl_pct", decimalPointer)]

/-- What is decoded outside: how names fold, what the types that decode themselves
and the embedded `runtime.System` accept, and the members of a lot that name nothing. -/
structure Decoding where
  fold : String → String
  custom : String → Json → Bool
  promoted : String → Json → Bool
  details : JsonObject → Position

/-- The members that name a lot. -/
structure LotNames where
  id : String
  symbol : String
  book : String
  deriving DecidableEq

/-- A string member; `null` leaves what is there. -/
def decodeName (old : String) : Json → Option String
  | .null => some old
  | value => value.text

/-- One member of the object. -/
def decodeMember (dec : Decoding) (names : LotNames) (member : String × Json) :
    Option LotNames :=
  match GoType.fieldNamed dec.fold positionFields member.1 with
  | none => if dec.promoted member.1 member.2 then some names else none
  | some (tag, type) =>
    if tag = "id" then (decodeName names.id member.2).map fun id => { names with id := id }
    else if tag = "symbol" then
      (decodeName names.symbol member.2).map fun symbol => { names with symbol := symbol }
    else if tag = "book" then
      (decodeName names.book member.2).map fun book => { names with book := book }
    else if type.accepts dec.fold dec.custom member.2 then some names
    else none

/-- `sonic.Unmarshal` of a lot. -/
def decodeLot (dec : Decoding) (object : JsonObject) : Option Position :=
  (object.members.foldlM (decodeMember dec) ⟨"", "", ""⟩).map fun names =>
    { dec.details object with id := names.id, symbol := names.symbol, book := names.book }

/-- `Cache.Restore` of stored bytes. -/
def restoreObject (dec : Decoding) (tierKey : String) (object : JsonObject) : Option Position :=
  (decodeLot dec object).bind (Tier.restore tierKey)

/-- `NewCache` over the objects under a tier's closed prefix, after the lots restored
before them. -/
def restoreObjects (dec : Decoding) (tierKey : String) (lots : List Position)
    (objects : List JsonObject) : List Position × LotMap :=
  (objects.filterMap (decodeLot dec)).foldl (Tier.restoreInto tierKey) (lots, ∅)

/-- The lot a cache holds under a symbol. -/
def held (restored : List Position × LotMap) (symbol : String) : Option Position :=
  (restored.2.lookup symbol).bind (restored.1[·]?)

/-- The last object of a symbol, decoded. -/
def lastOf (dec : Decoding) (objects : List JsonObject) (symbol : String) : Option Position :=
  (objects.filterMap (decodeLot dec)).reverse.find? (·.symbol = symbol)

theorem restore_eq_some {tierKey : String} {stored : Position} (h : stored.symbol ≠ "") :
    ∃ lot, Tier.restore tierKey stored = some lot ∧ lot.id = stored.id ∧
      lot.symbol = stored.symbol :=
  ⟨_, if_neg h, rfl, rfl⟩

/-- Of several stored lots of a symbol the last one counts. -/
theorem find?_concat {stored : List Position} {last : Position} (symbol : String) :
    (stored ++ [last]).reverse.find? (·.symbol = symbol) =
      if last.symbol = symbol then some last else stored.reverse.find? (·.symbol = symbol) := by
  rw [List.reverse_append, List.reverse_singleton, List.singleton_append, List.find?_cons]
  by_cases hsymbol : last.symbol = symbol
  · rw [if_pos hsymbol, decide_eq_true hsymbol]
  · rw [if_neg hsymbol, decide_eq_false hsymbol]

/-- One more lot replaces that of its symbol and leaves the others. -/
theorem held_restoreInto {tierKey : String} {acc : List Position × LotMap}
    (hacc : ∀ s id, acc.2.lookup s = some id → id < acc.1.length) (stored : Position)
    {symbol : String} (hsymbol : symbol ≠ "") :
    held (Tier.restoreInto tierKey acc stored) symbol =
      if stored.symbol = symbol then Tier.restore tierKey stored else held acc symbol := by
  unfold held Tier.restoreInto
  by_cases hempty : stored.symbol = ""
  · have hnone : Tier.restore tierKey stored = none := if_pos hempty
    have hne : stored.symbol ≠ symbol := fun h => hsymbol (h.symm.trans hempty)
    rw [hnone, if_neg hne]
  · obtain ⟨lot, hlot, -, hlotSymbol⟩ := @restore_eq_some tierKey stored hempty
    rw [hlot]
    dsimp only
    rw [hlotSymbol]
    by_cases hsame : stored.symbol = symbol
    · rw [if_pos hsame, hsame, AList.lookup_insert, Option.bind_some]
      exact List.getElem?_concat_length
    · rw [if_neg hsame, AList.lookup_insert_ne (Ne.symm hsame)]
      cases hid : acc.2.lookup symbol with
      | none => rfl
      | some id => exact List.getElem?_append_left (hacc symbol id hid)

/-- The cache holds the last lot of each symbol that was stored. -/
theorem held_foldl_restoreInto (tierKey : String) (lots stored : List Position)
    {symbol : String} (hsymbol : symbol ≠ "") :
    held (stored.foldl (Tier.restoreInto tierKey) (lots, ∅)) symbol =
      (stored.reverse.find? (·.symbol = symbol)).bind (Tier.restore tierKey) := by
  induction stored using List.reverseRecOn with
  | nil => rfl
  | append_singleton stored last ih =>
    have hacc : ∀ s id,
        (stored.foldl (Tier.restoreInto tierKey) (lots, ∅)).2.lookup s = some id →
        id < (stored.foldl (Tier.restoreInto tierKey) (lots, ∅)).1.length := by
      intro s id hid
      have hrestored := (Tier.foldl_restoreInto tierKey stored (lots, ∅) le_rfl
        (Tier.restored_empty (fun _ => True) lots.length lots) fun _ _ _ _ => trivial).2
      obtain ⟨-, p, hp, -⟩ := hrestored s id hid
      exact (List.getElem?_eq_some_iff.mp hp).1
    rw [List.foldl_append, List.foldl_cons, List.foldl_nil, held_restoreInto hacc last hsymbol,
      find?_concat, ih]
    split <;> rfl

/-- A lot is held after a restart if it is the last one of its symbol. -/
theorem held_restoreObjects (dec : Decoding) (tierKey : String) (lots : List Position)
    (objects : List JsonObject) {symbol : String} (hsymbol : symbol ≠ "") :
    held (restoreObjects dec tierKey lots objects) symbol =
      (lastOf dec objects symbol).bind (Tier.restore tierKey) :=
  held_foldl_restoreInto tierKey lots (objects.filterMap (decodeLot dec)) hsymbol

end Symm.Broker
