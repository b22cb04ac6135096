import Symm.Broker.Tier
import Symm.Lib.Machine
import Mathlib.Logic.Function.Basic

/-!
# The desk (`broker/desk.go`)

The desk fans work across its three tiers. A tier's state is its own, so the
order in which Go ranges over the tier map cannot be observed; only `Pending`
fixes one (virtual, paper, real).

A report goes to every open lot of its symbol in every tier, and so does a mark: the
desk does not look at the order id of a report, which is why a fill of one lot can reach
another (`Broker.Isolation`). What the clocks and the books read is handed in with each
report and each event, since the desk reads them anew for every call.

The events are the calls that the program makes of a desk. `exit` is handed a lot by its
address and the tier to take it out of, as `Desk.Exit` is handed a position and a tier:
that the lot is of that tier is a fact about callers, and no part of the event.
-/

namespace Symm.Broker

open Symm.System Symm.Lib

/-- `Desk`. -/
structure Desk where
  tiers : TierType → Tier

namespace Desk

/-- What the store holds for one tier. -/
structure Stored where
  opened : List Position
  closed : List Position

/-- `NewDesk`. -/
def new (cfg : Cfg) (hasTransport : TierType → Bool) (stored : TierType → Stored) : Desk where
  tiers tt := Tier.new cfg tt (hasTransport tt) (stored tt).opened (stored tt).closed

/-- Replace one tier. -/
def set (desk : Desk) (tt : TierType) (tier : Tier) : Desk :=
  { desk with tiers := Function.update desk.tiers tt tier }

@[simp] theorem set_self (desk : Desk) (tt : TierType) (tier : Tier) :
    (desk.set tt tier).tiers tt = tier := by simp [set]

theorem set_other (desk : Desk) {tt tt' : TierType} (tier : Tier) (h : tt' ≠ tt) :
    (desk.set tt tier).tiers tt' = desk.tiers tt' := by simp [set, h]

/-- The lot at an address of a tier. -/
def lot (desk : Desk) (tt : TierType) (id : LotId) : Option Position := (desk.tiers tt).lot id

/-- `Desk.mark`: feed one symbol's mark to every tier. -/
def mark (env : TierType → Env) (symbol : String) (price : Option Decimal) (desk : Desk) : Desk :=
  if symbol = "" ∨ price.isNone then desk
  else { desk with tiers := fun tt => (desk.tiers tt).update (env tt) symbol price }

/-- `Desk.Apply` for one report: every open lot of its symbol, in every tier. -/
def applyReport (desk : Desk) (report : (TierType → Env) × ExecutionData) : Desk :=
  { desk with tiers := fun tt => (desk.tiers tt).apply (report.1 tt) report.2 }

/-- `Desk.Apply` for a frame. Each report comes with what the clocks and the
books read when it is applied. -/
def apply (desk : Desk) (frame : List ((TierType → Env) × ExecutionData)) : Desk :=
  frame.foldl applyReport desk

/-- `Desk.Enter`: refresh the gate of the tier, then enter. -/
def enter (env : Env) (symbol path : String) (tt : TierType) (pathFound : Bool) (desk : Desk) :
    Desk × Option TierError :=
  let tier := (desk.tiers tt).unlock (some (desk.tiers .paper))
  let (tier, err) := tier.enter env symbol path pathFound
  (desk.set tt tier, err)

/-- `Desk.Exit`. -/
def exit (env : Env) (position : Position) (tt : TierType) (desk : Desk) :
    Desk × Option TierError :=
  let (tier, err) := (desk.tiers tt).exit env position
  (desk.set tt tier, err)

/-- `Desk.Has`. -/
def has (desk : Desk) (symbol : String) : Bool :=
  [TierType.virtual, .paper, .real].any fun tt => (desk.tiers tt).positions.has symbol

/-- `Desk.Positions`: the open lots of a symbol, with their tier. -/
def positionsOf (desk : Desk) (symbol : String) : List (TierType × LotId) :=
  [TierType.virtual, .paper, .real].flatMap fun tt =>
    ((desk.tiers tt).positions.openOf symbol).map (tt, ·)

/-- `Desk.ClosedVirtuals`. -/
def closedVirtuals (desk : Desk) : List LotId := (desk.tiers .virtual).positions.closedAll

/-- `Desk.ClearPending`. -/
def clearPending (symbol : String) (desk : Desk) : Desk :=
  { desk with tiers := fun tt => (desk.tiers tt).clearPending symbol }

/-- What may happen to a desk. An `exit` names a lot by its tier and address,
and the tier it is handed to. -/
inductive Event
  | mark (env : TierType → Env) (symbol : String) (price : Option Decimal)
  | apply (report : (TierType → Env) × ExecutionData)
  | enter (env : Env) (symbol path : String) (tt : TierType) (pathFound : Bool)
  | exit (env : Env) (owner : TierType) (id : LotId) (tt : TierType)
  | clearPending (symbol : String)

/-- One event. -/
def step (desk : Desk) : Event → Desk
  | .mark env symbol price => desk.mark env symbol price
  | .apply report => desk.applyReport report
  | .enter env symbol path tt pathFound => (desk.enter env symbol path tt pathFound).1
  | .exit env owner id tt =>
    match desk.lot owner id with
    | none => desk
    | some position => (desk.exit env position tt).1
  | .clearPending symbol => desk.clearPending symbol

/-! ## A market to run the desk on -/

/-- One level a side, one unit apart. -/
def sampleBook (bid : Decimal) : ManagedBook where
  bids := [⟨some bid, some 300⟩]
  asks := [⟨some (bid + 1), some 300⟩]
  spread := some (Decimal.div 100 bid)
  midpoint := some (bid + 1 / 2)

/-- Every symbol is quoted at `bid`, the wallet holds 1004 USD, and fresh ids
start with `tag`. -/
def sampleEnv (tag : String) (now : Time) (bid : Decimal) : Env where
  now := now
  epoch := 1
  tick := now
  cfg := Cfg.defaults
  price := {
    books := fun _ => some (sampleBook bid)
    blockReason := fun _ => ""
    fee := fun _ => some (2 / 5)
    pair := fun _ => ⟨"USD", some (1 / 100), some 1, none⟩
    balance := some ⟨"USD", fun asset => if asset = "USD" then some 1004 else none⟩
    formatSize := fun _ qty => some qty }
  pace := fun _ => 1
  uuid := fun n => tag ++ toString n
  marshalOk := true
  writeOk := true

/-- The report that fills an entry of two units at `price`. -/
def sampleFill (clOrdId : String) (price : Decimal) : ExecutionData where
  clientOrderID := clOrdId
  execID := "e1"
  symbol := "A/B"
  side := "buy"
  lastQty := some 2
  lastPrice := some price
  cumQty := some 2
  avgPrice := some price

/-- A lot is entered, filled at `price`, and stopped when the bid falls. -/
def sampleRound (tag : String) (price bid : Decimal) : List Tier.Event :=
  [.enter (sampleEnv tag 1 99) "A/B" "p" true,
    .apply (sampleEnv tag 2 99) (sampleFill (tag ++ "1") price),
    .update (sampleEnv tag 3 bid) "A/B" (some bid)]

/-- A desk without a store, every tier with a transport. -/
def sample : Desk := new Cfg.defaults (fun _ => true) fun _ => ⟨[], []⟩

/-- A virtual and a paper lot on one symbol. -/
def sampleEntered : Desk :=
  runFrom step sample [
    .enter (sampleEnv "v" 1 99) "A/B" "p" .virtual true,
    .enter (sampleEnv "p" 2 99) "A/B" "p" .paper true]

end Desk

end Symm.Broker
