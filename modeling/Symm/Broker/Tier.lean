import Symm.Broker.Cache
import Symm.Lib.Doubles

/-!
# One execution tier (`broker/tier.go`)

A tier owns an arena of lots. The caches, the pending map and the settle
callback refer to lots by address, so what is written through one of them is
seen through the others, as with the shared `*Position` of the source.
Addresses are never reused.

`sent` is the log of messages the transport accepted. The callback given to
`NewPosition` is `Tier.settle`.

The two statistics are numbers of 64 bits. `Recalculate` adds the returns up in
the order in which Go ranges over the closed map, so what it gets for `Edge`
depends on that order.

- `enter`, `exit`, `send`: orders, with what a failed write takes back;
- `update`, `apply`: a mark, and a report of the exchange, for the lots of a symbol;
- `settle`, `recalculate`: what the tier does when a lot closes;
- `restore`, `new`: a tier over the lots that the store has;
- `Event`, `step`: the calls of a run.
-/

namespace Symm.Broker

open Symm.System Symm.Lib

/-- `TierType`. -/
inductive TierType
  | virtual | paper | real
  deriving DecidableEq, Repr

/-- `TierType.String`. -/
def TierType.string : TierType → String
  | .virtual => "virtual"
  | .paper => "paper"
  | .real => "real"

/-- The `params` of an `add_order` message. -/
structure AddOrder where
  symbol : String
  side : String
  orderType : String
  orderQty : Option Decimal
  clOrdId : String
  deriving DecidableEq

/-- `Tier`. `hasTransport` says that the transport is not nil. -/
structure Tier where
  tierType : TierType
  winRate : Floating
  edge : Floating
  hasTransport : Bool
  sent : List AddOrder
  balance : Balance
  lots : List Position
  positions : Cache
  pending : LotMap
  unlocked : Bool

/-- The side of a Send call. -/
inductive SendAction
  | enter | exit
  deriving DecidableEq

/-- The order of a lot that a Send call hands over. -/
def SendAction.order : SendAction → Position → Option OrderRequest
  | .enter, position => position.entryOrder
  | .exit, position => position.exitOrder

/-- The message `Send` writes for a lot and one of its orders. -/
def AddOrder.of (position : Position) (order : OrderRequest) : AddOrder where
  symbol := position.symbol
  side := order.side
  orderType := order.orderType
  orderQty := order.volume
  clOrdId := order.clOrdId

namespace Tier

/-- The lot at an address. -/
def lot (tier : Tier) (id : LotId) : Option Position := tier.lots[id]?

/-- Write a lot back to its address. -/
def setLot (tier : Tier) (id : LotId) (position : Position) : Tier :=
  { tier with lots := tier.lots.set id position }

/-- `Tier.ok`. -/
def ok (tier : Tier) : Bool :=
  Floating.lt (.finite (1 / 2)) tier.winRate ∧ Floating.lt (.finite 0) tier.edge

/-- The value of `Tier.Unlocked`: virtual and paper always; real needs paper
ok, and no history of its own (both statistics zero) or ok itself. -/
def gate (tier : Tier) (paper : Option Tier) : Bool :=
  if tier.tierType ≠ .real then true
  else
    let virgin := tier.winRate = .finite 0 ∧ tier.edge = .finite 0
    paper.any ok && (virgin || tier.ok)

/-- `Tier.Unlocked`. -/
def unlock (tier : Tier) (paper : Option Tier) : Tier :=
  { tier with unlocked := tier.gate paper }

/-- The returns in percent that `Recalculate` counts, lot by lot in a given order:
those of lots that are closed and have one. -/
def closedReturnsOf (tier : Tier) (ids : List LotId) : List ℚ :=
  (ids.filterMap tier.lot).filterMap fun position =>
    if position.closedAt.isSome then position.pnlPct else none

/-- The returns of the closed cache. -/
def closedReturns (tier : Tier) : List ℚ := tier.closedReturnsOf tier.positions.closedAll

/-- `float64(wins) / float64(count)`, where a return wins whose `Float64` is
positive; zero if there is none. -/
def winRateOf (returns : List ℚ) : Floating :=
  if returns = [] then .finite 0
  else
    let wins := returns.countP fun pnlPct => Floating.lt (.finite 0) (.double pnlPct)
    Floating.div (.ofInt wins) (.ofInt returns.length)

/-- `totalReturn / float64(count)`, with the returns added up one after the
other; zero if there is none. -/
def edgeOf (returns : List ℚ) : Floating :=
  if returns = [] then .finite 0 else Floating.average (returns.map .double)

/-- `Tier.Recalculate`, which ranges over the closed lots in a given order. -/
def recalculate (order : MapOrder) (tier : Tier) : Tier :=
  let returns := tier.closedReturnsOf (order.visit tier.positions.closedAll)
  if returns = [] then { tier with winRate := .finite 0, edge := .finite 0 }
  else
    let tier := { tier with winRate := winRateOf returns, edge := edgeOf returns }
    if tier.tierType = .real ∧ ¬ tier.ok then { tier with unlocked := false } else tier

/-- The settle callback of a lot entered by this tier. -/
def settle (order : MapOrder) (symbol : String) (id : LotId) (tier : Tier) : Tier :=
  let tier := { tier with positions := tier.positions.remove symbol }
  let tier := tier.recalculate order
  { tier with pending := tier.pending.insert symbol id }

/-- Store what a call on the lot at `id` returned and run its callback. -/
def commit (order : MapOrder) (id : LotId) (result : Position × Bool) (tier : Tier) : Tier :=
  let tier := tier.setLot id result.1
  if result.2 then tier.settle order result.1.symbol id else tier

/-- Run a call on the lot at `id`; an address without a lot is a nil position. -/
def touch (order : MapOrder) (call : LotId → Position → Position × Bool) (tier : Tier)
    (id : LotId) : Tier :=
  match tier.lot id with
  | none => tier
  | some position => tier.commit order id (call id position)

/-- `Position.Update` of each lot, at the pace its own stop measures. -/
def updateCall (env : Env) (mark : Option Decimal) (id : LotId) (position : Position) :
    Position × Bool :=
  position.update env (env.pace id) mark

/-- `Position.Apply` of each lot. -/
def applyCall (env : Env) (execution : ExecutionData) (id : LotId) (position : Position) :
    Position × Bool :=
  position.apply env (env.pace id) execution

/-- `Tier.Update`: the open and the closed lot of the symbol, listed before the
first of them is updated. -/
def update (env : Env) (symbol : String) (mark : Option Decimal) (tier : Tier) : Tier :=
  (tier.positions.all symbol).foldl (touch env.order (updateCall env mark)) tier

/-- What `Desk.Apply` does in this tier for one report. -/
def apply (env : Env) (execution : ExecutionData) (tier : Tier) : Tier :=
  (tier.positions.openOf execution.symbol).foldl (touch env.order (applyCall env execution)) tier

/-- `Tier.ClearPending`. -/
def clearPending (symbol : String) (tier : Tier) : Tier :=
  if symbol = "" then tier else { tier with pending := tier.pending.erase symbol }

/-- `Tier.Send`: hand the lot's order to the transport. A failed marshal or
write drops the symbol from both caches. -/
def send (env : Env) (position : Position) (action : SendAction) (tier : Tier) :
    Tier × Option TierError :=
  match tier.hasTransport, action.order position with
  | true, some order =>
    let dropped := { tier with positions := tier.positions.drop position.symbol }
    if ¬ env.marshalOk then (dropped, some .marshalFailed)
    else if ¬ env.writeOk then (dropped, some .writeFailed)
    else ({ tier with sent := tier.sent ++ [AddOrder.of position order] }, none)
  | _, _ => (tier, none)

/-- The physical gate of `Tier.Enter`; virtual lots bypass it on request. -/
def physicalGate (env : Env) (symbol : String) (tier : Tier) : Except TierError Unit :=
  if tier.tierType = .virtual ∧ env.cfg.learning.resonanceBypass then .ok ()
  else match checkEntryPhysical (some env.price) env.cfg.risk symbol with
    | .error fault => .error (.panicked fault)
    | .ok (some reason) => .error (.denied (.physical reason))
    | .ok none => .ok ()

/-- The size `Tier.Enter` gives a lot on a free symbol. The wallet it passes is
nil, so `Allocate` uses the desk's. -/
def sizeFree (env : Env) (symbol : String) (tier : Tier) : Except TierError Decimal :=
  if tier.positions.has symbol then .error .alreadyExists
  else match env.price.allocate env.cfg.risk symbol none with
    | .error fault => .error (.panicked fault)
    | .ok (.error why) => .error (.denied (.size why))
    | .ok (.ok qty) =>
      if qty ≤ 0 then .error (.denied (.cannotSize symbol)) else .ok qty

/-- The checks of `Tier.Enter` up to the size of the lot. -/
def entryQty (env : Env) (symbol : String) (tier : Tier) : Except TierError Decimal :=
  if ¬ tier.unlocked then .error .notUnlocked
  else (tier.physicalGate env symbol).bind fun _ => tier.sizeFree env symbol

/-- Allocate a lot and add it to the open cache. -/
def addLot (symbol : String) (position : Position) (tier : Tier) : Tier :=
  { tier with
    lots := tier.lots ++ [position]
    positions := tier.positions.add symbol tier.lots.length }

/-- `Tier.Enter`. -/
def enter (env : Env) (symbol path : String) (_pathFound : Bool) (tier : Tier) :
    Tier × Option TierError :=
  match tier.entryQty env symbol with
  | .error err => (tier, some err)
  | .ok qty =>
    let position := Position.new symbol tier.tierType.string path (env.uuid 0)
    match position.enter env path (some qty) none with
    | .error err => (tier, some err)
    | .ok position => (tier.addLot symbol position).send env position .enter

/-- `Tier.Exit`. -/
def exit (env : Env) (position : Position) (tier : Tier) : Tier × Option TierError :=
  let tier := { tier with positions := tier.positions.remove position.symbol }
  tier.send env position .exit

/-- The lot that `Cache.Restore` decodes: no price and no callback, and the
tier's name when the stored book is empty. -/
def restore (tierKey : String) (stored : Position) : Option Position :=
  if stored.symbol = "" then none
  else some { stored with
    hasPrice := false
    hasOnSettled := false
    book := if stored.book = "" then tierKey else stored.book }

/-- One restored lot, under its symbol; a later one replaces an earlier one. -/
def restoreInto (tierKey : String) (acc : List Position × LotMap) (stored : Position) :
    List Position × LotMap :=
  match restore tierKey stored with
  | none => acc
  | some position => (acc.1 ++ [position], acc.2.insert position.symbol acc.1.length)

/-- `NewTier` over the lots `NewCache` streams from the store under
`<tier>/open` and `<tier>/closed`. Statistics start at zero. A real tier
without a transport gets no bankroll. -/
def new (cfg : Cfg) (tierType : TierType) (hasTransport : Bool)
    (storedOpen storedClosed : List Position) : Tier :=
  let key := tierType.string
  let opened := storedOpen.foldl (restoreInto key) ([], ∅)
  let closed := storedClosed.foldl (restoreInto key) (opened.1, ∅)
  let seeded := tierType ≠ .real ∨ hasTransport = true
  let tier : Tier := {
    tierType := tierType, winRate := .finite 0, edge := .finite 0
    hasTransport := hasTransport, sent := []
    balance := {
      quote := cfg.market.quoteCurrency
      cash := fun asset =>
        if seeded ∧ asset = cfg.market.quoteCurrency then some cfg.market.balance else none }
    lots := closed.1
    positions := ⟨opened.2, closed.2⟩
    pending := ∅, unlocked := false }
  tier.unlock none

/-- What may happen to a tier. An `exit` names the lot handed to it by its
address. -/
inductive Event
  | enter (env : Env) (symbol path : String) (pathFound : Bool)
  | update (env : Env) (symbol : String) (mark : Option Decimal)
  | apply (env : Env) (execution : ExecutionData)
  | exit (env : Env) (id : LotId)
  | unlock (paper : Option Tier)
  | clearPending (symbol : String)

/-- One event. -/
def step (tier : Tier) : Event → Tier
  | .enter env symbol path pathFound => (tier.enter env symbol path pathFound).1
  | .update env symbol mark => tier.update env symbol mark
  | .apply env execution => tier.apply env execution
  | .exit env id =>
    match tier.lot id with
    | none => tier
    | some position => (tier.exit env position).1
  | .unlock paper => tier.unlock paper
  | .clearPending symbol => tier.clearPending symbol

end Tier

end Symm.Broker
