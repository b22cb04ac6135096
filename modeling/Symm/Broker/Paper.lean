import Mathlib.Logic.Function.Basic
import Symm.Broker.Position

/-!
# The paper transport (`broker/paper.go`)

The paper CLI pushes nothing, so `Paper` polls it: every open order gets a goroutine
that waits until the order is gone from `OpenOrders` and then looks its fill up in
`TradesHistory`. The venue is a ledger of its own behind these two calls, and each
goroutine takes its steps between those of the ledger and of the other goroutines.

- `Model`, `newExecutionFromMap`: the maps an execution is read from;
- `Ledger`: orders and trades as the CLI keeps them;
- `Watch`, `Phase`, `Watcher`: one `pollOpenFill`;
- `Paper`, `Event`, `step`: the watchers over the ledger.

The runs are those of a process that is not shutting down: the context stays alive
and `publish` succeeds. Balance frames are left out.
-/

namespace Symm.Broker

namespace Paper

/-- The members of a `datura.Map[any]` that `NewExecutionFromMap` reads. A missing
member reads as the zero value. -/
structure Model where
  orderID : String := ""
  clOrdID : String := ""
  tradeID : String := ""
  id : String := ""
  pair : String := ""
  side : String := ""
  action : String := ""
  status : String := ""
  orderStatus : String := ""
  execType : String := ""
  price : ℚ := 0
  cost : ℚ := 0
  fee : ℚ := 0
  volume : ℚ := 0

/-- `kraken.ExecutionData` as the paper transport fills it in. -/
structure ExecutionRow extends ExecutionData where
  orderID : String
  execType : String
  orderStatus : String
  cost : Option Decimal
  cumCost : Option Decimal
  feeUsdEquiv : Option Decimal
  deriving DecidableEq

/-- `text`, or `fallback` where it is empty. -/
def orDefault (text fallback : String) : String := if text = "" then fallback else text

/-- The `exec_type` and `order_status` of a map, after the defaults of its `action`. -/
def Model.statuses (model : Model) : String × String :=
  let execType := model.execType
  let orderStatus := orDefault model.orderStatus model.status
  if model.action = "limit_order_placed" then
    (orDefault execType "new", orDefault orderStatus "open")
  else if model.action = "order_cancelled" then
    (orDefault execType "canceled", orDefault orderStatus "canceled")
  else if model.action = "market_order_filled" then
    (orDefault execType "trade", orDefault orderStatus "filled")
  else (execType, orderStatus)

/-- The one row of `NewExecutionFromMap`. -/
def newExecutionFromMap (model : Model) : ExecutionRow where
  orderID := model.orderID
  clientOrderID := model.clOrdID
  execID := orDefault model.tradeID model.id
  execType := model.statuses.1
  symbol := model.pair
  side := model.side.toLower
  lastQty := some model.volume
  lastPrice := some model.price
  cost := some model.cost
  orderStatus := model.statuses.2
  cumQty := some model.volume
  cumCost := some model.cost
  avgPrice := some model.price
  feeUsdEquiv := some model.fee

/-- `paperExecutionStillOpen`. -/
def paperExecutionStillOpen (data : List ExecutionRow) : Bool :=
  data.any fun row =>
    let status := row.orderStatus.toLower
    let execType := row.execType.toLower
    status = "open" || status = "pending" || status = "new" ||
      execType = "new" || execType = "pending_new"

/-! ## The venue -/

/-- `spot.Trade`. A trade moves a positive volume. -/
structure Trade where
  orderID : String
  pair : String
  type : String
  price : ℚ
  cost : ℚ
  fee : ℚ
  volume : ℚ
  volume_pos : 0 < volume
  deriving DecidableEq

/-- `history.Trades`, in the order that one `range` goes through the map. -/
abbrev History := List (String × Trade)

/-- The entries of an order. -/
def History.tradesOf (history : History) (id : String) : History :=
  history.filter fun entry => entry.2.orderID = id

/-- The ledger behind the CLI: the working orders, those that left the open book and
when, and the trades under their ids. -/
structure Ledger where
  opened : List String
  left : List (String × Time)
  trades : History
  /-- A trade id names one trade. -/
  distinct : (trades.map Prod.fst).Nodup

namespace Ledger

def empty : Ledger where
  opened := []
  left := []
  trades := []
  distinct := List.nodup_nil

/-- The ledger has given out the id. -/
def knows (ledger : Ledger) (id : String) : Prop :=
  id ∈ ledger.opened ∨ id ∈ ledger.left.map Prod.fst

instance (ledger : Ledger) (id : String) : Decidable (ledger.knows id) :=
  inferInstanceAs (Decidable (_ ∨ _))

def place (ledger : Ledger) (id : String) : Ledger :=
  { ledger with opened := ledger.opened ++ [id] }

/-- A working order trades, under an id of its own. -/
def trade (ledger : Ledger) (tradeID : String) (trade : Trade) : Ledger :=
  if h : tradeID ∉ ledger.trades.map Prod.fst ∧ trade.orderID ∈ ledger.opened then
    { ledger with
        trades := ledger.trades ++ [(tradeID, trade)]
        distinct := by
          rw [List.map_append, List.nodup_append]
          refine ⟨ledger.distinct, by simp, ?_⟩
          rintro id hid _ hnew rfl
          obtain rfl : id = tradeID := List.mem_singleton.mp hnew
          exact h.1 hid }
  else ledger

/-- A working order leaves the open book: filled, canceled or expired. -/
def leave (ledger : Ledger) (id : String) (now : Time) : Ledger :=
  if id ∈ ledger.opened then
    { ledger with
        opened := ledger.opened.filter (· ≠ id)
        left := ledger.left ++ [(id, now)] }
  else ledger

end Ledger

/-! ## The watchers -/

/-- `paperWatch`. -/
structure Watch where
  orderID : String
  clientOrderID : String
  pair : String
  side : String
  deriving DecidableEq

/-- Where a `pollOpenFill` stands. A watcher that read the history keeps what it
read to its end; one that timed out read nothing. -/
inductive Phase
  /-- for the ticker -/
  | waiting
  /-- for `OpenOrders` -/
  | asking
  /-- for `TradesHistory`: the order was not in the open book -/
  | gone
  /-- before `watching.Delete` -/
  | found (history : History)
  /-- before `publish` -/
  | freed (history : History)
  | ended (history : Option History)
  deriving DecidableEq

structure Watcher where
  watch : Watch
  deadline : Time
  phase : Phase
  deriving DecidableEq

/-- The map of a fill. -/
def Watch.fill (watch : Watch) (tradeID : String) (trade : Trade) : Model where
  orderID := watch.orderID
  clOrdID := watch.clientOrderID
  id := tradeID
  pair := if watch.pair ≠ "" then watch.pair else trade.pair
  side := if watch.side ≠ "" then watch.side else trade.type
  price := trade.price
  cost := trade.cost
  fee := trade.fee
  volume := trade.volume
  status := "filled"
  orderStatus := "filled"
  execType := "trade"

/-- The map of an order that left without a trade. -/
def Watch.cancel (watch : Watch) : Model where
  orderID := watch.orderID
  clOrdID := watch.clientOrderID
  pair := watch.pair
  side := watch.side
  status := "canceled"
  orderStatus := "canceled"
  execType := "canceled"
  action := "order_cancelled"

/-- The trade of the order that the `range` over the map meets first. -/
def History.first (history : History) (id : String) : Option (String × Trade) :=
  history.find? fun entry => entry.2.orderID = id

/-- What `pollOpenFill` publishes once it has the history. -/
def Watch.report (watch : Watch) (history : History) : ExecutionRow :=
  match history.first watch.orderID with
  | some (tradeID, trade) => newExecutionFromMap (watch.fill tradeID trade)
  | none => newExecutionFromMap watch.cancel

end Paper

/-- `Paper` with its goroutines and the venue: `acks` are the executions that
`publishPlace` put on `frames`, `reports` those of `pollOpenFill`. -/
structure Paper where
  ledger : Paper.Ledger
  now : Time
  /-- `watching`. -/
  watching : String → Option Paper.Watch
  watchers : List Paper.Watcher
  acks : List Paper.ExecutionRow
  reports : List Paper.ExecutionRow

namespace Paper

def new : Paper where
  ledger := .empty
  now := 0
  watching := fun _ => none
  watchers := []
  acks := []
  reports := []

/-- The two minutes of a watch. -/
def watchFor : Time := 120 * 10 ^ 9

/-- One row of `watchOpenExecution`. -/
def watchRow (paper : Paper) (row : ExecutionRow) : Paper :=
  if row.orderID = "" then paper
  else
    let watch : Watch := {
      orderID := row.orderID, clientOrderID := row.clientOrderID
      pair := row.symbol, side := row.side }
    match paper.watching row.orderID with
    | some _ => paper
    | none =>
      { paper with
          watching := Function.update paper.watching row.orderID (some watch)
          watchers := paper.watchers ++ [{
            watch, deadline := paper.now + watchFor, phase := .waiting }] }

/-- `watchOpenExecution`. -/
def watchOpenExecution (paper : Paper) (data : List ExecutionRow) : Paper :=
  data.foldl watchRow paper

/-- `publishPlace`. -/
def publishPlace (paper : Paper) (model : Model) : Paper :=
  let execution := newExecutionFromMap model
  let published := { paper with acks := paper.acks ++ [execution] }
  if paperExecutionStillOpen [execution] then published.watchOpenExecution [execution]
  else published

/-- `ResumeOpenOrder`. -/
def resumeOpenOrder (paper : Paper) (orderID clientOrderID pair side : String) : Paper :=
  if orderID = "" then paper
  else paper.watchOpenExecution [{
    orderID, clientOrderID, symbol := pair, side, orderStatus := "open", execType := "new"
    execID := "", lastQty := none, lastPrice := none, cumQty := none, avgPrice := none
    cost := none, cumCost := none, feeUsdEquiv := none }]

/-- The watcher `w` of number `i` goes on to a phase. -/
def setPhase (paper : Paper) (i : ℕ) (w : Watcher) (phase : Phase) : Paper :=
  { paper with watchers := paper.watchers.set i { w with phase } }

/-- `watching.Delete`. -/
def forget (paper : Paper) (id : String) : Paper :=
  { paper with watching := Function.update paper.watching id none }

/-- The ticker fires: past the deadline the watcher gives up. -/
def tick (paper : Paper) (i : ℕ) (w : Watcher) : Paper :=
  match w.phase with
  | .waiting =>
    if w.deadline < paper.now then (paper.forget w.watch.orderID).setPhase i w (.ended none)
    else paper.setPhase i w .asking
  | _ => paper

/-- `OpenOrders` answers. -/
def openOrders (paper : Paper) (i : ℕ) (w : Watcher) : Paper :=
  match w.phase with
  | .asking =>
    if w.watch.orderID ∈ paper.ledger.opened then paper.setPhase i w .waiting
    else paper.setPhase i w .gone
  | _ => paper

/-- `TradesHistory` answers with the trades of the ledger, as a map: `history` is the
order in which the loop will meet them. -/
def tradesHistory (paper : Paper) (i : ℕ) (history : History) (w : Watcher) : Paper :=
  match w.phase with
  | .gone =>
    if history.Perm paper.ledger.trades then paper.setPhase i w (.found history) else paper
  | _ => paper

/-- Either call fails: the loop waits for its next tick. -/
def callFailed (paper : Paper) (i : ℕ) (w : Watcher) : Paper :=
  match w.phase with
  | .asking => paper.setPhase i w .waiting
  | .gone => paper.setPhase i w .waiting
  | _ => paper

def delete (paper : Paper) (i : ℕ) (w : Watcher) : Paper :=
  match w.phase with
  | .found history => (paper.forget w.watch.orderID).setPhase i w (.freed history)
  | _ => paper

def publish (paper : Paper) (i : ℕ) (w : Watcher) : Paper :=
  match w.phase with
  | .freed history =>
    let published := { paper with reports := paper.reports ++ [w.watch.report history] }
    published.setPhase i w (.ended (some history))
  | _ => paper

/-- What can happen next. -/
inductive Event
  /-- the venue takes an order under a fresh id -/
  | place (id : String)
  | trade (tradeID : String) (trade : Trade)
  | leave (id : String)
  | elapse (time : Time)
  | publishPlace (model : Model)
  | resumeOpenOrder (orderID clientOrderID pair side : String)
  | tick (watcher : ℕ)
  | openOrders (watcher : ℕ)
  | tradesHistory (watcher : ℕ) (history : History)
  | callFailed (watcher : ℕ)
  | delete (watcher : ℕ)
  | publish (watcher : ℕ)

/-- The step of one watcher. -/
def onWatcher (paper : Paper) (i : ℕ) (f : Watcher → Paper) : Paper :=
  match paper.watchers[i]? with
  | some w => f w
  | none => paper

/-- The id is new to the venue and to the transport. -/
def fresh (paper : Paper) (id : String) : Prop :=
  ¬ paper.ledger.knows id ∧ ∀ w ∈ paper.watchers, w.watch.orderID ≠ id

instance (paper : Paper) (id : String) : Decidable (paper.fresh id) :=
  inferInstanceAs (Decidable (_ ∧ _))

def step (paper : Paper) : Event → Paper
  | .place id =>
    if paper.fresh id then { paper with ledger := paper.ledger.place id } else paper
  | .trade tradeID trade => { paper with ledger := paper.ledger.trade tradeID trade }
  | .leave id => { paper with ledger := paper.ledger.leave id paper.now }
  | .elapse time => { paper with now := paper.now + time }
  | .publishPlace model => paper.publishPlace model
  | .resumeOpenOrder orderID clientOrderID pair side =>
    paper.resumeOpenOrder orderID clientOrderID pair side
  | .tick i => paper.onWatcher i (paper.tick i)
  | .openOrders i => paper.onWatcher i (paper.openOrders i)
  | .tradesHistory i history => paper.onWatcher i (paper.tradesHistory i history)
  | .callFailed i => paper.onWatcher i (paper.callFailed i)
  | .delete i => paper.onWatcher i (paper.delete i)
  | .publish i => paper.onWatcher i (paper.publish i)

end Paper

end Symm.Broker
