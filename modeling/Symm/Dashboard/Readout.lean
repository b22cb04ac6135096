import Symm.Lib.Js

/-!
# Reading a lot on the dashboard (`components/book-readout.ts`)

The dashboard gets the lots of the desk as rows of JSON, in which every member is of
unknown type. `positionReadout` is what all its views know of a row: the totals of
its fills, each execution counted once, and whether the lot is closed.

- `Row`: a row; the desk publishes its id and symbol as strings;
- `executionTotals`: the fold over the fills of one side;
- `positionReadout`, `settledOutcome`: what is read off a row.

Members are looked at one by one and each has its own reading: a number, the text of a
date, a string, or nothing where the member is missing or of another type.
`executionTotals` runs over the fills of a side and passes over those of an execution it
has seen, by `exec_id` or `trade_id`; a fill with neither is always counted. A lot is
closed if the desk has dated its close or if its fills sold all that they bought.

The modules on the views of the desk start from `positionReadout` and look at no member
of a row themselves.
-/

namespace Symm.Dashboard

open Symm.Lib

/-- A row of the desk. A missing id is empty, and so are missing fills. -/
structure Row where
  id : String
  symbol : String
  fills : List Record
  get : Record

/-- `decimal`. -/
def decimal : Js → Option ℚ
  | .num value => some value
  | .str text => scanDecimal (trimSpace text.toList)
  | _ => none

/-- `dateText`. -/
def dateText (host : Host) : Js → Option String
  | .str text => if text = "" then none else host.toISOString text
  | _ => none

/-- `returnFraction`. -/
def returnFraction (row : Row) : Option ℚ := (decimal (row.get "pnl_pct")).map (· / 100)

/-- `outcomeTriggers`. -/
def outcomeTriggers : Js → Option (List String)
  | .arr items =>
    let list := items.filterMap Js.string?
    if list ≠ [] then some list else none
  | _ => none

/-- `SettledOutcome`. -/
structure SettledOutcome where
  pnl : Option ℚ
  pnlPct : Option ℚ
  holdNs : Option ℚ
  triggers : Option (List String)

/-- The time between two dates, in nanoseconds. -/
def holdNs (host : Host) (openedAt closedAt : Option String) : Option ℚ :=
  match closedAt, openedAt with
  | some closedAt, some openedAt => some ((host.parse closedAt - host.parse openedAt) * 1000000)
  | _, _ => none

/-- `settledOutcome`. -/
def settledOutcome (host : Host) (row : Row) : Option SettledOutcome :=
  let pnlPct := decimal (row.get "pnl_pct")
  let frac := returnFraction row
  if frac = none ∧ pnlPct = none then none
  else some {
    pnl := frac
    pnlPct := pnlPct <|> frac.map (· * 100)
    holdNs := holdNs host (dateText host (row.get "opened_at"))
      (dateText host (row.get "closed_at"))
    triggers := outcomeTriggers (row.get "outcome_triggers") }

/-! ## Totals -/

/-- The variables of the loop of `executionTotals`. -/
structure Totals where
  qty : ℚ
  cost : ℚ
  fee : ℚ
  priceQty : ℚ
  priceNotional : ℚ
  sawFill : Bool
  costKnown : Bool
  feeKnown : Bool
  firstAt : Option String
  lastAt : Option String
  seen : List String

def Totals.new : Totals := ⟨0, 0, 0, 0, 0, false, true, true, none, none, []⟩

/-- The side of a fill. -/
def onSide (side : String) (fill : Record) : Bool :=
  match fill "side" with
  | .str text => text.toLower = side
  | _ => false

/-- What an execution is known by. -/
def identity (host : Host) (fill : Record) : Option String :=
  let identity := (fill "exec_id").orElse (fill "trade_id")
  if identity.isNullish then none else some (identity.text host)

/-- The quantity of a fill, where it has one. -/
def fillQty (fill : Record) : Option ℚ :=
  (decimal (fill "last_qty") <|> decimal (fill "cum_qty")).filter (0 < ·)

/-- A fill of the side that was not seen before. -/
def Totals.count (host : Host) (totals : Totals) (fill : Record) : Totals :=
  match fillQty fill with
  | none => totals
  | some qty =>
    let cost := decimal (fill "cost") <|> decimal (fill "cum_cost")
    let fee := decimal (fill "fee_usd_equiv")
    let price := decimal (fill "avg_price") <|> decimal (fill "last_price")
    let at' := dateText host (fill "timestamp")
    { totals with
      qty := totals.qty + qty
      sawFill := true
      cost := totals.cost + cost.getD 0
      costKnown := totals.costKnown && cost.isSome
      fee := totals.fee + fee.getD 0
      feeKnown := totals.feeKnown && fee.isSome
      priceQty := totals.priceQty + if price.isSome then qty else 0
      priceNotional := totals.priceNotional + (price.map (· * qty)).getD 0
      firstAt := totals.firstAt <|> at'
      lastAt := at' <|> totals.lastAt }

/-- The body of the loop of `executionTotals`. -/
def Totals.add (host : Host) (side : String) (totals : Totals) (fill : Record) : Totals :=
  if ¬ onSide side fill then totals
  else
    match identity host fill with
    | none => totals.count host fill
    | some key =>
      if key ∈ totals.seen then totals
      else { totals with seen := key :: totals.seen }.count host fill

/-- `ExecutionTotals`. -/
structure ExecutionTotals where
  qty : Option ℚ
  cost : Option ℚ
  fee : Option ℚ
  vwap : Option ℚ
  firstAt : Option String
  lastAt : Option String

/-- `executionTotals`. -/
def executionTotals (host : Host) (row : Row) (side : String) : ExecutionTotals :=
  let totals := row.fills.foldl (Totals.add host side) .new
  { qty := if totals.sawFill then some totals.qty else none
    cost := if totals.sawFill ∧ totals.costKnown then some totals.cost else none
    fee := if totals.sawFill ∧ totals.feeKnown then some totals.fee else none
    vwap := if totals.costKnown ∧ 0 < totals.qty then some (totals.cost / totals.qty)
      else if 0 < totals.priceQty then some (totals.priceNotional / totals.priceQty)
      else none
    firstAt := totals.firstAt
    lastAt := totals.lastAt }

/-- `orderVolume`. -/
def orderVolume : Js → Option ℚ
  | .obj members => decimal (members "volume")
  | _ => none

/-! ## The readout -/

/-- `PositionReadout`. -/
structure PositionReadout where
  qty : Option ℚ
  entryQty : Option ℚ
  entryCost : Option ℚ
  exitQty : Option ℚ
  entryPrice : Option ℚ
  mark : Option ℚ
  entryFee : Option ℚ
  exitFee : Option ℚ
  fees : Option ℚ
  exitVwap : Option ℚ
  exitRoom : Option ℚ
  returnPct : Option ℚ
  returnPctDisplay : Option ℚ
  openedAt : Option String
  closedAt : Option String
  holdNs : Option ℚ
  closed : Bool
  exitPending : Bool

/-- The lot is fully sold by its fills. -/
def fullySold (buys sells : ExecutionTotals) : Bool :=
  match buys.qty, sells.qty with
  | some bought, some sold => bought ≤ sold
  | _, _ => false

/-- `positionReadout`. -/
def positionReadout (host : Host) (row : Row) : PositionReadout :=
  let buys := executionTotals host row "buy"
  let sells := executionTotals host row "sell"
  let orderedQty := orderVolume (row.get "entry_order")
  let openedAt := dateText host (row.get "opened_at") <|> buys.firstAt
  let closedAt := dateText host (row.get "closed_at")
  let closed := closedAt.isSome || fullySold buys sells
  { qty := buys.qty <|> orderedQty
    entryQty := buys.qty <|> orderedQty
    entryCost := buys.cost
    exitQty := sells.qty
    entryPrice := buys.vwap
    mark := decimal (row.get "mark")
    entryFee := buys.fee
    exitFee := sells.fee
    fees := if buys.fee.isSome ∨ sells.fee.isSome then some (buys.fee.getD 0 + sells.fee.getD 0)
      else none
    exitVwap := decimal (row.get "exit_vwap") <|> sells.vwap
    exitRoom := decimal (row.get "exit_room")
    returnPct := returnFraction row
    returnPctDisplay := decimal (row.get "pnl_pct")
    openedAt := openedAt
    closedAt := closedAt <|> if fullySold buys sells then sells.lastAt else none
    holdNs := holdNs host openedAt closedAt
    closed := closed
    exitPending := !(row.get "exit_order").isNullish && !closed }

end Symm.Dashboard
