import Symm.System
import Symm.Broker.Decimal

/-!
# Book questions answered with fills (`broker/price.go`, `broker/entry_guard.go`)

`Price` is what a pricing call reads at one moment: the book the guarded
reader would be handed, the fee schedule, the instrument registry and the
desk's wallet. It is an argument of every step, so the theorems above it hold
for arbitrary books and marks.

A method called through a nil `*decimal.Decimal` panics in Go, and so does a
division by zero. The calls that can reach one (an unknown fee in `Allocate` and
in `Friction`, the two divisors of `Allocate` that nothing checks) return in
`Except Fault`. Reasons are kept as data rather than as rendered text: each
refusal names the branch and carries the values its message prints.

- `walk`, `consume`: what a quantity, or an amount of cash, takes of a side;
- `Price.trim`: cutting a fill until its cost with the fee fits;
- `Price.sizeBuy`, `Price.sizeOn`, `Price.allocate`: how large an entry is;
- `Price.entryCost`, `Price.roundTrip`, `Price.pnlPct`: what a lot costs and returns;
- `checkEntryPhysical`, `Price.friction`: the questions asked before an entry.
-/

namespace Symm.Broker

open Symm.System

/-- A Go runtime panic. -/
inductive Fault
  | nilDereference
  | divisionByZero
  deriving DecidableEq, Repr

/-- The two sides of the market (`Direction`). -/
inductive Direction
  | buy | sell
  deriving DecidableEq, Repr

/-- One price level as readers see it after `toSymm`; nil fields are `none`. -/
structure Level where
  price : Option Decimal
  quantity : Option Decimal

/-- The resident book handed to a reader. Each side starts at its best level,
the order in which `level.Lower` (bids) and `level.Higher` (asks) walk it.
`spread` (in percent) and `midpoint` are the SDK's own getters. -/
structure ManagedBook where
  bids : List Level
  asks : List Level
  spread : Option Decimal
  midpoint : Option Decimal

/-- The members of `kraken.InstrumentPair` that sizing reads. -/
structure InstrumentPair where
  quote : String
  qtyMin : Option Decimal
  costMin : Option Decimal
  qtyIncrement : Option Decimal

/-- `market.Balance`: a quote currency and the cash it reports per asset. -/
structure Balance where
  quote : String
  cash : String → Option Decimal

/-- What `broker.Price` reads at one moment. `books` is `Books.Book`: `none`
when the guarded reader is not called. `fee` is `Instrument.TakerFee` after
name normalisation, in percent. `formatSize` is the SDK normalizer, `none` on
error. -/
structure Price where
  books : String → Option ManagedBook
  blockReason : String → String
  fee : String → Option Decimal
  pair : String → InstrumentPair
  balance : Option Balance
  formatSize : String → Decimal → Option Decimal

/-- `bookReady`: both sides quoted and not crossed. -/
def bookReady (managed : ManagedBook) : Bool :=
  match managed.bids.head?, managed.asks.head? with
  | some bid, some ask =>
    match bid.price, ask.price with
    | some b, some a => b < a
    | _, _ => false
  | _, _ => false

/-! ## Walking the book -/

/-- The errors of `consume`; on insufficient depth the partial walk is still
returned. -/
inductive ConsumeError
  | invalid
  | insufficientDepth (filled gross : Decimal)
  deriving DecidableEq

/-- The loop of `consume`: lift levels until nothing is needed, the cash cap is
spent, or the side ends. Levels without a positive price and quantity are
skipped. -/
def walk : List Level → Decimal → Option Decimal → Decimal → Decimal → Decimal × Decimal
  | [], _, _, filled, gross => (filled, gross)
  | level :: rest, need, cash, filled, gross =>
    if 0 < need ∧ cash.all (0 < ·) then
      match level.price, level.quantity with
      | some px, some qty =>
        if px ≤ 0 ∨ qty ≤ 0 then walk rest need cash filled gross
        else
          let take := min qty need
          let take := match cash with
            | none => take
            | some c => min take (Decimal.div c px)
          if take ≤ 0 then (filled, gross)
          else
            let cost := px * take
            walk rest (need - take) (cash.map (· - cost)) (filled + take) (gross + cost)
      | _, _ => walk rest need cash filled gross
    else (filled, gross)

/-- `consume` fills `maxQty` from the book; `maxGross`, if set, also caps the
quote spent. -/
def consume (managed : ManagedBook) (maxQty maxGross : Option Decimal)
    (side : Direction) : Except ConsumeError (Decimal × Decimal) :=
  match maxQty with
  | none => .error .invalid
  | some maxQty =>
    if maxQty ≤ 0 then .error .invalid
    else
      let levels := match side with
        | .buy => managed.asks
        | .sell => managed.bids
      let fill := walk levels maxQty maxGross 0 0
      if maxGross.isNone ∧ fill.1 < maxQty then .error (.insufficientDepth fill.1 fill.2)
      else .ok fill

/-- `afterFee`: a positive amount with the fee added (buy) or deducted (sell). -/
def afterFee (amount : Decimal) (fee : Option Decimal) (direction : Direction) :
    Option Decimal :=
  match fee with
  | none => none
  | some fee =>
    if amount ≤ 0 then none
    else
      let rate := 1 / 100 * fee
      let rate := match direction with
        | .buy => rate
        | .sell => rate * -1
      some (amount * (1 + rate))

/-! ## Exit prices and round trips -/

/-- `Price.ExitRoom`: best-bid size divided by quantity. -/
def Price.exitRoom (price : Price) (symbol : String) (quantity : Option Decimal) :
    Option Decimal := do
  let quantity ← quantity
  guard (0 < quantity)
  let managed ← price.books symbol
  let bid ← managed.bids.head?
  let depth ← bid.quantity
  guard (0 < depth)
  return Decimal.div depth quantity

/-- `Price.ExitVWAP`: the average price of selling `quantity` into the bids. -/
def Price.exitVWAP (price : Price) (symbol : String) (quantity : Option Decimal) :
    Option Decimal := do
  let qty ← quantity
  guard (0 < qty)
  let managed ← price.books symbol
  guard (bookReady managed)
  let (filled, gross) ← (consume managed quantity none .sell).toOption
  guard (0 < filled)
  return Decimal.div gross filled

/-- `Price.roundTrip`: profit and cost of having bought `quantity` at `entry`
and selling it into the bids now. -/
def Price.roundTrip (price : Price) (symbol : String)
    (quantity entry entryFee exitFee : Option Decimal) : Option (Decimal × Decimal) := do
  let qty ← quantity
  let entry ← entry
  guard (0 < qty ∧ 0 < entry)
  let _ ← entryFee
  let _ ← exitFee
  let managed ← price.books symbol
  guard (bookReady managed)
  let (_, grossExit) ← (consume managed quantity none .sell).toOption
  let cost ← afterFee (entry * qty) entryFee .buy
  let netExit ← afterFee grossExit exitFee .sell
  return (netExit - cost, cost)

/-- `Price.roundTripPct`: the same profit in percent of the entry cost. -/
def Price.roundTripPct (price : Price) (symbol : String)
    (quantity entry entryFee exitFee : Option Decimal) : Option Decimal := do
  let (profit, cost) ← price.roundTrip symbol quantity entry entryFee exitFee
  guard (0 < cost)
  return Decimal.div profit cost * 100

/-- `Price.PnLPct`: a nil fee is looked up. -/
def Price.pnlPct (price : Price) (symbol : String) (quantity entry fee : Option Decimal) :
    Option Decimal :=
  let fee := fee.orElse fun _ => price.fee symbol
  price.roundTripPct symbol quantity entry fee fee

/-! ## Sizing an entry -/

/-- Why an entry was not sized: the reason `Allocate` returns, with the values
its message prints. -/
inductive SizeRefusal
  | balanceNotWired
  | quoteCashUnknown (pairQuote deskQuote : String)
  | limitsMissing
  | riskBudgetZero (cash maxFraction : Decimal)
  | bookNotReady
  | bestBidMissing
  | touchCapNonPositive
  | zeroWalk (grossBudget touchCap : Decimal)
  | cannotTrim (budget filled : Decimal)
  | costUnknown
  | trimWalkFailed (err : Option ConsumeError)
  | belowVenueMinimum (filled qtyMin costMin touchCap : Decimal)
  | blocked (reason : String)
  | notSized
  deriving DecidableEq

/-- The trim loop of `sizeBuy` with `fuel` iterations left: cut the fill until
its fee-inclusive cost fits the budget. -/
def Price.trim (price : Price) (managed : ManagedBook) (symbol : String)
    (pair : InstrumentPair) (fee : Option Decimal) (budget : Decimal)
    (askPx : Option Decimal) (fail : SizeRefusal) :
    Nat → Decimal → Decimal → Except SizeRefusal (Decimal × Decimal)
  | 0, _, _ => .error fail
  | fuel + 1, filled, gross =>
    match afterFee gross fee .buy with
    | none => .error .costUnknown
    | some total =>
      if total ≤ budget then .ok (filled, gross)
      else match askPx with
        | none => .error fail
        | some ask =>
          if ask ≤ 0 then .error fail
          else
            let cut := Decimal.div (total - budget) ask
            -- no cut is smaller than the step of the pair
            let cut := match pair.qtyIncrement with
              | some step => if 0 < step ∧ cut < step then step else cut
              | none => cut
            if cut ≤ 0 ∨ filled ≤ cut then .error fail
            else
              let next := filled - cut
              -- the exchange rounds what is left
              let next := (price.formatSize symbol next).getD next
              if filled ≤ next then .error fail
              -- what is left is walked again, without a cap on the cash
              else match consume managed (some next) none .buy with
                | .error err => .error (.trimWalkFailed (some err))
                | .ok (filled, gross) =>
                  if filled ≤ 0 then .error (.trimWalkFailed none)
                  else price.trim managed symbol pair fee budget askPx fail fuel filled gross

/-- `Price.sizeBuy` lifts asks under the touch cap and the gross budget, then
trims until the fee-inclusive cost fits, at most eight times. -/
def Price.sizeBuy (price : Price) (managed : ManagedBook) (symbol : String)
    (pair : InstrumentPair) (fee : Option Decimal) (budget grossBudget touchCap : Decimal) :
    Except SizeRefusal (Decimal × Decimal) :=
  if touchCap ≤ 0 then .error .touchCapNonPositive
  else
    let qty := (price.formatSize symbol touchCap).getD touchCap
    match consume managed (some qty) (some grossBudget) .buy with
    | .error _ => .error (.zeroWalk grossBudget touchCap)
    | .ok (filled, gross) =>
      if filled ≤ 0 then .error (.zeroWalk grossBudget touchCap)
      else
        let askPx := managed.asks.head?.bind Level.price
        price.trim managed symbol pair fee budget askPx (.cannotTrim budget filled) 8 filled gross

/-- `Decimal.Div` by a divisor that may be zero. -/
def checkedDiv (a b : Decimal) : Except Fault Decimal :=
  if b = 0 then .error .divisionByZero else .ok (Decimal.div a b)

/-- The callback of `Allocate` on a readable book. `wallet` is the resolved
wallet in the source, so its nil test there always passes. -/
def Price.sizeOn (price : Price) (risk : Risk) (managed : ManagedBook) (symbol : String)
    (pair : InstrumentPair) (fee : Decimal) (budget grossBudget qtyMin costMin : Decimal) :
    Except Fault (Except SizeRefusal Decimal) :=
  if ¬ bookReady managed then .ok (.error .bookNotReady)
  else match managed.bids.head?.bind Level.quantity with
    | none => .ok (.error .bestBidMissing)
    | some touchBid =>
      if touchBid ≤ 0 then .ok (.error .bestBidMissing)
      else match checkedDiv touchBid risk.touchDivisor with
        | .error fault => .error fault
        | .ok touchCap =>
          match price.sizeBuy managed symbol pair (some fee) budget grossBudget touchCap with
          | .error why => .ok (.error why)
          | .ok (filled, gross) =>
            let avgPx := Decimal.div gross filled
            let cost := avgPx * filled
            if filled < qtyMin ∨ cost < costMin then
              .ok (.error (.belowVenueMinimum filled qtyMin costMin touchCap))
            else .ok (.ok filled)

/-- `Price.Allocate` sizes a long from `wallet`, `none` being the desk's own
balance. The unknown fee of a pair is dereferenced before the book is read. -/
def Price.allocate (price : Price) (risk : Risk) (symbol : String)
    (wallet : Option Balance) : Except Fault (Except SizeRefusal Decimal) :=
  match wallet.orElse fun _ => price.balance with
  | none => .ok (.error .balanceNotWired)
  | some wallet =>
    let pair := price.pair symbol
    match (wallet.cash pair.quote).orElse fun _ => wallet.cash wallet.quote with
    | none => .ok (.error (.quoteCashUnknown pair.quote wallet.quote))
    | some cash =>
      match pair.qtyMin, pair.costMin with
      | some qtyMin, some costMin =>
        let budget := cash * risk.maxFraction
        if budget ≤ 0 then .ok (.error (.riskBudgetZero cash risk.maxFraction))
        else match price.fee symbol with
          | none => .error .nilDereference
          | some fee =>
            match checkedDiv budget (1 + fee * (1 / 100)) with
            | .error fault => .error fault
            | .ok grossBudget =>
              match price.books symbol with
              | some managed =>
                price.sizeOn risk managed symbol pair fee budget grossBudget qtyMin costMin
              | none =>
                if price.blockReason symbol = "" then .ok (.error .notSized)
                else .ok (.error (.blocked (price.blockReason symbol)))
      | _, _ => .ok (.error .limitsMissing)

/-- `Price.EntryCost`: fill VWAP and fee of lifting `quantity` from the asks. -/
def Price.entryCost (price : Price) (symbol : String) (quantity : Decimal) :
    Option (Decimal × Decimal) := do
  guard (0 < quantity)
  let managed ← price.books symbol
  guard (bookReady managed)
  let (filled, gross) ← (consume managed (some quantity) none .buy).toOption
  let total ← afterFee gross (price.fee symbol) .buy
  return (Decimal.div gross filled, total - gross)

/-! ## Entry guard -/

/-- `Price.TouchBidCash`: quote notional on the top three bid levels. -/
def Price.touchBidCash (price : Price) (symbol : String) : Option Decimal := do
  guard (symbol ≠ "")
  let managed ← price.books symbol
  let total := ((managed.bids.take 3).map fun level =>
    match level.price, level.quantity with
    | some px, some qty => if 0 < px ∧ 0 < qty then px * qty else 0
    | _, _ => 0).sum
  guard (0 < total)
  return total

/-- `Price.SpreadPct`: the book's own relative spread in percent. -/
def Price.spreadPct (price : Price) (symbol : String) : Option Decimal := do
  let managed ← price.books symbol
  guard (bookReady managed)
  let spread ← managed.spread
  guard (0 < spread)
  return spread

/-- `Price.Friction`: spread plus both taker legs, as a fraction. -/
def Price.friction (price : Price) (symbol : String) : Except Fault (Option Decimal) :=
  match price.spreadPct symbol with
  | none => .ok none
  | some spreadPct =>
    match price.fee symbol with
    | none => .error .nilDereference
    | some fee =>
      if fee < 0 then .ok none
      else
        let hurdle := Decimal.div spreadPct 100 + fee * (1 / 100) * 2
        .ok (if 0 < hurdle then some hurdle else none)

/-- `Price.OpenDragBudgetPct`: three times the friction, in percent. -/
def Price.openDragBudgetPct (price : Price) (symbol : String) :
    Except Fault (Option Decimal) := do
  let friction ← price.friction symbol
  return friction.map (· * 3 * 100)

/-- `Price.EntryCloseNowPnLPct`: opening the desk lot and closing it at once. -/
def Price.entryCloseNowPnLPct (price : Price) (risk : Risk) (symbol : String) :
    Except Fault (Option Decimal) := do
  match ← price.allocate risk symbol none with
  | .error _ => return none
  | .ok qty =>
    if qty ≤ 0 then return none
    match price.entryCost symbol qty with
    | none => return none
    | some (entryPrice, _) =>
      if entryPrice ≤ 0 then return none
      return price.pnlPct symbol (some qty) (some entryPrice) (price.fee symbol)

/-- `sideCash`: quote notional along one side inside `[lo, hi]`. -/
def sideCash : List Level → Direction → Decimal → Decimal → Decimal → Decimal
  | [], _, _, _, total => total
  | level :: rest, side, lo, hi, total =>
    match level.price, level.quantity with
    | some px, some qty =>
      if px ≤ 0 ∨ qty ≤ 0 then sideCash rest side lo hi total
      else if side = .buy ∧ px < lo then total
      else if side = .sell ∧ hi < px then total
      else sideCash rest side lo hi (total + px * qty)
    | _, _ => sideCash rest side lo hi total

/-- `Price.BackingRatio`: bid cash over ask cash inside the mid band. -/
def Price.backingRatio (price : Price) (risk : Risk) (symbol : String) : Option Decimal := do
  guard (symbol ≠ "")
  let managed ← price.books symbol
  guard (bookReady managed)
  let mid ← managed.midpoint
  guard (0 < mid)
  let lo := mid * (1 - risk.backingBandFrac)
  let hi := mid * (1 + risk.backingBandFrac)
  let bidCash := sideCash managed.bids .buy lo hi 0
  let askCash := sideCash managed.asks .sell lo hi 0
  guard (0 < askCash)
  return bidCash / askCash

/-- The reasons of `CheckEntryPhysical`, with the values their messages print. -/
inductive PhysicalRefusal
  | noPriceBook
  | blownOutSpread (spreadCap : Decimal)
  | tooThin (minCash : Decimal)
  | thinSupport (band : Decimal) (ratio : Option Decimal)
  | cannotPrice
  | dragExceedsCap (cap : Decimal)
  deriving DecidableEq

/-- `openDragCapPct`: the tighter of the configured cap and the friction budget,
never below the two-leg taker fee. -/
def openDragCapPct (price : Price) (risk : Risk) (symbol : String) : Except Fault Decimal := do
  let budget ← price.openDragBudgetPct symbol
  let cap := match budget with
    | some b => if 0 < b ∧ b < risk.maxEntryOpenDragPct then b else risk.maxEntryOpenDragPct
    | none => risk.maxEntryOpenDragPct
  match price.fee symbol with
  | none => throw .nilDereference
  | some fee => return if 0 < fee ∧ cap < 2 * fee then 2 * fee else cap

/-- `checkBookPhysical`: book integrity without the spread. -/
def checkBookPhysical (price : Price) (risk : Risk) (symbol : String) :
    Except Fault (Option PhysicalRefusal) := do
  if (price.touchBidCash symbol).all (· < risk.minTouchBidCash) then
    return some (.tooThin risk.minTouchBidCash)
  let ratio := price.backingRatio risk symbol
  if ratio.all (· < risk.minBackingRatio) then
    return some (.thinSupport risk.backingBandFrac ratio)
  match ← price.entryCloseNowPnLPct risk symbol with
  | none => return some .cannotPrice
  | some closeNow =>
    let cap ← openDragCapPct price risk symbol
    return if closeNow < -cap then some (.dragExceedsCap cap) else none

/-- `Price.BookIntact`. -/
def Price.bookIntact (price : Price) (risk : Risk) (symbol : String) : Except Fault Bool := do
  return (← checkBookPhysical price risk symbol).isNone

/-- `CheckEntryPhysical`; `none` is `Allowed`. A non-positive spread cap
disables the spread ceiling. -/
def checkEntryPhysical (price : Option Price) (risk : Risk) (symbol : String) :
    Except Fault (Option PhysicalRefusal) :=
  match price with
  | none => .ok (some .noPriceBook)
  | some price =>
    if 0 < risk.maxEntrySpreadPct ∧
        (price.spreadPct symbol).any (risk.maxEntrySpreadPct < ·) then
      .ok (some (.blownOutSpread risk.maxEntrySpreadPct))
    else checkBookPhysical price risk symbol

end Symm.Broker
