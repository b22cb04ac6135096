import Mathlib.Data.Finset.Basic
import Mathlib.Data.List.AList
import Symm.Broker.Position

/-!
# The level-3 books (`broker/book.go`, `broker/diagnostic.go`, `kraken/level3.go`)

`Book` keeps one SDK book for each symbol. `Book.apply` feeds it the orders of
a venue frame one by one, and checks the venue's checksum at the end of each
entry. The SDK is a parameter: its books have some type `β` and its decimals
some type `ν`, and `Sdk` holds the operations that the source calls.

Go ranges over the levels of a side in an arbitrary order; `Sdk.keys` is that
order, as some function of the book. The context, the configured depth and the
clock are read anew for each entry. What is only dumped to disk or logged is
left out.

- `applyOrder`, `applyData`: an order, and an entry with its bids, asks and checksum, on
  one book;
- `applyEntry`, `apply`, `update`: an entry, a frame and a payload on the books of all
  symbols;
- `Outcome`, `OrderError`, `EntryFault`: every way in which an entry can end, with the
  error that the code raises.

A failed order leaves the book as far as it came, half moved if need be, and so does a
failed entry, which ends its frame; only some of the errors mark the book as invalid.
The model keeps that state. What readers are shown of such a book is the subject of
`Broker.BookReaders`.
-/

namespace Symm.Broker

/-! ## Venue frames -/

/-- `kraken.Level3Order`. -/
structure Level3Order where
  event : String
  orderID : String
  limitPrice : Option Decimal
  orderQty : Option Decimal
  timestamp : Time
  deriving DecidableEq

/-- `kraken.Level3Data`: one entry of a frame. -/
structure Level3Data where
  symbol : String
  type : String
  timestamp : Time
  checksum : UInt32
  bids : List Level3Order
  asks : List Level3Order
  deriving DecidableEq

/-- `kraken.Level3Touch`. -/
structure Level3Touch where
  symbol : String
  timestamp : Time
  bid : Decimal
  bidQty : Decimal
  ask : Decimal
  askQty : Decimal
  deriving DecidableEq

/-! ## The SDK -/

/-- `spotbook.BookDirection`. -/
inductive BookDirection
  | bid | ask
  deriving DecidableEq

/-- A level of a side: its price and the ids queued in it. -/
structure QueuedLevel (ν : Type) where
  price : Option ν
  queue : List String

/-- `spotbook.UpdateOptions`. -/
structure UpdateOptions (ν : Type) where
  direction : BookDirection
  id : String
  price : ν
  quantity : ν
  timestamp : Option Time
  silent : Bool

/-- `spotbook.ChecksumResult`. -/
structure Checksum where
  isMatch : Bool
  serverChecksum : String
  localChecksum : String
  asks : String
  bids : String
  deriving DecidableEq

/-- The members of `spot.AssetPair` that the book reads. -/
structure AssetPair where
  pairDecimals : Int
  lotDecimals : Int

/-- The best level of a side. -/
structure BestLevel (ν : Type) where
  price : Option ν
  quantity : Option ν

/-- What the book calls of the SDK and of its normalizer. -/
structure Sdk (β ν : Type) where
  createBook : String → Int → β
  keys : β → BookDirection → List String
  level : β → BookDirection → String → Option (QueuedLevel ν)
  update : UpdateOptions ν → β → β
  enforceDepth : β → β
  l3Checksum : β → String → Checksum
  best : β → BookDirection → Option (BestLevel ν)
  pairInfo : String → Option AssetPair
  /-- `decimal.NewFromString` of a venue decimal's text. -/
  parse : Decimal → Option ν
  setScale : ν → Int → ν
  zero : ν
  cmp : ν → ν → Ordering
  text : ν → String
  /-- The venue decimal that an SDK decimal's text denotes. -/
  value : ν → Decimal

/-! ## One entry -/

/-- Why an order was not applied. -/
inductive OrderError
  | noPair
  | notCanonical (field : String) (value : Decimal) (scale : Int)
  | unparsable (value : Decimal)
  | absentLevel (event orderID : String) (price : Decimal)
  deriving DecidableEq

/-- `canonical`: a value with more decimals than the pair allows is an error. -/
def canonical (value : Option Decimal) (scale : Int) (field : String) :
    Except OrderError (Option Decimal) :=
  match value with
  | none => .ok none
  | some value =>
    let scaled := if 0 ≤ scale then Decimal.truncate value scale.toNat else value
    if scaled = value then .ok (some scaled) else .error (.notCanonical field value scale)

/-- `strconv.ParseUint(text, 10, 32)`. -/
def parseUint32 (text : String) : Option UInt32 :=
  if text = "" ∨ ¬ text.toList.all Char.isDigit then none
  else
    let value := text.toList.foldl (fun acc c => 10 * acc + (c.toNat - '0'.toNat)) 0
    if value < 2 ^ 32 then some value.toUInt32 else none

namespace Sdk

variable {β ν : Type} (sdk : Sdk β ν)

/-- The level of a side with this order in its queue, first in range order. -/
def findLevel (b : β) (direction : BookDirection) (orderID : String) : Option (QueuedLevel ν) :=
  ((sdk.keys b direction).filterMap (sdk.level b direction)).find? fun level =>
    orderID ∈ level.queue

/-- A delete without a price takes the price of the level that queues it. -/
def priced (b : β) (direction : BookDirection) (order : Level3Order) : Level3Order :=
  if order.event = "delete" ∧ order.limitPrice = none then
    { order with
      limitPrice := (sdk.findLevel b direction order.orderID).bind fun level =>
        level.price.map sdk.value }
  else order

/-- Take an order off one level of another price. -/
def takeOff (direction : BookDirection) (orderID : String) (price : ν) (lotDecimals : Int) (b : β)
    (key : String) : β :=
  match sdk.level b direction key with
  | none => b
  | some level =>
    match level.price with
    | none => b
    | some resting =>
      if sdk.cmp resting price ≠ .eq ∧ orderID ∈ level.queue then
        sdk.update {
          direction := direction, id := orderID, price := resting
          quantity := sdk.setScale sdk.zero lotDecimals, timestamp := none, silent := true } b
      else b

/-- A moved order leaves the levels of its other prices. -/
def moveOff (direction : BookDirection) (orderID : String) (price : ν) (lotDecimals : Int) (b : β) :
    β :=
  if orderID = "" then b
  else (sdk.keys b direction).foldl (sdk.takeOff direction orderID price lotDecimals) b

/-- The second half of an order's turn: it has a price. -/
def applyPriced (pair : AssetPair) (direction : BookDirection) (order : Level3Order)
    (limit : Decimal) (b : β) : β × Except OrderError (Option Level3Order) :=
  match sdk.parse limit with
  | none => (b, .error (.unparsable limit))
  | some price =>
    let price := sdk.setScale price pair.pairDecimals
    let b := sdk.moveOff direction order.orderID price pair.lotDecimals b
    let quantity := if order.event = "delete" then 0 else order.orderQty.getD 0
    match sdk.parse quantity with
    | none => (b, .error (.unparsable quantity))
    | some qty =>
      let qty := sdk.setScale qty pair.lotDecimals
      if quantity ≤ 0 ∧ (sdk.level b direction (sdk.text price)).isNone then
        (b, .error (.absentLevel order.event order.orderID limit))
      else
        (sdk.update {
          direction := direction, id := order.orderID, price := price
          quantity := qty, timestamp := some order.timestamp, silent := true } b,
          .ok (some order))

/-- One order of an entry. The result is the order as it was applied, or `none`
for a delete of an order that no level queues. On an error the book stays as
far as the order got. -/
def applyOrder (symbol : String) (direction : BookDirection) (order : Level3Order) (b : β) :
    β × Except OrderError (Option Level3Order) :=
  match sdk.pairInfo symbol with
  | none => (b, .error .noPair)
  | some pair =>
    match canonical order.limitPrice pair.pairDecimals "limit_price" with
    | .error err => (b, .error err)
    | .ok limitPrice =>
      match canonical order.orderQty pair.lotDecimals "order_qty" with
      | .error err => (b, .error err)
      | .ok orderQty =>
        let order := sdk.priced b direction
          { order with limitPrice := limitPrice, orderQty := orderQty }
        match order.limitPrice with
        | none => (b, .ok none)
        | some limit => sdk.applyPriced pair direction order limit b

/-- The orders of one side, up to the first that fails. -/
def applyOrders (symbol : String) (direction : BookDirection) :
    List Level3Order → β → β × Except OrderError (List Level3Order)
  | [], b => (b, .ok [])
  | order :: rest, b =>
    match sdk.applyOrder symbol direction order b with
    | (b, .error err) => (b, .error err)
    | (b, .ok applied) =>
      match applyOrders symbol direction rest b with
      | (b, .error err) => (b, .error err)
      | (b, .ok filtered) => (b, .ok (applied.toList ++ filtered))

/-- Check the venue's checksum. A checksum of 0 counts as missing and is stamped
from the local one. -/
def verify (b : β) (data : Level3Data) : Level3Data × Checksum :=
  let checksum := sdk.l3Checksum b (toString data.checksum.toNat)
  if ¬ checksum.isMatch ∧ data.checksum = 0 then
    match parseUint32 checksum.localChecksum with
    | some stamp => ({ data with checksum := stamp }, sdk.l3Checksum b checksum.localChecksum)
    | none => (data, checksum)
  else (data, checksum)

/-- Why an entry was not accepted, once its book was at hand. -/
inductive EntryFault
  | order (err : OrderError)
  | mismatch (checksum : Checksum)
  deriving DecidableEq

/-- One entry on the book of its symbol: bids, asks, depth, checksum. -/
def applyData (data : Level3Data) (b : β) : β × Except EntryFault Level3Data :=
  match sdk.applyOrders data.symbol .bid data.bids b with
  | (b, .error err) => (b, .error (.order err))
  | (b, .ok bids) =>
    match sdk.applyOrders data.symbol .ask data.asks b with
    | (b, .error err) => (b, .error (.order err))
    | (b, .ok asks) =>
      let b := sdk.enforceDepth b
      let (data, checksum) := sdk.verify b { data with bids := bids, asks := asks }
      if checksum.isMatch then (b, .ok data) else (b, .error (.mismatch checksum))

end Sdk

/-! ## The books of all symbols -/

/-- The members of `BookDiagnostic` that are read back. -/
structure BookDiagnostic where
  kind : String
  fault : Sdk.EntryFault
  symbol : String
  seq : Nat
  frameType : String
  serverChecksum : String
  localChecksum : String
  entry : Level3Data
  deriving DecidableEq

/-- `invalidBook`. -/
structure InvalidBook where
  diagnostic : BookDiagnostic
  dropped : Nat

/-- The errors of `Book.apply`. -/
inductive BookError
  | cancelled
  | noDepth
  | order (symbol : String) (err : OrderError)
  | invalid (diagnostic : BookDiagnostic)
  deriving DecidableEq

/-- What one entry came to. -/
inductive Outcome
  | accepted (data : Level3Data)
  | skipped
  | failed (err : BookError)
  deriving DecidableEq

/-- What `Book.apply` reads besides the entry: whether the context is done, and
`market.l3_depth`. -/
structure EntryEnv where
  done : Bool
  depth : Int

/-- `kraken.Level3`, with what is read beside each entry. -/
structure Level3 where
  type : String
  data : List (EntryEnv × Level3Data)

/-- `Book`. `pending` is the set that `Expect` installs; `ready` says that the
system is READY and `seeded` that the channel holds its signal. `resubscribes`
is the log of resubscribe requests. -/
structure Book (β : Type) where
  pending : Option (Finset String)
  books : AList fun _ : String => β
  stale : Finset String
  invalid : AList fun _ : String => InvalidBook
  failures : Nat
  lastTouch : AList fun _ : String => String × String × String × String
  ready : Bool
  seeded : Bool
  resubscribes : List String

namespace Book

variable {β ν : Type} (sdk : Sdk β ν)

/-- `NewBook`, over a system that is READY or not. -/
def new (ready : Bool) : Book β where
  pending := none
  books := ∅
  stale := ∅
  invalid := ∅
  failures := 0
  lastTouch := ∅
  ready := ready
  seeded := false
  resubscribes := []

/-- `Expect`. -/
def expect (symbols : List String) (book : Book β) : Book β :=
  { book with pending := some symbols.toFinset, ready := false }

/-- `Stale`. -/
def markStale (symbols : List String) (book : Book β) : Book β :=
  { book with stale := book.stale ∪ symbols.toFinset }

/-- The symbol is expected and its snapshot has not been published. -/
def isPending (book : Book β) (symbol : String) : Bool :=
  book.pending.any fun pending => symbol ∈ pending

/-- `Book.Book`: the book that a reader is given. -/
def read (book : Book β) (symbol : String) : Option β :=
  if book.isPending symbol then none
  else if symbol ∈ book.stale then none
  else if (book.invalid.lookup symbol).isSome then none
  else book.books.lookup symbol

/-- `StaleSymbol`. -/
def staleSymbol (book : Book β) (symbol : String) : Bool :=
  symbol = "" ∨ book.isPending symbol ∨ symbol ∈ book.stale ∨
    (book.invalid.lookup symbol).isSome ∨ (book.books.lookup symbol).isNone

/-- `requestLevel3Resubscribe`. -/
def requestResubscribe (symbol : String) (book : Book β) : Book β :=
  if symbol = "" then book else { book with resubscribes := book.resubscribes ++ [symbol] }

/-- The kind of a diagnostic. -/
def kindOf : Sdk.EntryFault → String
  | .order _ => "absent_level"
  | .mismatch _ => "checksum_mismatch"

/-- `invalidate`: hide the book until a fresh snapshot. Without a checksum the
local one is that of the empty text. -/
def invalidate (fault : Sdk.EntryFault) (type : String) (entry : Level3Data) (book : Book β) :
    Book β × Outcome :=
  let (server, localSum) := match fault with
    | .order _ => (toString entry.checksum.toNat, "0")
    | .mismatch checksum => (checksum.serverChecksum, checksum.localChecksum)
  let diagnostic : BookDiagnostic := {
    kind := kindOf fault, fault := fault, symbol := entry.symbol, seq := book.failures + 1
    frameType := type, serverChecksum := server, localChecksum := localSum, entry := entry }
  let book := { book with
    failures := book.failures + 1
    invalid := book.invalid.insert entry.symbol ⟨diagnostic, 0⟩ }
  (book.requestResubscribe entry.symbol, .failed (.invalid diagnostic))

/-- A delta on an invalid book is counted, not applied; every hundredth retries
the resubscription. -/
def dropDelta (symbol : String) (entry : InvalidBook) (book : Book β) : Book β :=
  let dropped := entry.dropped + 1
  let book := { book with
    invalid := book.invalid.insert symbol { entry with dropped := dropped } }
  if dropped % 100 = 0 then book.requestResubscribe symbol else book

/-- The book an entry is applied to: a new one for a snapshot, which also drops
the stale and invalid marks, or for a symbol without one. -/
def openBook (type : String) (symbol : String) (depth : Int) (book : Book β) : Book β × β :=
  if type = "snapshot" then
    let b := sdk.createBook symbol depth
    ({ book with
      stale := book.stale.erase symbol
      invalid := book.invalid.erase symbol
      books := book.books.insert symbol b }, b)
  else match book.books.lookup symbol with
    | some b => (book, b)
    | none =>
      let b := sdk.createBook symbol depth
      ({ book with books := book.books.insert symbol b }, b)

/-- The turn of one entry in `Book.apply`. -/
def applyEntry (type : String) (env : EntryEnv) (data : Level3Data) (book : Book β) :
    Book β × Outcome :=
  if env.done then (book, .failed .cancelled)
  else
    let data := { data with type := type }
    match if type = "snapshot" then none else book.invalid.lookup data.symbol with
    | some entry => (book.dropDelta data.symbol entry, .skipped)
    | none =>
      if env.depth ≤ 0 then (book, .failed .noDepth)
      else
        let (book, b) := book.openBook sdk type data.symbol env.depth
        let (b, result) := sdk.applyData data b
        let book := { book with books := book.books.insert data.symbol b }
        match result with
        | .ok data => (book, .accepted data)
        | .error (.order (.absentLevel event orderID price)) =>
          book.invalidate (.order (.absentLevel event orderID price)) type data
        | .error (.order err) => (book, .failed (.order data.symbol err))
        | .error (.mismatch checksum) => book.invalidate (.mismatch checksum) type data

/-- `recordTouch`: the top of an accepted book, if it is two-sided, not crossed,
and moved. -/
def recordTouch (data : Level3Data) (book : Book β) : Book β × Option Level3Touch :=
  let top := fun direction => do
    let b ← book.books.lookup data.symbol
    let level ← sdk.best b direction
    let price ← level.price
    let quantity ← level.quantity
    return (price, quantity)
  match top .bid, top .ask with
  | some bid, some ask =>
    let key := (sdk.text bid.1, sdk.text bid.2, sdk.text ask.1, sdk.text ask.2)
    if sdk.cmp bid.1 ask.1 ≠ .lt then (book, none)
    else if book.lastTouch.lookup data.symbol = some key then (book, none)
    else
      let book := { book with lastTouch := book.lastTouch.insert data.symbol key }
      if sdk.value bid.1 ≤ 0 ∨ sdk.value ask.1 ≤ 0 then (book, none)
      else (book, some {
        symbol := data.symbol, timestamp := data.timestamp
        bid := sdk.value bid.1, bidQty := sdk.value bid.2
        ask := sdk.value ask.1, askQty := sdk.value ask.2 })
  | _, _ => (book, none)

/-- What `Book.apply` returns, with the book it leaves. -/
structure Applied (β : Type) where
  book : Book β
  accepted : List Level3Data
  touches : List Level3Touch
  err : Option BookError

/-- `Book.apply`: the entries of a frame, up to the first that fails. -/
def apply (type : String) : List (EntryEnv × Level3Data) → Book β → Applied β
  | [], book => ⟨book, [], [], none⟩
  | (env, data) :: rest, book =>
    match book.applyEntry sdk type env data with
    | (book, .failed err) => ⟨book, [], [], some err⟩
    | (book, .skipped) => apply type rest book
    | (book, .accepted data) =>
      let (book, touch) := book.recordTouch sdk data
      let after := apply type rest book
      { after with
        accepted := data :: after.accepted
        touches := touch.toList ++ after.touches }

/-- `Update` publishes one accepted entry: a snapshot is no longer pending, and
the system is READY once nothing is pending or stale. -/
def publish (type : String) (book : Book β) (data : Level3Data) : Book β :=
  if type = "snapshot" then
    let book := { book with pending := book.pending.map fun pending => pending.erase data.symbol }
    if book.pending.all (fun pending => pending = ∅) ∧ book.stale = ∅ then
      { book with ready := true, seeded := true }
    else book
  else book

/-- What `Update` returns and hands to its subscribers. -/
structure Published where
  err : Option BookError
  touches : List Level3Touch
  notified : List (String × Time)

/-- `Book.Update`. Touches are reported even if an entry fails; nothing else is
published then. -/
def update (payload : Level3) (book : Book β) : Book β × Published :=
  let applied := book.apply sdk payload.type payload.data
  match applied.err with
  | some err => (applied.book, ⟨some err, applied.touches, []⟩)
  | none =>
    (applied.accepted.foldl (publish payload.type) applied.book,
      ⟨none, applied.touches, applied.accepted.map fun data => (data.symbol, data.timestamp)⟩)

end Book

end Symm.Broker
