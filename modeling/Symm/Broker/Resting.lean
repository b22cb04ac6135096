import Symm.Broker.BookReaders

/-!
# An order rests at one price

The SDK queues an order in the level of the price it is given and knows nothing
of its other prices, so `Book.apply` moves an order itself: it takes it off every
level of another price before it adds it. An order that carries no id has the
empty one, and is not moved. A symbol keeps its decimals for a whole run: the
normalizer is built once.

- `Queues`: what the SDK promises of `Update` and of its levels, the hypotheses on a
  package that is not part of the repository;
- `QueuedAt`, `RestsOnce`: where an order waits, and that it waits at one price of a
  side;
- `Keyed`: levels are kept under the text of their price, at the decimals of the pair;
- `Rests`, `AtHand`: the invariant between the turns of the orders.

A turn has three parts, and each has a lemma on `Keyed` and one on `QueuedAt`: taking
the order off the levels of other prices, updating the level of its own, and taking it
off that one too if it is deleted. The lemma of the turn puts them together for the
three kinds of order, and the runs over orders, entries, frames and collections of books
are inductions over it.

A delete without a price takes it from the level where the order waits. If there is
none, the order is queued nowhere, and nothing has to be taken off.
-/

namespace Symm.Broker

open Symm.Lib

namespace Sdk

variable {β ν : Type} (sdk : Sdk β ν)

/-- The order waits in the level under this key. -/
def QueuedAt (b : β) (direction : BookDirection) (orderID key : String) : Prop :=
  ∃ level, sdk.level b direction key = some level ∧ orderID ∈ level.queue

/-- No order is queued in two levels of a side. -/
def RestsOnce (b : β) : Prop :=
  ∀ direction orderID key key', orderID ≠ "" → sdk.QueuedAt b direction orderID key →
    sdk.QueuedAt b direction orderID key' → key = key'

/-- What the SDK promises of its books: `Update` adds, replaces or, for a zero
quantity, removes the order inside the level of the price, which is kept under
the text of the price; a new book is empty, and depth drops whole levels. Prices
of one scale that compare equal have one text. -/
structure Queues : Prop where
  created : ∀ symbol depth direction key,
    sdk.level (sdk.createBook symbol depth) direction key = none
  ranged : ∀ b direction key level, sdk.level b direction key = some level →
    key ∈ sdk.keys b direction
  inside : ∀ o b orderID,
    sdk.QueuedAt (sdk.update o b) o.direction orderID (sdk.text o.price) ↔
      if orderID = o.id then sdk.cmp o.quantity sdk.zero ≠ .eq
      else sdk.QueuedAt b o.direction orderID (sdk.text o.price)
  price : ∀ o b level, sdk.level (sdk.update o b) o.direction (sdk.text o.price) = some level →
    level.price = some o.price ∨
      ∃ old, sdk.level b o.direction (sdk.text o.price) = some old ∧ level.price = old.price
  outside : ∀ o b direction key, ¬ (direction = o.direction ∧ key = sdk.text o.price) →
    sdk.level (sdk.update o b) direction key = sdk.level b direction key
  depth : ∀ b direction key level, sdk.level (sdk.enforceDepth b) direction key = some level →
    sdk.level b direction key = some level
  sameText : ∀ p q scale, sdk.cmp (sdk.setScale p scale) (sdk.setScale q scale) = .eq →
    sdk.text (sdk.setScale p scale) = sdk.text (sdk.setScale q scale)
  zero : ∀ scale, sdk.cmp (sdk.setScale sdk.zero scale) sdk.zero = .eq
  parsedZero : ∀ qty scale, sdk.parse 0 = some qty →
    sdk.cmp (sdk.setScale qty scale) sdk.zero = .eq

/-- Every level is kept under the text of its price, which has the decimals of
the pair. -/
def Keyed (symbol : String) (b : β) : Prop :=
  ∀ direction key level, sdk.level b direction key = some level →
    ∃ pair price, sdk.pairInfo symbol = some pair ∧
      level.price = some (sdk.setScale price pair.pairDecimals) ∧
      sdk.text (sdk.setScale price pair.pairDecimals) = key

/-- The books of a symbol between the turns of its orders. -/
inductive AtHand (symbol : String) : β → Prop
  | created (depth : Int) : AtHand symbol (sdk.createBook symbol depth)
  | turn {b : β} (direction : BookDirection) (order : Level3Order) :
      AtHand symbol b → AtHand symbol (sdk.applyOrder symbol direction order b).1
  | depth {b : β} : AtHand symbol b → AtHand symbol (sdk.enforceDepth b)

variable {sdk} {symbol : String} {pair : AssetPair} {b : β}

/-! ## Updates -/

/-- An update at a price of the pair's decimals keeps the levels in order. -/
theorem Keyed.update (hsdk : sdk.Queues) (h : sdk.Keyed symbol b) {o : UpdateOptions ν} {price : ν}
    (hpair : sdk.pairInfo symbol = some pair)
    (hprice : o.price = sdk.setScale price pair.pairDecimals) :
    sdk.Keyed symbol (sdk.update o b) := by
  intro direction key level hlevel
  by_cases hhere : direction = o.direction ∧ key = sdk.text o.price
  · obtain ⟨rfl, rfl⟩ := hhere
    rcases hsdk.price o b level hlevel with hnew | ⟨old, hold, hsame⟩
    · exact ⟨pair, price, hpair, by rw [hnew, hprice], by rw [hprice]⟩
    · rw [hsame]
      exact h _ _ old hold
  · rw [hsdk.outside o b direction key hhere] at hlevel
    exact h direction key level hlevel

theorem queuedAt_update_outside (hsdk : sdk.Queues) {o : UpdateOptions ν}
    {direction : BookDirection} {orderID key : String}
    (h : ¬ (direction = o.direction ∧ key = sdk.text o.price)) :
    sdk.QueuedAt (sdk.update o b) direction orderID key ↔
      sdk.QueuedAt b direction orderID key := by
  simp only [QueuedAt, hsdk.outside o b direction key h]

/-- An update queues no order but its own. -/
theorem QueuedAt.of_update (hsdk : sdk.Queues) {o : UpdateOptions ν}
    {direction : BookDirection} {orderID key : String}
    (h : sdk.QueuedAt (sdk.update o b) direction orderID key) :
    sdk.QueuedAt b direction orderID key ∨ direction = o.direction ∧ orderID = o.id ∧
      key = sdk.text o.price ∧ sdk.cmp o.quantity sdk.zero ≠ .eq := by
  by_cases hhere : direction = o.direction ∧ key = sdk.text o.price
  · obtain ⟨rfl, rfl⟩ := hhere
    rw [hsdk.inside o b orderID] at h
    split at h
    · rename_i hid
      exact .inr ⟨rfl, hid, rfl, h⟩
    · exact .inl h
  · exact .inl ((queuedAt_update_outside hsdk hhere).mp h)

/-- An update without quantity takes its order off the level. -/
theorem QueuedAt.of_remove (hsdk : sdk.Queues) {o : UpdateOptions ν}
    (hzero : sdk.cmp o.quantity sdk.zero = .eq) {direction : BookDirection} {orderID key : String}
    (h : sdk.QueuedAt (sdk.update o b) direction orderID key) :
    sdk.QueuedAt b direction orderID key ∧
      ¬ (direction = o.direction ∧ orderID = o.id ∧ key = sdk.text o.price) := by
  constructor
  · rcases h.of_update hsdk with hold | ⟨-, -, -, hne⟩
    · exact hold
    · exact absurd hzero hne
  · rintro ⟨rfl, rfl, rfl⟩
    rw [hsdk.inside o b, if_pos rfl] at h
    exact h hzero

/-! ## Moving an order -/

section Move

variable {direction : BookDirection} {orderID : String} {price : ν} {lotDecimals : Int}

/-- Taking an order off a level keeps the levels under their keys. -/
theorem Keyed.takeOff (hsdk : sdk.Queues) (h : sdk.Keyed symbol b) (key : String) :
    sdk.Keyed symbol (sdk.takeOff direction orderID price lotDecimals b key) := by
  unfold Sdk.takeOff
  split
  · exact h
  · rename_i level hlevel
    obtain ⟨pair, resting, hpair, hprice, -⟩ := h direction key level hlevel
    rw [hprice]
    dsimp only
    split
    · exact h.update hsdk hpair rfl
    · exact h

/-- The order leaves this level, unless it is the level of its price. -/
theorem QueuedAt.of_takeOff (hsdk : sdk.Queues) (hkeyed : sdk.Keyed symbol b)
    (hpair : sdk.pairInfo symbol = some pair) {at' : BookDirection} {id key key' : String}
    (h : sdk.QueuedAt (sdk.takeOff direction orderID (sdk.setScale price pair.pairDecimals)
      lotDecimals b key) at' id key') :
    sdk.QueuedAt b at' id key' ∧ (at' = direction → id = orderID → key' = key →
      key' = sdk.text (sdk.setScale price pair.pairDecimals)) := by
  unfold Sdk.takeOff at h
  cases hlevel : sdk.level b direction key with
  | none =>
    rw [hlevel] at h
    refine ⟨h, ?_⟩
    rintro rfl rfl rfl
    obtain ⟨level, hqueued, -⟩ := h
    rw [hlevel] at hqueued
    cases hqueued
  | some level =>
    obtain ⟨pair', resting, hpair', hprice, hkey⟩ := hkeyed direction key level hlevel
    obtain rfl : pair = pair' := Option.some.inj (hpair.symm.trans hpair')
    rw [hlevel] at h
    simp only [hprice] at h
    split at h
    · obtain ⟨hold, hgone⟩ := h.of_remove hsdk (hsdk.zero lotDecimals)
      refine ⟨hold, ?_⟩
      rintro rfl rfl rfl
      exact absurd ⟨rfl, rfl, hkey.symm⟩ hgone
    · rename_i hstays
      refine ⟨h, ?_⟩
      rintro rfl rfl rfl
      obtain ⟨level', hlevel', hqueued⟩ := h
      obtain rfl : level = level' := Option.some.inj (hlevel.symm.trans hlevel')
      -- the order was left in its queue, so the price is the one of the level
      have heq : sdk.cmp (sdk.setScale resting pair.pairDecimals)
          (sdk.setScale price pair.pairDecimals) = .eq := by
        by_contra hne
        exact hstays ⟨hne, hqueued⟩
      rw [← hkey]
      exact hsdk.sameText resting price pair.pairDecimals heq

/-- So does taking it off the level where it was. -/
theorem Keyed.moveOff (hsdk : sdk.Queues) (h : sdk.Keyed symbol b) :
    sdk.Keyed symbol (sdk.moveOff direction orderID price lotDecimals b) := by
  unfold Sdk.moveOff
  split
  · exact h
  · generalize sdk.keys b direction = keys
    induction keys generalizing b with
    | nil => exact h
    | cons key keys ih => exact ih (h.takeOff hsdk key)

/-- The order leaves the levels of these keys. -/
theorem QueuedAt.of_takeOffs (hsdk : sdk.Queues) (hpair : sdk.pairInfo symbol = some pair)
    {at' : BookDirection} {id key : String} (keys : List String) (hkeyed : sdk.Keyed symbol b)
    (h : sdk.QueuedAt (keys.foldl (sdk.takeOff direction orderID
      (sdk.setScale price pair.pairDecimals) lotDecimals) b) at' id key) :
    sdk.QueuedAt b at' id key ∧ (at' = direction → id = orderID → key ∈ keys →
      key = sdk.text (sdk.setScale price pair.pairDecimals)) := by
  induction keys generalizing b with
  | nil => exact ⟨h, fun _ _ hmem => absurd hmem List.not_mem_nil⟩
  | cons first keys ih =>
    obtain ⟨hnext, hrest⟩ := ih (hkeyed.takeOff hsdk first) h
    obtain ⟨hold, hfirst⟩ := hnext.of_takeOff hsdk hkeyed hpair
    refine ⟨hold, fun hat hid hmem => ?_⟩
    rcases List.mem_cons.mp hmem with hkey | hmem
    · exact hfirst hat hid hkey
    · exact hrest hat hid hmem

/-- A moved order is left at its new price only. -/
theorem QueuedAt.of_moveOff (hsdk : sdk.Queues) (hpair : sdk.pairInfo symbol = some pair)
    (hkeyed : sdk.Keyed symbol b) {at' : BookDirection} {id key : String}
    (h : sdk.QueuedAt (sdk.moveOff direction orderID (sdk.setScale price pair.pairDecimals)
      lotDecimals b) at' id key) :
    sdk.QueuedAt b at' id key ∧ (at' = direction → id = orderID → orderID ≠ "" →
      key = sdk.text (sdk.setScale price pair.pairDecimals)) := by
  unfold Sdk.moveOff at h
  split at h
  · rename_i hempty
    exact ⟨h, fun _ _ hid => absurd hempty hid⟩
  · obtain ⟨hold, hkeys⟩ := h.of_takeOffs hsdk hpair _ hkeyed
    refine ⟨hold, ?_⟩
    rintro rfl hid -
    obtain ⟨level, hlevel, hqueued⟩ := hold
    exact hkeys rfl hid (hsdk.ranged b at' key level hlevel)

/-- Fewer orders in the queues of a side keep each at one price. -/
theorem RestsOnce.of_queued {b b' : β} (h : sdk.RestsOnce b)
    (hqueued : ∀ {direction orderID key}, sdk.QueuedAt b' direction orderID key →
      sdk.QueuedAt b direction orderID key) : sdk.RestsOnce b' :=
  fun direction orderID key key' hid hkey hkey' =>
    h direction orderID key key' hid (hqueued hkey) (hqueued hkey')

end Move

/-! ## The turn of an order -/

/-- What holds of a book between the turns of its orders. -/
structure Rests (sdk : Sdk β ν) (symbol : String) (b : β) : Prop where
  keyed : sdk.Keyed symbol b
  once : sdk.RestsOnce b

/-- An order with a price rests there, if anywhere. -/
theorem Rests.applyPriced (hsdk : sdk.Queues) (h : sdk.Rests symbol b)
    (hpair : sdk.pairInfo symbol = some pair) (direction : BookDirection) (order : Level3Order)
    (limit : Decimal) :
    sdk.Rests symbol (sdk.applyPriced pair direction order limit b).1 ∧
      (order.event = "delete" → order.orderID ≠ "" → ∀ applied,
        (sdk.applyPriced pair direction order limit b).2 = .ok applied → ∀ key,
          ¬ sdk.QueuedAt (sdk.applyPriced pair direction order limit b).1 direction
            order.orderID key) := by
  unfold Sdk.applyPriced
  split
  · exact ⟨h, fun _ _ _ herr => nomatch herr⟩
  rename_i parsed _
  dsimp only
  generalize hquantity : (if order.event = "delete" then 0 else order.orderQty.getD 0) = quantity
  generalize hmoved : sdk.moveOff direction order.orderID
    (sdk.setScale parsed pair.pairDecimals) pair.lotDecimals b = moved
  have hkeyed : sdk.Keyed symbol moved := hmoved ▸ h.keyed.moveOff hsdk
  have hleft : ∀ {at' : BookDirection} {id key : String}, sdk.QueuedAt moved at' id key →
      sdk.QueuedAt b at' id key ∧ (at' = direction → id = order.orderID → order.orderID ≠ "" →
        key = sdk.text (sdk.setScale parsed pair.pairDecimals)) := by
    intro at' id key hqueued
    subst hmoved
    exact hqueued.of_moveOff hsdk hpair h.keyed
  have hmovedRests : sdk.Rests symbol moved :=
    ⟨hkeyed, h.once.of_queued fun hqueued => (hleft hqueued).1⟩
  split
  · exact ⟨hmovedRests, fun _ _ _ herr => nomatch herr⟩
  rename_i qty hqty
  split
  · exact ⟨hmovedRests, fun _ _ _ herr => nomatch herr⟩
  -- the order itself is at its new price, and every other where it was
  have hqueued : ∀ {at' : BookDirection} {id key : String}, sdk.QueuedAt (sdk.update {
      direction := direction, id := order.orderID
      price := sdk.setScale parsed pair.pairDecimals
      quantity := sdk.setScale qty pair.lotDecimals
      timestamp := some order.timestamp, silent := true } moved) at' id key → id ≠ "" →
      sdk.QueuedAt b at' id key ∧ ¬ (at' = direction ∧ id = order.orderID) ∨
        at' = direction ∧ id = order.orderID ∧
          key = sdk.text (sdk.setScale parsed pair.pairDecimals) := by
    intro at' id key hq hid
    rcases hq.of_update hsdk with hold | ⟨hat, hown, hkey, -⟩
    · by_cases hown : at' = direction ∧ id = order.orderID
      · exact .inr ⟨hown.1, hown.2, (hleft hold).2 hown.1 hown.2 (hown.2 ▸ hid)⟩
      · exact .inl ⟨(hleft hold).1, hown⟩
    · exact .inr ⟨hat, hown, hkey⟩
  refine ⟨⟨hkeyed.update hsdk hpair rfl, fun at' id key key' hid hkey hkey' => ?_⟩, ?_⟩
  · rcases hqueued hkey hid with ⟨hold, hother⟩ | ⟨hat, hown, hkey⟩
    · rcases hqueued hkey' hid with ⟨hold', -⟩ | ⟨hat, hown, -⟩
      · exact h.once at' id key key' hid hold hold'
      · exact absurd ⟨hat, hown⟩ hother
    · rcases hqueued hkey' hid with ⟨-, hother⟩ | ⟨-, -, hkey'⟩
      · exact absurd ⟨hat, hown⟩ hother
      · rw [hkey, hkey']
  · intro hdelete hid applied _ key hq
    rw [if_pos hdelete] at hquantity
    rw [← hquantity] at hqty
    obtain ⟨hold, hgone⟩ := hq.of_remove hsdk (hsdk.parsedZero qty pair.lotDecimals hqty)
    exact hgone ⟨rfl, rfl, (hleft hold).2 rfl rfl hid⟩

/-- A delete that found no level to take its price from is queued nowhere. -/
theorem not_queuedAt_of_priced (hsdk : sdk.Queues) (hkeyed : sdk.Keyed symbol b)
    {direction : BookDirection} {order : Level3Order}
    (hdelete : order.event = "delete")
    (hnone : (sdk.priced b direction order).limitPrice = none) (key : String) :
    ¬ sdk.QueuedAt b direction order.orderID key := by
  rintro ⟨level, hlevel, hqueued⟩
  have hlimit : order.limitPrice = none := by
    by_contra hsome
    rw [Sdk.priced, if_neg fun hboth => hsome hboth.2] at hnone
    exact hsome hnone
  rw [Sdk.priced, if_pos ⟨hdelete, hlimit⟩] at hnone
  have hmem : level ∈ (sdk.keys b direction).filterMap (sdk.level b direction) :=
    List.mem_filterMap.mpr ⟨key, hsdk.ranged b direction key level hlevel, hlevel⟩
  cases hfind : sdk.findLevel b direction order.orderID with
  | none =>
    rw [Sdk.findLevel, List.find?_eq_none] at hfind
    exact hfind level hmem (decide_eq_true hqueued)
  | some found =>
    obtain ⟨key', hkey', hfound⟩ := List.mem_filterMap.mp (List.mem_of_find?_eq_some hfind)
    obtain ⟨pair, price, -, hprice, -⟩ := hkeyed direction key' found hfound
    simp [hfind, hprice] at hnone

/-- The turn of an order keeps every order at one price, and a delete that is not
refused leaves its order at none. -/
theorem Rests.applyOrder (hsdk : sdk.Queues) (h : sdk.Rests symbol b)
    (direction : BookDirection) (order : Level3Order) :
    sdk.Rests symbol (sdk.applyOrder symbol direction order b).1 ∧
      (order.event = "delete" → order.orderID ≠ "" → ∀ applied,
        (sdk.applyOrder symbol direction order b).2 = .ok applied → ∀ key,
          ¬ sdk.QueuedAt (sdk.applyOrder symbol direction order b).1 direction
            order.orderID key) := by
  unfold Sdk.applyOrder
  split
  · exact ⟨h, fun _ _ _ herr => nomatch herr⟩
  rename_i pair hpair
  split
  · exact ⟨h, fun _ _ _ herr => nomatch herr⟩
  rename_i limitPrice _
  split
  · exact ⟨h, fun _ _ _ herr => nomatch herr⟩
  rename_i orderQty _
  dsimp only
  -- what is rounded keeps the event and the id of the order
  have hsame : ∀ canonical : Level3Order, (sdk.priced b direction canonical).event =
      canonical.event ∧ (sdk.priced b direction canonical).orderID = canonical.orderID := by
    intro canonical
    unfold Sdk.priced
    split <;> exact ⟨rfl, rfl⟩
  generalize hcanonical :
    { order with limitPrice := limitPrice, orderQty := orderQty } = canonical
  have hcanon : canonical.event = order.event ∧ canonical.orderID = order.orderID := by
    rw [← hcanonical]
    exact ⟨rfl, rfl⟩
  obtain ⟨hevent, hid⟩ := hsame canonical
  rw [hcanon.1] at hevent
  rw [hcanon.2] at hid
  split
  · rename_i hnone
    refine ⟨h, fun hdelete _ _ _ => ?_⟩
    rw [← hcanon.2]
    exact not_queuedAt_of_priced hsdk h.keyed (hcanon.1.trans hdelete) hnone
  · rename_i limit _
    obtain ⟨hrests, hgone⟩ :=
      h.applyPriced hsdk hpair direction (sdk.priced b direction canonical) limit
    rw [hevent, hid] at hgone
    exact ⟨hrests, hgone⟩

/-! ## Whole runs -/

/-- Where every order is at hand, each rests at one price. -/
theorem AtHand.rests (hsdk : sdk.Queues) (h : sdk.AtHand symbol b) : sdk.Rests symbol b := by
  induction h with
  | created depth =>
    have hempty : ∀ direction orderID key,
        ¬ sdk.QueuedAt (sdk.createBook symbol depth) direction orderID key := by
      rintro direction orderID key ⟨level, hlevel, -⟩
      rw [hsdk.created] at hlevel
      cases hlevel
    refine ⟨fun direction key level hlevel => ?_, fun direction orderID key key' _ hkey _ => ?_⟩
    · rw [hsdk.created] at hlevel
      cases hlevel
    · exact absurd hkey (hempty direction orderID key)
  | turn direction order _ ih => exact (ih.applyOrder hsdk direction order).1
  | depth _ ih =>
    refine ⟨fun direction key level hlevel => ?_, ih.once.of_queued ?_⟩
    · exact ih.keyed direction key level (hsdk.depth _ direction key level hlevel)
    · rintro direction orderID key ⟨level, hlevel, hqueued⟩
      exact ⟨level, hsdk.depth _ direction key level hlevel, hqueued⟩

/-- A list of orders keeps every order at hand, one after the other. -/
theorem AtHand.applyOrders {direction : BookDirection} (orders : List Level3Order)
    (h : sdk.AtHand symbol b) :
    sdk.AtHand symbol (sdk.applyOrders symbol direction orders b).1 := by
  induction orders generalizing b with
  | nil => exact h
  | cons order rest ih =>
    have hturn : sdk.AtHand symbol (sdk.applyOrder symbol direction order b).1 :=
      h.turn direction order
    rw [Sdk.applyOrders]
    split
    · rename_i b' err hap
      rwa [hap] at hturn
    · rename_i b' applied hap
      rw [hap] at hturn
      have hrest := ih hturn
      split <;> simp_all

/-- So does an entry, with its bids and its asks. -/
theorem AtHand.applyData (data : Level3Data) (h : sdk.AtHand data.symbol b) :
    sdk.AtHand data.symbol (sdk.applyData data b).1 := by
  unfold Sdk.applyData
  have hbids : sdk.AtHand data.symbol (sdk.applyOrders data.symbol .bid data.bids b).1 :=
    h.applyOrders data.bids
  split
  · rename_i hap
    rwa [hap] at hbids
  · rename_i b' bids hap
    rw [hap] at hbids
    have hasks : sdk.AtHand data.symbol (sdk.applyOrders data.symbol .ask data.asks b').1 :=
      hbids.applyOrders data.asks
    split
    · rename_i hap'
      rwa [hap'] at hasks
    · rename_i hap'
      rw [hap'] at hasks
      dsimp only
      split <;> exact hasks.depth

end Sdk

namespace Book

variable {β ν : Type} {sdk : Sdk β ν}

/-- Every book of the collection is one of its symbol's. -/
def AllAtHand (sdk : Sdk β ν) (book : Book β) : Prop :=
  ∀ symbol b, book.books.lookup symbol = some b → sdk.AtHand symbol b

theorem AllAtHand.insert {book : Book β} (h : book.AllAtHand sdk) {symbol : String} {b : β}
    (hb : sdk.AtHand symbol b) :
    ({ book with books := book.books.insert symbol b } : Book β).AllAtHand sdk := by
  intro s c hlookup
  by_cases hs : s = symbol
  · subst hs
    rw [AList.lookup_insert] at hlookup
    exact Option.some.inj hlookup ▸ hb
  · rw [AList.lookup_insert_ne hs] at hlookup
    exact h s c hlookup

theorem AllAtHand.congr {book after : Book β} (h : book.AllAtHand sdk)
    (hbooks : after.books = book.books) : after.AllAtHand sdk := by
  intro symbol b hlookup
  rw [hbooks] at hlookup
  exact h symbol b hlookup

/-- A book that is opened is the one there was, or a new and empty one. -/
theorem AllAtHand.openBook {book : Book β} (h : book.AllAtHand sdk) (type symbol : String)
    (depth : Int) :
    (book.openBook sdk type symbol depth).1.AllAtHand sdk ∧
      sdk.AtHand symbol (book.openBook sdk type symbol depth).2 := by
  unfold Book.openBook
  split
  · exact ⟨(h.insert (.created depth)).congr rfl, .created depth⟩
  · split
    · rename_i b hb
      exact ⟨h, h symbol b hb⟩
    · exact ⟨h.insert (.created depth), .created depth⟩

/-- An entry keeps the orders of all books at hand, also where it is refused. -/
theorem AllAtHand.applyEntry {book : Book β} (h : book.AllAtHand sdk) (type : String)
    (env : EntryEnv) (data : Level3Data) : (book.applyEntry sdk type env data).1.AllAtHand sdk := by
  unfold Book.applyEntry
  split
  · exact h
  dsimp only
  split
  · rename_i entry hentry
    by_cases htype : type = "snapshot"
    · simp [htype] at hentry
    · rw [if_neg htype] at hentry
      intro symbol b hlookup
      rw [((dropDelta_spec hentry).2 symbol).books] at hlookup
      exact h symbol b hlookup
  split
  · exact h
  obtain ⟨hopened, hb⟩ := h.openBook type data.symbol env.depth
  generalize book.openBook sdk type data.symbol env.depth = opened at hopened hb ⊢
  obtain ⟨book', b⟩ := opened
  have hafter : sdk.AtHand data.symbol (sdk.applyData { data with type := type } b).1 :=
    Sdk.AtHand.applyData { data with type := type } hb
  dsimp only at hopened ⊢
  generalize sdk.applyData { data with type := type } b = applied at hafter ⊢
  -- the book is written back whatever came of the entry
  have hwritten := hopened.insert hafter
  -- and a mark leaves the books
  have hmarked : ∀ fault : Sdk.EntryFault, (invalidate fault type { data with type := type }
      { book' with books := book'.books.insert data.symbol applied.1 }).1.AllAtHand sdk :=
    fun fault => hwritten.congr (invalidate_spec fault type _ _).2.1
  split
  · exact hwritten
  · exact hmarked _
  · exact hwritten
  · exact hmarked _

theorem AllAtHand.apply (type : String) (data : List (EntryEnv × Level3Data)) {book : Book β}
    (h : book.AllAtHand sdk) : (book.apply sdk type data).book.AllAtHand sdk := by
  induction data generalizing book with
  | nil => exact h
  | cons first rest ih =>
    obtain ⟨env, data⟩ := first
    have hentry := h.applyEntry type env data
    rw [Book.apply]
    generalize book.applyEntry sdk type env data = turn at hentry ⊢
    obtain ⟨after, outcome⟩ := turn
    cases outcome with
    | failed err => exact hentry
    | skipped => exact ih hentry
    | accepted accepted =>
      obtain ⟨lastTouch, hsame⟩ := recordTouch_eq sdk accepted after
      refine ih ?_
      rw [hsame]
      exact hentry.congr rfl

theorem AllAtHand.update {book : Book β} (h : book.AllAtHand sdk) (payload : Level3) :
    (book.update sdk payload).1.AllAtHand sdk := by
  have hentries := h.apply payload.type payload.data
  unfold Book.update
  dsimp only
  split
  · exact hentries
  · exact hentries.congr (foldl_publish_spec payload.type _ _).1

/-- In every run of `Update`, after every order of every frame, an order is queued
in at most one level of each side of a book, and a delete that was not refused
has left its order in none. -/
theorem rests_at_one_price (hsdk : sdk.Queues) (ready : Bool) (frames : List Level3) :
    (runFrom (fun book payload => (book.update sdk payload).1) (new ready) frames).AllAtHand sdk ∧
    ∀ symbol b, sdk.AtHand symbol b → sdk.RestsOnce b ∧
      ∀ direction (order : Level3Order) applied, order.event = "delete" → order.orderID ≠ "" →
        (sdk.applyOrder symbol direction order b).2 = .ok applied → ∀ key,
          ¬ sdk.QueuedAt (sdk.applyOrder symbol direction order b).1 direction
            order.orderID key := by
  constructor
  · refine always_runFrom (fun book payload h => h.update payload) ?_ frames
    intro symbol b hlookup
    change (∅ : AList fun _ : String => β).lookup symbol = some b at hlookup
    rw [AList.lookup_empty] at hlookup
    cases hlookup
  · intro symbol b hhand
    have hrests : sdk.Rests symbol b := hhand.rests hsdk
    refine ⟨hrests.once, fun direction order applied hdelete hid hap key => ?_⟩
    exact (hrests.applyOrder hsdk direction order).2 hdelete hid applied hap key

end Book

/-! ## A book of resting orders -/

/-- The decimals of the sample, with their text at one decimal. -/
def sampleTicks : List (Decimal × String) :=
  [(0, "0.0"), (3 / 10, "0.3"), (2 / 5, "0.4"), (1 / 2, "0.5"), (1, "1.0")]

/-- Books as lists of resting orders, with their direction, price, id and
quantity; a decimal is its text. -/
def sampleTickSdk : Sdk (List (BookDirection × String × String × String)) String where
  createBook _ _ := []
  keys b direction := (b.filter (·.1 = direction)).map (·.2.1)
  level b direction key :=
    match b.filter fun order => order.1 = direction ∧ order.2.1 = key with
    | [] => none
    | order :: rest => some ⟨some key, (order :: rest).map (·.2.2.1)⟩
  update o b :=
    let others := b.filter fun order =>
      ¬ (order.1 = o.direction ∧ order.2.1 = o.price ∧ order.2.2.1 = o.id)
    if o.quantity = "0.0" then others else others ++ [(o.direction, o.price, o.id, o.quantity)]
  enforceDepth b := b
  l3Checksum b server := ⟨server = toString b.length, server, toString b.length, "", ""⟩
  best b direction := ((b.filter (·.1 = direction)).head?).map fun order =>
    ⟨some order.2.1, some order.2.2.2⟩
  pairInfo _ := some ⟨1, 1⟩
  parse value := (sampleTicks.find? (·.1 = value)).map (·.2)
  setScale value _ := value
  zero := "0.0"
  cmp p q := if p = q then .eq else if p < q then .lt else .gt
  text price := price
  value price := ((sampleTicks.find? (·.2 = price)).map (·.1)).getD 0

/-- The level of this SDK at a price has the orders at it. -/
theorem sampleTickSdk_level {b : List (BookDirection × String × String × String)}
    {direction : BookDirection} {key : String} {level : QueuedLevel String} :
    sampleTickSdk.level b direction key = some level ↔
      (∃ order ∈ b, order.1 = direction ∧ order.2.1 = key) ∧ level = ⟨some key,
        (b.filter fun order => order.1 = direction ∧ order.2.1 = key).map (·.2.2.1)⟩ := by
  have hmem : (∃ order ∈ b, order.1 = direction ∧ order.2.1 = key) ↔
      (b.filter fun order => order.1 = direction ∧ order.2.1 = key) ≠ [] := by
    simp [List.filter_eq_nil_iff]
  rw [hmem]
  simp only [sampleTickSdk]
  cases b.filter fun order => order.1 = direction ∧ order.2.1 = key with
  | nil => simp
  | cons order rest => simp [eq_comm]

theorem sampleTickSdk_queuedAt {b : List (BookDirection × String × String × String)}
    {direction : BookDirection} {orderID key : String} :
    sampleTickSdk.QueuedAt b direction orderID key ↔
      ∃ quantity, (direction, key, orderID, quantity) ∈ b := by
  constructor
  · rintro ⟨level, hlevel, hqueued⟩
    obtain ⟨-, rfl⟩ := sampleTickSdk_level.mp hlevel
    obtain ⟨⟨d, k, id, quantity⟩, hfilter, rfl⟩ := List.mem_map.mp hqueued
    obtain ⟨hmem, hwhere⟩ := List.mem_filter.mp hfilter
    obtain ⟨rfl, rfl⟩ : d = direction ∧ k = key := by simpa using hwhere
    exact ⟨quantity, hmem⟩
  · rintro ⟨quantity, hmem⟩
    refine ⟨_, sampleTickSdk_level.mpr ⟨⟨_, hmem, rfl, rfl⟩, rfl⟩, ?_⟩
    exact List.mem_map.mpr ⟨_, List.mem_filter.mpr ⟨hmem, by simp⟩, rfl⟩

theorem sampleTickSdk_cmp {p q : String} : sampleTickSdk.cmp p q = .eq ↔ p = q := by
  simp only [sampleTickSdk]
  split
  · simp_all
  · split <;> simp_all

/-- It keeps its queues as the real one documents. -/
theorem sampleTickSdk_queues : sampleTickSdk.Queues where
  created symbol depth direction key := rfl
  ranged b direction key level hlevel := by
    obtain ⟨⟨order, hmem, hwhere⟩, -⟩ := sampleTickSdk_level.mp hlevel
    exact List.mem_map.mpr ⟨order, List.mem_filter.mpr ⟨hmem, decide_eq_true hwhere.1⟩, hwhere.2⟩
  inside o b orderID := by
    rw [ne_eq, sampleTickSdk_cmp]
    simp only [sampleTickSdk_queuedAt]
    simp only [sampleTickSdk]
    split <;> split <;> simp_all
  price o b level hlevel := by
    obtain ⟨-, rfl⟩ := sampleTickSdk_level.mp hlevel
    exact .inl rfl
  outside o b direction key hother := by
    have hsame : (sampleTickSdk.update o b).filter
          (fun order => order.1 = direction ∧ order.2.1 = key) =
        b.filter fun order => order.1 = direction ∧ order.2.1 = key := by
      have hothers : (b.filter fun order =>
            ¬ (order.1 = o.direction ∧ order.2.1 = o.price ∧ order.2.2.1 = o.id)).filter
            (fun order => order.1 = direction ∧ order.2.1 = key) =
          b.filter fun order => order.1 = direction ∧ order.2.1 = key := by
        rw [List.filter_filter]
        refine List.filter_congr fun order _ => ?_
        by_cases hwhere : order.1 = direction ∧ order.2.1 = key
        · have hown : ¬ (order.1 = o.direction ∧ order.2.1 = o.price ∧ order.2.2.1 = o.id) :=
            fun hown => hother ⟨hwhere.1 ▸ hown.1, hwhere.2 ▸ hown.2.1⟩
          rw [decide_eq_true hwhere, decide_eq_true hown, Bool.and_self]
        · simp [hwhere]
      have hnew : ¬ (o.direction = direction ∧ o.price = key) :=
        fun hnew => hother ⟨hnew.1.symm, hnew.2.symm⟩
      simp only [sampleTickSdk]
      split
      · exact hothers
      · rw [List.filter_append, hothers]
        simp [hnew]
    simp only [sampleTickSdk] at hsame ⊢
    rw [hsame]
  depth b direction key level hlevel := hlevel
  sameText p q scale hcmp := sampleTickSdk_cmp.mp hcmp
  zero scale := sampleTickSdk_cmp.mpr rfl
  parsedZero qty scale hparse := by
    have hqty : some qty = some "0.0" := hparse.symm.trans (by decide +kernel)
    exact sampleTickSdk_cmp.mpr (Option.some.inj hqty)

/-- A snapshot queues two bids, a modify moves the first, and a delete without a
price takes off the second. -/
def sampleMoves : List Level3 := [
  ⟨"snapshot", [(⟨false, 10⟩, {
    symbol := "A/B", type := "", timestamp := 1, checksum := 0
    bids := [⟨"add", "o1", some (1 / 2), some 1, 1⟩, ⟨"add", "o2", some (3 / 10), some 1, 1⟩]
    asks := [] })]⟩,
  ⟨"update", [(⟨false, 10⟩, {
    symbol := "A/B", type := "", timestamp := 2, checksum := 0
    bids := [⟨"modify", "o1", some (2 / 5), some 1, 2⟩, ⟨"delete", "o2", none, none, 2⟩]
    asks := [] })]⟩]

namespace Book

/-- An order that was moved twice rests at the last price alone. -/
theorem rests_at_one_price_sample :
    (runFrom (fun book payload => (book.update sampleTickSdk payload).1) (new true)
      sampleMoves).books.lookup "A/B" = some [(.bid, "0.4", "o1", "1.0")] ∧
    sampleTickSdk.RestsOnce [(.bid, "0.4", "o1", "1.0")] := by
  have hbook : (runFrom (fun book payload => (book.update sampleTickSdk payload).1) (new true)
      sampleMoves).books.lookup "A/B" = some [(.bid, "0.4", "o1", "1.0")] := by
    decide +kernel
  obtain ⟨hall, hrests⟩ := rests_at_one_price sampleTickSdk_queues true sampleMoves
  exact ⟨hbook, (hrests "A/B" _ (hall "A/B" _ hbook)).1⟩

end Book

end Symm.Broker
