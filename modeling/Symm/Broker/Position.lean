import Symm.Broker.Price
import Symm.Broker.Stoploss

/-!
# Lots (`broker/position.go`)

A `*Position` is shared between the caches and the pending map of its tier, so
tiers keep their lots in an arena and refer to them by address (`LotId`). This
module is about one lot. `Position.update` returns the lot and whether its
settle callback was invoked; the tier runs the callback.

A restored lot has neither a price nor a callback (`Cache.Restore` leaves both
unset), which `hasPrice` and `hasOnSettled` record.

- `heldQty`, `entryPrice`, `readExit`, `readPnL`: the loops and readings of `Update`, in
  the order in which the code makes them;
- `update`, `apply`, `enter`, `exit`: the calls;
- `update_cases`: what an update can do, from which the rest of the module derives what
  marks and reports keep;
- `LotCall`: what is common to marks and reports as far as a tier is concerned: the lot
  keeps its identity, and a callback means that it has just been closed with a known
  return.

What is read from outside is one argument, `Env`: the clocks, the configuration, the
books and fees, fresh ids, and whether writes and sends succeed. A call is a function of
it and of the lot, and a run hands each event its own.
-/

namespace Symm.Broker

open Symm.System

/-- The address of a `*Position` inside its tier. -/
abbrev LotId := Nat

/-- Wall-clock instants in nanoseconds; `0` is Go's zero time. -/
abbrev Time := Nat

/-- The members of `spot.OrderRequest` that the desk sets. `volume` is the
number its text denotes, `none` when the text is empty or no decimal. -/
structure OrderRequest where
  clOrdId : String
  orderType : String
  side : String
  volume : Option Decimal
  deriving DecidableEq

/-- The members of `kraken.ExecutionData` that a lot reads. -/
structure ExecutionData where
  clientOrderID : String
  execID : String
  symbol : String
  side : String
  lastQty : Option Decimal
  lastPrice : Option Decimal
  cumQty : Option Decimal
  avgPrice : Option Decimal
  deriving DecidableEq

/-- The report traded a positive quantity. -/
def ExecutionData.traded (execution : ExecutionData) : Bool := execution.lastQty.any (0 < ·)

/-- `Position`. -/
structure Position where
  hasPrice : Bool
  hasOnSettled : Bool
  stoploss : Option Stoploss
  id : String
  book : String
  entryPath : String
  holdPaths : List String
  exitPath : String
  exitTrigger : String
  outcomeTriggers : List String
  symbol : String
  openedAt : Time
  closedAt : Option Time
  updatedAt : Option Time
  policyEpoch : Nat
  entryTick : Nat
  exitTick : Nat
  entryOrder : Option OrderRequest
  exitOrder : Option OrderRequest
  fills : List ExecutionData
  mark : Option Decimal
  exitVWAP : Option Decimal
  exitRoom : Option Decimal
  pnl : Option Decimal
  pnlPct : Option Decimal
  deriving DecidableEq

/-- An order in which Go ranges over the lots of a map. -/
structure MapOrder where
  visit : List LotId → List LotId
  perm : ∀ ids, (visit ids).Perm ids

def MapOrder.asListed : MapOrder := ⟨id, List.Perm.refl⟩

/-- What one call reads from outside the desk: the clocks, the configuration,
the books and fees behind `price`, the mark-arrival pace of each lot, fresh
uuids, whether marshalling and the transport's write succeed, and the order in
which a settlement ranges over the closed lots. -/
structure Env where
  now : Time
  epoch : Nat
  tick : Nat
  cfg : Cfg
  price : Price
  pace : LotId → ℚ
  uuid : Nat → String
  marshalOk : Bool
  writeOk : Bool
  order : MapOrder := .asListed

/-- Why an entry was denied; `gate` is `EntryDenial.Gate`. -/
inductive EntryDenial
  | physical (reason : PhysicalRefusal)
  | size (reason : SizeRefusal)
  | cannotSize (symbol : String)
  deriving DecidableEq

def EntryDenial.gate : EntryDenial → String
  | .physical _ => "physical"
  | .size _ => "size"
  | .cannotSize _ => "size"

/-- The errors of `Tier.Enter`, `Tier.Exit` and what they call. A panicking
task is recovered by the pool that runs it, and no panic has written a lot. -/
inductive TierError
  | notUnlocked
  | denied (denial : EntryDenial)
  | alreadyExists
  | missingPath (symbol : String)
  | marshalFailed
  | writeFailed
  | panicked (fault : Fault)
  deriving DecidableEq

namespace Position

/-- `NewPosition`. -/
def new (symbol tierKey path id : String) : Position where
  hasPrice := true
  hasOnSettled := true
  stoploss := none
  id := id
  book := tierKey
  entryPath := path
  holdPaths := []
  exitPath := ""
  exitTrigger := ""
  outcomeTriggers := []
  symbol := symbol
  openedAt := 0
  closedAt := none
  updatedAt := none
  policyEpoch := 0
  entryTick := 0
  exitTick := 0
  entryOrder := none
  exitOrder := none
  fills := []
  mark := none
  exitVWAP := none
  exitRoom := none
  pnl := none
  pnlPct := none

/-- The first loop of `Update`: buys report the running total of their order
when they carry one, sells are deducted and floored at zero. -/
def heldQty : List ExecutionData → Option Decimal → Option Decimal
  | [], qty => qty
  | fill :: rest, qty =>
    match fill.lastQty with
    | none => heldQty rest qty
    | some lastQty =>
      if lastQty ≤ 0 then heldQty rest qty
      else if fill.side.toLower = "buy" then
        match fill.cumQty.filter (0 < ·), qty with
        | some cumQty, _ => heldQty rest (some cumQty)
        | none, none => heldQty rest (some lastQty)
        | none, some held => heldQty rest (some (held + lastQty))
      else if fill.side.toLower = "sell" then
        match qty with
        | some held => heldQty rest (some (if held - lastQty ≤ 0 then 0 else held - lastQty))
        | none => heldQty rest none
      else heldQty rest qty

/-- The quantity `Update` prices: from the fills, else the entry order's. -/
def quantity (position : Position) : Option Decimal :=
  match heldQty position.fills none with
  | some qty => some qty
  | none => (position.entryOrder.bind OrderRequest.volume).filter (0 < ·)

/-- The second loop of `Update`: the last positive average (or last) price of
a buy. -/
def entryPrice (position : Position) : Option Decimal :=
  position.fills.foldl (fun entry fill =>
    if fill.side.toLower = "buy" then
      match fill.avgPrice.filter (0 < ·), fill.lastPrice.filter (0 < ·) with
      | some avgPrice, _ => some avgPrice
      | none, some lastPrice => some lastPrice
      | none, none => entry
    else entry) none

/-- The exit reading that `Update` refreshes. -/
def readExit (env : Env) (position : Position) : Position :=
  { position with
    updatedAt := some env.now
    exitVWAP := env.price.exitVWAP position.symbol position.quantity
    exitRoom := env.price.exitRoom position.symbol position.quantity }

/-- The open PnL that `Update` refreshes; an unpriced round trip keeps the old
one. -/
def readPnL (env : Env) (position : Position) : Position :=
  let qty := position.quantity
  let entry := position.entryPrice
  let fee := env.price.fee position.symbol
  match env.price.roundTrip position.symbol qty entry fee fee with
  | some (newPnL, _) =>
    { position with
      pnl := some newPnL
      pnlPct := env.price.roundTripPct position.symbol qty entry fee fee }
  | none => position

/-- The first known return of an open lot arms its stop. -/
def arm (env : Env) (position : Position) : Position :=
  match position.pnlPct with
  | some pnlPct =>
    if position.stoploss.isNone ∧ position.closedAt.isNone then
      { position with stoploss := some (Stoploss.new env.cfg.risk.maxAllowedLossPct pnlPct) }
    else position
  | none => position

/-- The pricing block of `Update`. -/
def reprice (env : Env) (position : Position) : Position :=
  ((position.readExit env).readPnL env).arm env

/-- `Update` keeps a nil mark out. -/
def setMark (mark : Option Decimal) (position : Position) : Position :=
  { position with mark := mark.orElse fun _ => position.mark }

/-- The state `Update` reaches before it looks at the stop. -/
def marked (env : Env) (mark : Option Decimal) (position : Position) : Position :=
  if position.hasPrice then (position.setMark mark).reprice env else position.setMark mark

/-- The stop and the return that `Update` judges: those of an open lot. -/
def liveStop (position : Position) : Option (Stoploss × ℚ) :=
  if position.closedAt.isSome then none
  else position.stoploss.bind fun stoploss => position.pnlPct.map (stoploss, ·)

/-- Record the state of the stop. -/
def setStop (stoploss : Stoploss) (position : Position) : Position :=
  { position with stoploss := some stoploss }

/-- The record `Update` makes of a triggered stop. -/
def stopOut (env : Env) (position : Position) : Position :=
  { position with
    exitTrigger := "stoploss"
    outcomeTriggers := ["stoploss"]
    closedAt := some env.now
    exitTick := env.tick }

/-- `Position.Update`. The flag says that `onSettled` was called. -/
def update (env : Env) (pace : ℚ) (mark : Option Decimal) (position : Position) :
    Position × Bool :=
  let position := position.marked env mark
  match position.liveStop with
  | none => (position, false)
  | some (stoploss, pnlPct) =>
    let stoploss := stoploss.update pnlPct pace
    let position := position.setStop stoploss
    if stoploss.triggered then (position.stopOut env, position.hasOnSettled)
    else (position, false)

/-- The stop of an open lot fires at this mark. -/
def fires (env : Env) (pace : ℚ) (mark : Option Decimal) (position : Position) : Bool :=
  match (position.marked env mark).liveStop with
  | none => false
  | some (stoploss, pnlPct) => (stoploss.update pnlPct pace).triggered

/-- `Position.Enter` records the buy and the sell order of the same volume. A
missing size is allocated from `wallet`. -/
def enter (env : Env) (path : String) (qty : Option Decimal) (wallet : Option Balance)
    (position : Position) : Except TierError Position :=
  if path = "" then .error (.missingPath position.symbol)
  else
    let sized : Except TierError Decimal :=
      match qty.filter (0 < ·) with
      | some qty => .ok qty
      | none => match env.price.allocate env.cfg.risk position.symbol wallet with
        | .error fault => .error (.panicked fault)
        | .ok (.error why) => .error (.denied (.size why))
        | .ok (.ok qty) =>
          if qty ≤ 0 then .error (.denied (.cannotSize position.symbol)) else .ok qty
    sized.map fun vol => { position with
      entryOrder := some { clOrdId := env.uuid 1, orderType := "market", side := "buy", volume := some vol }
      exitOrder := some { clOrdId := env.uuid 2, orderType := "market", side := "sell", volume := some vol }
      openedAt := env.now
      policyEpoch := env.epoch
      entryTick := env.tick
      entryPath := path }

/-- `Position.Exit` records the sell and reprices from the bid book. -/
def exit (env : Env) (pace : ℚ) (path : String) (position : Position) :
    Except TierError (Position × Bool) :=
  if path = "" ∧ position.exitTrigger = "" then .error (.missingPath position.symbol)
  else
    let position := if position.exitTrigger = "" then
        { position with
          exitTrigger := "policy exit match " ++ path
          outcomeTriggers := ["policy exit match " ++ path] }
      else position
    if position.closedAt.isSome then .ok (position, false)
    else
      let position := { position with
        closedAt := some env.now
        exitPath := if path ≠ "" ∧ path ≠ position.entryPath then path else position.exitPath
        exitTick := env.tick }
      .ok (position.update env pace position.mark)

/-- The mark `Apply` reprices with: the lot's own, else the price of a buy. -/
def applyMark (position : Position) (execution : ExecutionData) : Option Decimal :=
  match position.mark with
  | some mark => some mark
  | none =>
    if execution.side.toLower = "buy" then
      match execution.avgPrice.filter (0 < ·) with
      | some avgPrice => some avgPrice
      | none => execution.lastPrice.filter (0 < ·)
    else none

/-- Append a report to the fills. -/
def addFill (execution : ExecutionData) (position : Position) : Position :=
  { position with fills := position.fills ++ [execution] }

/-- `Apply` replaces a zero close time, as a restored lot may carry one. -/
def stampClose (env : Env) (position : Position) : Position :=
  if position.closedAt = some 0 then { position with closedAt := some env.now } else position

/-- `Position.Apply`: record the report, and reprice if it traded. -/
def apply (env : Env) (pace : ℚ) (execution : ExecutionData) (position : Position) :
    Position × Bool :=
  if ¬ execution.traded then (position.addFill execution, false)
  else ((position.addFill execution).stampClose env).update env pace (position.applyMark execution)

/-- The stop of an open lot fires when this report is applied. -/
def firesOn (env : Env) (pace : ℚ) (execution : ExecutionData) (position : Position) : Bool :=
  execution.traded &&
    ((position.addFill execution).stampClose env).fires env pace (position.applyMark execution)

/-- Whether a report's `cl_ord_id` names one of the lot's two orders. -/
def carries (position : Position) (clOrdId : String) : Bool :=
  (position.entryOrder.map OrderRequest.clOrdId = some clOrdId) ||
    (position.exitOrder.map OrderRequest.clOrdId = some clOrdId)

/-- The venue volume of the lot: that of its entry order. -/
def volume (position : Position) : Decimal :=
  (position.entryOrder.bind OrderRequest.volume).getD 0

/-! ## What a call can do to a lot -/

/-- The members that marks and stops never write. -/
structure SameLot (p q : Position) : Prop where
  hasPrice : q.hasPrice = p.hasPrice
  hasOnSettled : q.hasOnSettled = p.hasOnSettled
  id : q.id = p.id
  symbol : q.symbol = p.symbol
  entryPath : q.entryPath = p.entryPath
  holdPaths : q.holdPaths = p.holdPaths
  exitPath : q.exitPath = p.exitPath
  entryOrder : q.entryOrder = p.entryOrder
  exitOrder : q.exitOrder = p.exitOrder

theorem SameLot.refl (p : Position) : SameLot p p := ⟨rfl, rfl, rfl, rfl, rfl, rfl, rfl, rfl, rfl⟩

theorem SameLot.trans {p q r : Position} (h : SameLot p q) (h' : SameLot q r) : SameLot p r where
  hasPrice := h'.hasPrice.trans h.hasPrice
  hasOnSettled := h'.hasOnSettled.trans h.hasOnSettled
  id := h'.id.trans h.id
  symbol := h'.symbol.trans h.symbol
  entryPath := h'.entryPath.trans h.entryPath
  holdPaths := h'.holdPaths.trans h.holdPaths
  exitPath := h'.exitPath.trans h.exitPath
  entryOrder := h'.entryOrder.trans h.entryOrder
  exitOrder := h'.exitOrder.trans h.exitOrder

theorem SameLot.volume {p q : Position} (h : SameLot p q) : q.volume = p.volume := by
  simp only [Position.volume, h.entryOrder]

section Marks

variable (env : Env) (mark : Option Decimal) (p : Position)

/-- Reading the return changes neither the identity, the close time nor the fills. -/
theorem readPnL_spec : SameLot p (p.readPnL env) ∧
    (p.readPnL env).closedAt = p.closedAt ∧ (p.readPnL env).fills = p.fills := by
  unfold readPnL
  dsimp only
  split
  · exact ⟨⟨rfl, rfl, rfl, rfl, rfl, rfl, rfl, rfl, rfl⟩, rfl, rfl⟩
  · exact ⟨SameLot.refl p, rfl, rfl⟩

theorem arm_spec : SameLot p (p.arm env) ∧
    (p.arm env).closedAt = p.closedAt ∧ (p.arm env).fills = p.fills := by
  unfold arm
  split
  · split
    · exact ⟨⟨rfl, rfl, rfl, rfl, rfl, rfl, rfl, rfl, rfl⟩, rfl, rfl⟩
    · exact ⟨SameLot.refl p, rfl, rfl⟩
  · exact ⟨SameLot.refl p, rfl, rfl⟩

/-- Repricing writes the reading, the PnL and the stop, nothing else. -/
theorem reprice_spec : SameLot p (p.reprice env) ∧
    (p.reprice env).closedAt = p.closedAt ∧ (p.reprice env).fills = p.fills := by
  obtain ⟨hs, hc, hf⟩ := readPnL_spec env (p.readExit env)
  obtain ⟨hs', hc', hf'⟩ := arm_spec env ((p.readExit env).readPnL env)
  have h0 : SameLot p (p.readExit env) := ⟨rfl, rfl, rfl, rfl, rfl, rfl, rfl, rfl, rfl⟩
  exact ⟨(h0.trans hs).trans hs', hc'.trans hc, hf'.trans hf⟩

/-- So does a mark, which also records itself. -/
theorem marked_spec : SameLot p (p.marked env mark) ∧
    (p.marked env mark).closedAt = p.closedAt ∧ (p.marked env mark).fills = p.fills := by
  have h0 : SameLot p (p.setMark mark) := ⟨rfl, rfl, rfl, rfl, rfl, rfl, rfl, rfl, rfl⟩
  unfold marked
  split
  · obtain ⟨hs, hc, hf⟩ := reprice_spec env (p.setMark mark)
    exact ⟨h0.trans hs, hc, hf⟩
  · exact ⟨h0, rfl, rfl⟩

end Marks

/-- A live stop belongs to an open lot with a stop and a return. -/
theorem liveStop_eq_some {p : Position} {stoploss : Stoploss} {pnlPct : ℚ}
    (h : p.liveStop = some (stoploss, pnlPct)) :
    p.closedAt = none ∧ p.stoploss = some stoploss ∧ p.pnlPct = some pnlPct := by
  unfold liveStop at h
  split at h
  · cases h
  · rename_i hc
    simp only [Option.bind_eq_some_iff, Option.map_eq_some_iff, Prod.mk.injEq] at h
    obtain ⟨s, hs, x, hx, rfl, rfl⟩ := h
    exact ⟨by simpa using hc, hs, hx⟩

/-- What an update does: the mark alone where there is no live stop, and else the stop
is moved as well, and may fire. -/
theorem update_cases (env : Env) (pace : ℚ) (mark : Option Decimal) (p : Position) :
    (p.marked env mark).liveStop = none ∧ p.update env pace mark = (p.marked env mark, false) ∨
      ∃ stop pct, (p.marked env mark).liveStop = some (stop, pct) ∧
        ((stop.update pct pace).triggered = true ∧ p.update env pace mark =
            (((p.marked env mark).setStop (stop.update pct pace)).stopOut env,
              (p.marked env mark).hasOnSettled) ∨
          (stop.update pct pace).triggered = false ∧ p.update env pace mark =
            ((p.marked env mark).setStop (stop.update pct pace), false)) := by
  unfold update
  dsimp only
  cases hlive : (p.marked env mark).liveStop with
  | none => exact .inl ⟨rfl, rfl⟩
  | some live =>
    obtain ⟨stop, pct⟩ := live
    refine .inr ⟨stop, pct, rfl, ?_⟩
    dsimp only
    cases (stop.update pct pace).triggered with
    | true => exact .inl ⟨rfl, rfl⟩
    | false => exact .inr ⟨rfl, rfl⟩

/-- A lot whose stop does not fire stays as open or closed as it was and calls
nobody back. -/
theorem update_of_quiet {env : Env} {pace : ℚ} {mark : Option Decimal} {p : Position}
    (h : p.fires env pace mark = false) :
    (p.update env pace mark).2 = false ∧
      (p.update env pace mark).1.closedAt = p.closedAt := by
  have hc := (marked_spec env mark p).2.1
  rcases update_cases env pace mark p with ⟨-, heq⟩ |
    ⟨stop, pct, hlive, ⟨htriggered, -⟩ | ⟨-, heq⟩⟩
  · rw [heq]
    exact ⟨rfl, hc⟩
  · simp only [fires, hlive, htriggered, Bool.true_eq_false] at h
  · rw [heq]
    exact ⟨rfl, hc⟩

/-- A firing stop closes an open lot with a known return and calls back. -/
theorem update_of_fires {env : Env} {pace : ℚ} {mark : Option Decimal} {p : Position}
    (h : p.fires env pace mark = true) :
    p.closedAt = none ∧ (p.update env pace mark).2 = p.hasOnSettled ∧
      (p.update env pace mark).1.closedAt = some env.now ∧
      (p.update env pace mark).1.pnlPct.isSome := by
  obtain ⟨hs, hc, -⟩ := marked_spec env mark p
  rcases update_cases env pace mark p with ⟨hnone, -⟩ |
    ⟨stop, pct, hlive, ⟨-, heq⟩ | ⟨hquiet, -⟩⟩
  · simp only [fires, hnone, Bool.false_eq_true] at h
  · obtain ⟨hopen, -, hpct⟩ := liveStop_eq_some hlive
    rw [heq]
    exact ⟨hc.symm.trans hopen, hs.hasOnSettled, rfl, by simp [stopOut, setStop, hpct]⟩
  · simp only [fires, hlive, hquiet, Bool.false_eq_true] at h

/-- Updating keeps everything but the reading, the PnL, the stop and the
record of the close. -/
theorem update_spec (env : Env) (pace : ℚ) (mark : Option Decimal) (p : Position) :
    SameLot p (p.update env pace mark).1 ∧ (p.update env pace mark).1.fills = p.fills := by
  obtain ⟨hs, -, hf⟩ := marked_spec env mark p
  have hstop : ∀ (q : Position) (stop : Stoploss), SameLot q (q.setStop stop) :=
    fun q stop => ⟨rfl, rfl, rfl, rfl, rfl, rfl, rfl, rfl, rfl⟩
  have hout : ∀ q : Position, SameLot q (q.stopOut env) :=
    fun q => ⟨rfl, rfl, rfl, rfl, rfl, rfl, rfl, rfl, rfl⟩
  rcases update_cases env pace mark p with ⟨-, heq⟩ | ⟨stop, pct, -, ⟨-, heq⟩ | ⟨-, heq⟩⟩
  · rw [heq]
    exact ⟨hs, hf⟩
  · rw [heq]
    exact ⟨(hs.trans (hstop _ _)).trans (hout _), hf⟩
  · rw [heq]
    exact ⟨hs.trans (hstop _ _), hf⟩

/-- Stamping the close sets a close time once, and nothing else of the lot. -/
theorem stampClose_spec (env : Env) (p : Position) :
    SameLot p (p.stampClose env) ∧ (p.stampClose env).fills = p.fills ∧
      ((p.stampClose env).closedAt = none ↔ p.closedAt = none) := by
  unfold stampClose
  split
  · rename_i hc
    exact ⟨⟨rfl, rfl, rfl, rfl, rfl, rfl, rfl, rfl, rfl⟩, rfl, by simp [hc]⟩
  · exact ⟨SameLot.refl p, rfl, Iff.rfl⟩

/-- A report is appended to the fills; the rest is what an update may write. -/
theorem apply_spec (env : Env) (pace : ℚ) (execution : ExecutionData) (p : Position) :
    SameLot p (p.apply env pace execution).1 ∧
      (p.apply env pace execution).1.fills = p.fills ++ [execution] := by
  have h0 : SameLot p (p.addFill execution) := ⟨rfl, rfl, rfl, rfl, rfl, rfl, rfl, rfl, rfl⟩
  obtain ⟨hs, hf, -⟩ := stampClose_spec env (p.addFill execution)
  unfold apply
  split
  · exact ⟨h0, rfl⟩
  · obtain ⟨hu, hfu⟩ := update_spec env pace (p.applyMark execution)
      ((p.addFill execution).stampClose env)
    exact ⟨(h0.trans hs).trans hu, hfu.trans hf⟩

/-- A report that does not fire the stop calls nobody back and opens or closes
nothing. -/
theorem apply_of_quiet {env : Env} {pace : ℚ} {execution : ExecutionData} {p : Position}
    (h : p.firesOn env pace execution = false) :
    (p.apply env pace execution).2 = false ∧
      ((p.apply env pace execution).1.closedAt = none ↔ p.closedAt = none) := by
  unfold firesOn at h
  unfold apply
  split
  · exact ⟨rfl, Iff.rfl⟩
  · rename_i ht
    have hquiet := update_of_quiet (by simpa [not_not.mp ht] using h)
    refine ⟨hquiet.1, ?_⟩
    rw [hquiet.2]
    exact (stampClose_spec env (p.addFill execution)).2.2

/-- A report that fires the stop closes the lot with a known return. -/
theorem apply_of_fires {env : Env} {pace : ℚ} {execution : ExecutionData} {p : Position}
    (h : p.firesOn env pace execution = true) :
    p.closedAt = none ∧ (p.apply env pace execution).2 = p.hasOnSettled ∧
      (p.apply env pace execution).1.closedAt = some env.now ∧
      (p.apply env pace execution).1.pnlPct.isSome := by
  obtain ⟨ht, hf⟩ := Bool.and_eq_true_iff.mp h
  obtain ⟨hc, hs, hclosed, hpct⟩ := update_of_fires hf
  obtain ⟨hsame, -, hnone⟩ := stampClose_spec env (p.addFill execution)
  unfold apply
  rw [if_neg (not_not.mpr ht)]
  exact ⟨hnone.mp hc, hs.trans hsame.hasOnSettled, hclosed, hpct⟩

/-! ## Calls on a lot

`update` and `apply` are all a tier ever does to the lots it holds. What the
tier relies on is the same for both. -/

/-- A call that keeps the identity of a lot, and calls back only for a lot it
has just closed with a known return. -/
structure LotCall (f : Position → Position × Bool) : Prop where
  same : ∀ p, SameLot p (f p).1
  quiet : ∀ p, (f p).2 = false → p.hasOnSettled = true →
    ((f p).1.closedAt = none ↔ p.closedAt = none)
  settled : ∀ p, (f p).2 = true →
    p.closedAt = none ∧ (f p).1.closedAt.isSome ∧ (f p).1.pnlPct.isSome
  owned : ∀ p, (f p).2 = true → p.hasOnSettled = true
  stays : ∀ p, p.closedAt.isSome → (f p).1.closedAt.isSome ∧ (f p).2 = false

/-- A mark settles a lot if it fires its stop and the lot can call back. -/
theorem update_settles (env : Env) (pace : ℚ) (mark : Option Decimal) (p : Position) :
    (p.update env pace mark).2 = (p.fires env pace mark && p.hasOnSettled) := by
  cases h : p.fires env pace mark with
  | false => rw [(update_of_quiet h).1, Bool.false_and]
  | true => rw [(update_of_fires h).2.1, Bool.true_and]

theorem apply_settles (env : Env) (pace : ℚ) (execution : ExecutionData) (p : Position) :
    (p.apply env pace execution).2 = (p.firesOn env pace execution && p.hasOnSettled) := by
  cases h : p.firesOn env pace execution with
  | false => rw [(apply_of_quiet h).1, Bool.false_and]
  | true => rw [(apply_of_fires h).2.1, Bool.true_and]

/-- A mark is a call on a lot as the loops of the tier make it. -/
theorem lotCall_update (env : Env) (pace : ℚ) (mark : Option Decimal) :
    LotCall fun p => p.update env pace mark where
  same p := (update_spec env pace mark p).1
  quiet p h hs := by
    rw [update_settles, hs, Bool.and_true] at h
    rw [(update_of_quiet h).2]
  settled p h := by
    rw [update_settles, Bool.and_eq_true] at h
    obtain ⟨hopen, -, hclosed, hpct⟩ := update_of_fires h.1
    exact ⟨hopen, by rw [hclosed, Option.isSome_some], hpct⟩
  owned p h := by
    rw [update_settles, Bool.and_eq_true] at h
    exact h.2
  stays p hp := by
    have hquiet : p.fires env pace mark = false := by
      by_contra hf
      rw [(update_of_fires (Bool.eq_true_of_not_eq_false hf)).1] at hp
      cases hp
    exact ⟨by rw [(update_of_quiet hquiet).2]; exact hp, (update_of_quiet hquiet).1⟩

theorem lotCall_apply (env : Env) (pace : ℚ) (execution : ExecutionData) :
    LotCall fun p => p.apply env pace execution where
  same p := (apply_spec env pace execution p).1
  quiet p h hs := by
    rw [apply_settles, hs, Bool.and_true] at h
    exact (apply_of_quiet h).2
  settled p h := by
    rw [apply_settles, Bool.and_eq_true] at h
    obtain ⟨hopen, -, hclosed, hpct⟩ := apply_of_fires h.1
    exact ⟨hopen, by rw [hclosed, Option.isSome_some], hpct⟩
  owned p h := by
    rw [apply_settles, Bool.and_eq_true] at h
    exact h.2
  stays p hp := by
    have hquiet : p.firesOn env pace execution = false := by
      by_contra hf
      rw [(apply_of_fires (Bool.eq_true_of_not_eq_false hf)).1] at hp
      cases hp
    refine ⟨?_, (apply_of_quiet hquiet).1⟩
    rw [Option.isSome_iff_ne_none, ne_eq, (apply_of_quiet hquiet).2]
    exact Option.isSome_iff_ne_none.mp hp

end Position

end Symm.Broker
