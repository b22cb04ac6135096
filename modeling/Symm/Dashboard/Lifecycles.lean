import Symm.Dashboard.DeskLife
import Symm.Lib.Keyed

/-!
# The store of the round trips (`lib/lifecycle.ts`)

Three feeds write one store: the frames of the hub, the desk's snapshot, which a timer
reads again and again, and the closed lots that the hub lists out of its history. All
of them go through `storeLife`, which drops a round trip in which a few members are as
before, and evicts the oldest closed ones beyond two caps. What the views make of the
store is left out; each operation returns whether it has the views told.

- `Store`, `storeLife`: the round trips and the stamps of the history;
- `ingestPositionFrame`, `ingestDeskClosedLots`, `ingestHistoryClosedBatch`: the feeds;
- `storeLife_get?`: what is under an id after a round trip is stored.

The store is an ordered map, and the order matters: beyond a cap the first closed round
trip of the kind goes, with its stamp, and its id is noted. Most results ask for room
below the caps and say so.
-/

namespace Symm.Dashboard

open Symm.Lib

/-- `HistoryStamp`. -/
structure HistoryStamp where
  epoch : ℤ
  tick : ℤ
  timestamp : ℤ
  deriving DecidableEq

/-- `historyFrameIsNewerStamp`. -/
def historyFrameIsNewerStamp (stamp prior : HistoryStamp) : Bool :=
  if stamp.epoch ≠ prior.epoch then prior.epoch < stamp.epoch
  else if stamp.tick ≠ prior.tick then prior.tick < stamp.tick
  else prior.timestamp < stamp.timestamp

/-- `lives` and `historyStamp`. The ids that the caps evicted are noted in `evicted`;
no code reads them. -/
structure Store where
  lives : Keyed Lifecycle.id
  stamps : String → Option HistoryStamp
  evicted : List String

def Store.empty : Store := ⟨.empty, fun _ => none, []⟩

/-- `SESSION_LIFECYCLE_LIMIT`. -/
def sessionLifecycleLimit : ℕ := 200

/-- `HISTORY_LIFECYCLE_CAP`. -/
def historyLifecycleCap : ℕ := 10000

/-- The cap of the lots of the history, or of the others. -/
def lifecycleLimit (history : Bool) : ℕ :=
  if history then historyLifecycleCap else sessionLifecycleLimit

/-- `deskLifeChanged`. -/
def deskLifeChanged (prev next : Lifecycle) : Bool :=
  prev.status ≠ next.status ||
  prev.closedAt ≠ next.closedAt ||
  prev.mark.map LifeMark.bid ≠ next.mark.map LifeMark.bid ||
  prev.mark.map LifeMark.unrealizedReturn ≠ next.mark.map LifeMark.unrealizedReturn ||
  prev.outcome.map LifeOutcome.pnl ≠ next.outcome.map LifeOutcome.pnl ||
  prev.outcome.map LifeOutcome.pnlPct ≠ next.outcome.map LifeOutcome.pnlPct ||
  prev.marks.length ≠ next.marks.length ||
  prev.events.length ≠ next.events.length

namespace Store

/-- `sessionCount`, `historyCount`. -/
def count (store : Store) (history : Bool) : ℕ :=
  store.lives.count fun entry => entry.history = history

/-- The round trips that `evictClosed` takes. -/
def evictable (history : Bool) (entry : Lifecycle) : Bool :=
  entry.history = history && (entry.status = "closed" || entry.status = "abandoned")

/-- `evictClosed`, none where it returns false. -/
def evictClosed (history : Bool) (store : Store) : Option Store :=
  (store.lives.first (evictable history)).map fun entry =>
    { lives := store.lives.erase entry.id
      stamps := fun id => if id = entry.id then none else store.stamps id
      evicted := entry.id :: store.evicted }

/-- The loop of `storeLife` over `evictClosed`; every turn takes one round trip. -/
def evictDown (history : Bool) : ℕ → Store → Store
  | 0, store => store
  | turns + 1, store =>
    if lifecycleLimit history < store.count history then
      match store.evictClosed history with
      | none => store
      | some next => evictDown history turns next
    else store

/-- The round trip in its new place. -/
def put (store : Store) (life : Lifecycle) : Store := { store with lives := store.lives.put life }

end Store

/-- `storeLife`. -/
def storeLife (store : Store) (life : Lifecycle) : Store × Bool :=
  if (store.lives.get? life.id).any (! deskLifeChanged · life) then (store, false)
  else
    let stored := store.put life
    (stored.evictDown life.history stored.lives.values.length, true)

/-! ## Frames -/

/-- `PositionFrame`. -/
structure PositionFrame where
  id : String
  symbol : String
  status : String
  policyEpoch : String
  openedAt : String
  closedAt : Option String
  event : Option LifeEvent
  mark : Option LifeMark
  outcome : Option LifeOutcome
  stopState : Option DynamicStoploss

/-- What the hub sends: a whole round trip, or a frame. -/
inductive Frame
  | snapshot (life : Lifecycle)
  | position (frame : PositionFrame)

/-- `isFrame`, for what has the members of a frame. -/
def isFrame (frame : PositionFrame) : Bool := frame.event.isNone ≠ frame.mark.isNone

/-- `slice(-400)`. -/
def lastMarks (marks : List LifeMark) : List LifeMark := marks.drop (marks.length - 400)

/-- The marks with the one of a frame, unless it is the last one over again. -/
def marksWith (marks : List LifeMark) : Option LifeMark → List LifeMark
  | none => marks
  | some mark =>
    match marks.getLast? with
    | some last =>
      if last.«at» ≠ mark.«at» ∨ last.bid ≠ mark.bid then lastMarks (marks ++ [mark]) else marks
    | none => lastMarks (marks ++ [mark])

/-- The round trip that a frame starts. -/
def startedLife (frame : PositionFrame) : Lifecycle where
  id := frame.id
  symbol := frame.symbol
  status := frame.status
  policyEpoch := some frame.policyEpoch
  openedAt := frame.openedAt
  closedAt := none
  events := []
  mark := none
  marks := []
  outcome := none
  book := none
  desk := false
  history := false

/-- The round trip of a frame, folded into what was known of it. -/
def framedLife (frame : PositionFrame) (life : Lifecycle) : Lifecycle :=
  { life with
    status := frame.status
    closedAt := frame.closedAt.map some <|> life.closedAt
    outcome := frame.outcome <|> life.outcome
    mark := frame.mark <|> life.mark
    stopState := frame.stopState <|> life.stopState
    marks := marksWith life.marks frame.mark
    events := life.events ++ frame.event.toList }

/-- `ingestPositionFrame`, and whether it publishes. -/
def ingestPositionFrame (store : Store) : Frame → Store × Bool
  | .snapshot life => storeLife store life
  | .position frame =>
    if isFrame frame then
      storeLife store
        (framedLife frame ((store.lives.get? frame.id).getD (startedLife frame)))
    else (store, false)

/-! ## The desk's snapshot -/

/-- `??` in every member that a row need not have. -/
def Details.orElse (details other : Details) : Details where
  policyEpoch := details.policyEpoch <|> other.policyEpoch
  marksA := details.marksA <|> other.marksA
  marksB := details.marksB <|> other.marksB
  marksC := details.marksC <|> other.marksC
  path := details.path <|> other.path
  pathFound := details.pathFound <|> other.pathFound
  stopState := details.stopState <|> other.stopState
  policy := details.policy <|> other.policy
  peakPct := details.peakPct <|> other.peakPct
  realizedPct := details.realizedPct <|> other.realizedPct
  barsHeld := details.barsHeld <|> other.barsHeld
  pnlTrace := details.pnlTrace <|> other.pnlTrace
  exitTrigger := details.exitTrigger <|> other.exitTrigger
  officialExitPct := details.officialExitPct <|> other.officialExitPct

/-- What the desk's snapshot and the history both keep of the round trip that the store
has; the marks are their own. -/
def Lifecycle.onto (life existing : Lifecycle) (marks : List LifeMark) : Lifecycle :=
  { life with
    toDetails := life.toDetails.orElse existing.toDetails
    events := if existing.events ≠ [] then existing.events else life.events
    outcome := life.outcome <|> existing.outcome
    mark := life.mark <|> existing.mark
    marks := marks }

/-- `merged` in `ingestDeskClosedLots`. -/
def deskMerged (life : Lifecycle) : Option Lifecycle → Lifecycle
  | none => { life with marks := lastMarks life.marks }
  | some existing => life.onto existing (lastMarks (existing.marks ++ life.marks))

/-- `openIds`. -/
def openIds (host : Host) (rows : List Row) : List String :=
  (rows.filter fun row => row.id ≠ "" ∧ ¬ (positionReadout host row).closed).map Row.id

/-- The desk's rows that are no longer open. -/
def noLongerOpen (openIds : List String) (life : Lifecycle) : Bool :=
  life.desk && life.status ≠ "closed" && life.id ∉ openIds

/-- The round trip of a row. -/
def lifeOfRow (host : Host) (now : String) (row : Row) : Option Lifecycle :=
  lifecycleFromDeskClosed host row <|> lifecycleFromDeskOpen host now row

/-- The body of the loop of `ingestDeskClosedLots` over the rows. -/
def ingestDeskRow (host : Host) (now : String) (store : Store) (row : Row) : Store × Bool :=
  match lifeOfRow host now row with
  | none => (store, false)
  | some life =>
    let existing := store.lives.get? life.id
    if (existing.any fun existing => existing.status = "closed") ∧ life.status ≠ "closed" then
      (store, false)
    else storeLife store (deskMerged life existing)

/-- A fold of ingestions, and whether one of them changed the store. -/
def ingestAll {α : Type} (ingest : Store → α → Store × Bool) (start : Store × Bool)
    (items : List α) : Store × Bool :=
  items.foldl (fun acc item => ((ingest acc.1 item).1, acc.2 || (ingest acc.1 item).2)) start

/-- The loop of `ingestDeskClosedLots` over the store, and whether it removed a lot. -/
def removeGone (host : Host) (store : Store) (rows : List Row) : Store × Bool :=
  let gone := noLongerOpen (openIds host rows)
  ({ store with lives := store.lives.keep (! gone ·) }, store.lives.values.any gone)

/-- `ingestDeskClosedLots` at the time `now`, and whether it publishes. -/
def ingestDeskClosedLots (host : Host) (now : String) (store : Store) (rows : List Row) :
    Store × Bool :=
  ingestAll (ingestDeskRow host now) (removeGone host store rows) rows

/-! ## The history -/

/-- `ClosedHistoryEntry`. -/
structure ClosedHistoryEntry where
  stamp : HistoryStamp
  row : Row

/-- A lot that comes out of the history. -/
def Lifecycle.ofHistory (life : Lifecycle) : Lifecycle :=
  { life with history := true, desk := true }

/-- `merged` in `ingestHistoryClosedEntry`. -/
def historyMerged (life : Lifecycle) : Option Lifecycle → Lifecycle
  | none => life
  | some existing =>
    life.onto existing (if existing.marks ≠ [] then existing.marks else life.marks)

/-- `historyStamp.set`. -/
def Store.stamp (store : Store) (id : String) (stamp : HistoryStamp) : Store :=
  { store with stamps := fun other => if other = id then some stamp else store.stamps other }

/-- `ingestHistoryClosedEntry`. -/
def ingestHistoryClosedEntry (host : Host) (store : Store) (entry : ClosedHistoryEntry) :
    Store × Bool :=
  let row := entry.row
  let existing := store.lives.get? row.id
  if row.id = "" then (store, false)
  else if existing.any (! ·.history) then (store, false)
  else if (store.stamps row.id).any (! historyFrameIsNewerStamp entry.stamp ·) then (store, false)
  else
    -- the stamp is recorded before the row is judged
    let stamped := store.stamp row.id entry.stamp
    match lifecycleFromDeskClosed host row with
    | none => (stamped, false)
    | some life => storeLife stamped (historyMerged life.ofHistory existing)

/-- `ingestHistoryClosedBatch`, and whether it publishes. -/
def ingestHistoryClosedBatch (host : Host) (store : Store) (entries : List ClosedHistoryEntry) :
    Store × Bool :=
  ingestAll (ingestHistoryClosedEntry host) (store, false) entries

/-! ## What is stored -/

namespace Store

/-- Nothing was evicted under the id from one store to the other. -/
def Spared (id : String) (store next : Store) : Prop :=
  next.evicted.count id = store.evicted.count id

/-- What evictions leave of a store. -/
structure Trimmed (store next : Store) : Prop where
  noted : store.evicted <:+ next.evicted
  left : ∀ id entry, next.lives.get? id = some entry → store.lives.get? id = some entry
  live : ∀ id entry, store.lives.get? id = some entry → entry.status ≠ "closed" →
    entry.status ≠ "abandoned" → next.lives.get? id = some entry
  spared : ∀ id, Spared id store next →
    next.lives.get? id = store.lives.get? id ∧ next.stamps id = store.stamps id

theorem Trimmed.refl (store : Store) : Trimmed store store where
  noted := List.suffix_rfl
  left _ _ h := h
  live _ _ h _ _ := h
  spared _ _ := ⟨rfl, rfl⟩

/-- Where nothing was evicted in the end, nothing was evicted on the way. -/
theorem spared_trans {a b c : Store} {id : String} (hab : a.evicted <:+ b.evicted)
    (hbc : b.evicted <:+ c.evicted) :
    Spared id a c ↔ Spared id a b ∧ Spared id b c := by
  have hle := hab.sublist.count_le id
  have hle' := hbc.sublist.count_le id
  unfold Spared
  omega

/-- Trimming twice is trimming. -/
theorem Trimmed.trans {a b c : Store} (hab : Trimmed a b) (hbc : Trimmed b c) : Trimmed a c where
  noted := hab.noted.trans hbc.noted
  left id entry h := hab.left id entry (hbc.left id entry h)
  live id entry h hclosed habandoned :=
    hbc.live id entry (hab.live id entry h hclosed habandoned) hclosed habandoned
  spared id h := by
    obtain ⟨h, h'⟩ := (spared_trans hab.noted hbc.noted).mp h
    obtain ⟨hget, hstamp⟩ := hab.spared id h
    obtain ⟨hget', hstamp'⟩ := hbc.spared id h'
    exact ⟨hget'.trans hget, hstamp'.trans hstamp⟩

variable {store next : Store} {life : Lifecycle} {history : Bool} {id : String}

/-- Evicting one lot trims the store. -/
theorem trimmed_evictClosed (h : store.evictClosed history = some next) : Trimmed store next := by
  obtain ⟨entry, hfirst, rfl⟩ := Option.map_eq_some_iff.mp h
  obtain ⟨hmem, hentry⟩ := Keyed.first_mem hfirst
  have hget : store.lives.get? entry.id = some entry := Keyed.get?_eq_some.mpr ⟨hmem, rfl⟩
  constructor
  · exact List.suffix_cons _ _
  · intro id other hother
    rw [Keyed.get?_erase] at hother
    split at hother
    · cases hother
    · exact hother
  · intro id other hother hclosed habandoned
    rw [Keyed.get?_erase, if_neg]
    · exact hother
    · rintro rfl
      rw [hget] at hother
      obtain rfl := Option.some.inj hother
      simp [evictable, hclosed, habandoned] at hentry
  · intro id hspared
    have hne : id ≠ entry.id := by
      rintro rfl
      simp [Spared] at hspared
    exact ⟨by rw [Keyed.get?_erase, if_neg hne], if_neg hne⟩

/-- So does evicting down to the limit. -/
theorem trimmed_evictDown (history : Bool) (turns : ℕ) (store : Store) :
    Trimmed store (store.evictDown history turns) := by
  induction turns generalizing store with
  | zero => exact .refl store
  | succ turns ih =>
    unfold evictDown
    split
    · split
      · exact .refl store
      · next next hnext => exact (trimmed_evictClosed hnext).trans (ih next)
    · exact .refl store

/-- With a turn for each round trip the loop ends by itself: within the cap, or with
nothing left to evict. -/
theorem evictDown_done (turns : ℕ) (h : store.lives.values.length ≤ turns) :
    (store.evictDown history turns).count history ≤ lifecycleLimit history ∨
      (store.evictDown history turns).evictClosed history = none := by
  induction turns generalizing store with
  | zero =>
    have hnil : store.lives.values = [] := List.length_eq_zero_iff.mp (Nat.le_zero.mp h)
    refine .inr ?_
    simp [evictDown, evictClosed, Keyed.first, hnil]
  | succ turns ih =>
    unfold evictDown
    split
    · split
      · next hnone => exact .inr hnone
      · next next hnext =>
        refine ih ?_
        obtain ⟨entry, hfirst, rfl⟩ := Option.map_eq_some_iff.mp hnext
        have hlt := Keyed.length_erase_lt
          (Keyed.get?_eq_some.mpr ⟨(Keyed.first_mem hfirst).1, rfl⟩)
        show (store.lives.erase entry.id).values.length ≤ turns
        omega
    · next hle => exact .inl (Nat.le_of_not_lt hle)

/-- Below the limit nothing is evicted. -/
theorem evictDown_of_le (turns : ℕ) (h : store.count history ≤ lifecycleLimit history) :
    store.evictDown history turns = store := by
  cases turns with
  | zero => rfl
  | succ turns =>
    unfold evictDown
    rw [if_neg (Nat.not_lt_of_le h)]

end Store

theorem deskLifeChanged_eq_false {prev next : Lifecycle} :
    deskLifeChanged prev next = false ↔
      prev.status = next.status ∧ prev.closedAt = next.closedAt ∧
      prev.mark.map LifeMark.bid = next.mark.map LifeMark.bid ∧
      prev.mark.map LifeMark.unrealizedReturn = next.mark.map LifeMark.unrealizedReturn ∧
      prev.outcome.map LifeOutcome.pnl = next.outcome.map LifeOutcome.pnl ∧
      prev.outcome.map LifeOutcome.pnlPct = next.outcome.map LifeOutcome.pnlPct ∧
      prev.marks.length = next.marks.length ∧ prev.events.length = next.events.length := by
  simp [deskLifeChanged, and_assoc]

section

variable {store next : Store} {life : Lifecycle} {id : String}

/-- A round trip is dropped where it changes nothing that `deskLifeChanged` looks at. -/
def Unchanged (store : Store) (life : Lifecycle) : Prop :=
  ∃ prior, store.lives.get? life.id = some prior ∧ deskLifeChanged prior life = false

/-- A life that changes nothing is dropped and not published. -/
theorem storeLife_dropped (h : Unchanged store life) : storeLife store life = (store, false) := by
  obtain ⟨prior, hprior, hsame⟩ := h
  unfold storeLife
  rw [hprior]
  simp [hsame]

/-- Any other is put in, and the store is evicted down to its limit. -/
theorem storeLife_stored (h : ¬ Unchanged store life) :
    storeLife store life =
      ((store.put life).evictDown life.history (store.put life).lives.values.length, true) := by
  have hany : (store.lives.get? life.id).any (! deskLifeChanged · life) = false := by
    rw [← Bool.not_eq_true, Option.any_eq_true]
    rintro ⟨prior, hprior, hsame⟩
    exact h ⟨prior, hprior, by simpa using hsame⟩
  unfold storeLife
  rw [hany]
  rfl

/-- A round trip is dropped, or put before the caps are kept. -/
theorem storeLife_cases (store : Store) (life : Lifecycle) :
    Unchanged store life ∧ storeLife store life = (store, false) ∨
      ¬ Unchanged store life ∧ (storeLife store life).2 = true ∧
        Store.Trimmed (store.put life) (storeLife store life).1 := by
  by_cases h : Unchanged store life
  · exact .inl ⟨h, storeLife_dropped h⟩
  · rw [storeLife_stored h]
    exact .inr ⟨h, rfl, Store.trimmed_evictDown _ _ _⟩

/-- The other ids keep what they have, but for those evicted. -/
theorem storeLife_get?_ne (hne : id ≠ life.id)
    (h : Store.Spared id store (storeLife store life).1) :
    (storeLife store life).1.lives.get? id = store.lives.get? id := by
  rcases storeLife_cases store life with ⟨-, heq⟩ | ⟨-, -, htrim⟩
  · rw [heq]
  · rw [(htrim.spared id h).1]
    exact Keyed.get?_put.trans (if_neg hne)

/-- If it is spared, it is there. -/
theorem storeLife_get?_self (hun : ¬ Unchanged store life)
    (h : Store.Spared life.id store (storeLife store life).1) :
    (storeLife store life).1.lives.get? life.id = some life := by
  rcases storeLife_cases store life with ⟨h', -⟩ | ⟨-, -, htrim⟩
  · exact absurd h' hun
  · rw [(htrim.spared life.id h).1]
    exact Keyed.get?_put.trans (if_pos rfl)

/-- What was evicted stays noted. -/
theorem storeLife_noted (store : Store) (life : Lifecycle) :
    store.evicted <:+ (storeLife store life).1.evicted := by
  rcases storeLife_cases store life with ⟨-, heq⟩ | ⟨-, -, htrim⟩
  · simp [heq]
  · exact htrim.noted

/-- Within the cap a round trip that is not dropped is put, and that is all. -/
theorem storeLife_of_le (h : ¬ Unchanged store life)
    (hle : (store.put life).count life.history ≤ lifecycleLimit life.history) :
    storeLife store life = (store.put life, true) := by
  rw [storeLife_stored h, Store.evictDown_of_le _ hle]

end

/-! ## What one item does -/

section

variable {host : Host} {now : String} {store : Store} {row : Row} {life : Lifecycle}

@[simp] theorem ingestPositionFrame_snapshot (store : Store) (life : Lifecycle) :
    ingestPositionFrame store (.snapshot life) = storeLife store life := rfl

theorem ingestPositionFrame_position {frame : PositionFrame} (h : isFrame frame = true) :
    ingestPositionFrame store (.position frame) =
      storeLife store (framedLife frame ((store.lives.get? frame.id).getD (startedLife frame))) :=
  if_pos h

theorem ingestPositionFrame_malformed {frame : PositionFrame} (h : ¬ isFrame frame = true) :
    ingestPositionFrame store (.position frame) = (store, false) :=
  if_neg h

/-- A row gives a closed round trip or an open one. -/
theorem lifeOfRow_cases (h : lifeOfRow host now row = some life) :
    DeskClosed row life ∧ lifecycleFromDeskClosed host row = some life ∨
      DeskOpen row life ∧ lifecycleFromDeskOpen host now row = some life := by
  unfold lifeOfRow at h
  cases hclosed : lifecycleFromDeskClosed host row with
  | none =>
    rw [hclosed] at h
    exact .inr ⟨(lifecycleFromDeskOpen_spec h).1, h⟩
  | some closed =>
    rw [hclosed] at h
    obtain rfl := Option.some.inj h
    exact .inl ⟨(lifecycleFromDeskClosed_spec hclosed).1, rfl⟩

/-- A life has the id of its row. -/
theorem lifeOfRow_id (h : lifeOfRow host now row = some life) : life.id = row.id := by
  rcases lifeOfRow_cases h with ⟨h, -⟩ | ⟨h, -⟩
  · exact h.id
  · exact h.id

theorem Lifecycle.onto_id (life existing : Lifecycle) (marks : List LifeMark) :
    (life.onto existing marks).id = life.id := rfl

theorem Lifecycle.onto_status (life existing : Lifecycle) (marks : List LifeMark) :
    (life.onto existing marks).status = life.status := rfl

@[simp] theorem deskMerged_id (life : Lifecycle) (existing : Option Lifecycle) :
    (deskMerged life existing).id = life.id := by
  cases existing with
  | none => simp only [deskMerged]
  | some existing => simp only [deskMerged, Lifecycle.onto_id]

@[simp] theorem deskMerged_status (life : Lifecycle) (existing : Option Lifecycle) :
    (deskMerged life existing).status = life.status := by
  cases existing with
  | none => simp only [deskMerged]
  | some existing => simp only [deskMerged, Lifecycle.onto_status]

@[simp] theorem historyMerged_id (life : Lifecycle) (existing : Option Lifecycle) :
    (historyMerged life existing).id = life.id := by
  cases existing with
  | none => rfl
  | some existing => simp only [historyMerged, Lifecycle.onto_id]

@[simp] theorem historyMerged_status (life : Lifecycle) (existing : Option Lifecycle) :
    (historyMerged life existing).status = life.status := by
  cases existing with
  | none => rfl
  | some existing => simp only [historyMerged, Lifecycle.onto_status]

/-- The row of a lot that is recorded as closed, but open in the snapshot. -/
def Reopens (store : Store) (life : Lifecycle) : Prop :=
  life.status ≠ "closed" ∧
    ∃ existing, store.lives.get? life.id = some existing ∧ existing.status = "closed"

/-- A row is passed over, or its round trip is stored over the one there is. -/
theorem ingestDeskRow_cases (host : Host) (now : String) (store : Store) (row : Row) :
    (lifeOfRow host now row = none ∨ ∃ life, lifeOfRow host now row = some life ∧
        Reopens store life) ∧ ingestDeskRow host now store row = (store, false) ∨
      ∃ life, lifeOfRow host now row = some life ∧ ¬ Reopens store life ∧
        ingestDeskRow host now store row =
          storeLife store (deskMerged life (store.lives.get? life.id)) := by
  unfold ingestDeskRow
  cases lifeOfRow host now row with
  | none => exact .inl ⟨.inl rfl, rfl⟩
  | some life =>
    have hiff : ((store.lives.get? life.id).any fun existing => existing.status = "closed") = true ∧
        life.status ≠ "closed" ↔ Reopens store life := by
      rw [Option.any_eq_true, and_comm]
      simp [Reopens]
    by_cases hreopens : Reopens store life
    · exact .inl ⟨.inr ⟨life, rfl, hreopens⟩, if_pos (hiff.mpr hreopens)⟩
    · exact .inr ⟨life, rfl, hreopens, if_neg fun h => hreopens (hiff.mp h)⟩

/-- An entry is passed over, or only its stamp is recorded, or its round trip is stored. -/
theorem ingestHistoryClosedEntry_cases (host : Host) (store : Store) (entry : ClosedHistoryEntry) :
    ingestHistoryClosedEntry host store entry = (store, false) ∨
      ingestHistoryClosedEntry host store entry =
        (store.stamp entry.row.id entry.stamp, false) ∨
      ∃ life, lifecycleFromDeskClosed host entry.row = some life ∧
        ingestHistoryClosedEntry host store entry =
          storeLife (store.stamp entry.row.id entry.stamp)
            (historyMerged life.ofHistory (store.lives.get? entry.row.id)) := by
  unfold ingestHistoryClosedEntry
  dsimp only
  split
  · exact .inl rfl
  · split
    · exact .inl rfl
    · split
      · exact .inl rfl
      · cases lifecycleFromDeskClosed host entry.row with
        | none => exact .inr (.inl rfl)
        | some life => exact .inr (.inr ⟨life, rfl, rfl⟩)

theorem ingestDeskRow_noted (host : Host) (now : String) (store : Store) (row : Row) :
    store.evicted <:+ (ingestDeskRow host now store row).1.evicted := by
  rcases ingestDeskRow_cases host now store row with ⟨-, heq⟩ | ⟨life, -, -, heq⟩
  · simp [heq]
  · rw [heq]
    exact storeLife_noted store _

theorem ingestHistoryClosedEntry_noted (host : Host) (store : Store) (entry : ClosedHistoryEntry) :
    store.evicted <:+ (ingestHistoryClosedEntry host store entry).1.evicted := by
  rcases ingestHistoryClosedEntry_cases host store entry with heq | heq | ⟨life, -, heq⟩
  · simp [heq]
  · simp [heq, Store.stamp]
  · rw [heq]
    exact storeLife_noted (store.stamp entry.row.id entry.stamp) _

end

/-! ## Folds of ingestions -/

section

variable {α : Type} {ingest : Store → α → Store × Bool}

@[simp] theorem ingestAll_nil (start : Store × Bool) : ingestAll ingest start [] = start := rfl

@[simp] theorem ingestAll_cons (start : Store × Bool) (item : α) (items : List α) :
    ingestAll ingest start (item :: items) =
      ingestAll ingest ((ingest start.1 item).1, start.2 || (ingest start.1 item).2) items := rfl

/-- The store after a fold does not depend on whether it was changed before. -/
theorem ingestAll_fst (start : Store × Bool) (items : List α) :
    (ingestAll ingest start items).1 =
      items.foldl (fun store item => (ingest store item).1) start.1 := by
  induction items generalizing start with
  | nil => rfl
  | cons item rest ih =>
    rw [ingestAll_cons, ih, List.foldl_cons]

/-- A list of items keeps noted what each of them keeps noted. -/
theorem ingestAll_noted (hnoted : ∀ store item, store.evicted <:+ (ingest store item).1.evicted)
    (start : Store × Bool) (items : List α) :
    start.1.evicted <:+ (ingestAll ingest start items).1.evicted := by
  induction items generalizing start with
  | nil => exact List.suffix_rfl
  | cons item rest ih =>
    rw [ingestAll_cons]
    exact (hnoted start.1 item).trans (ih (_, start.2 || (ingest start.1 item).2))

/-- What every item keeps, where it does not evict the id, a fold keeps. -/
theorem ingestAll_inv (inv : Store → Prop) {id : String}
    (hnoted : ∀ store item, store.evicted <:+ (ingest store item).1.evicted)
    (hstep : ∀ store item, inv store → Store.Spared id store (ingest store item).1 →
      inv (ingest store item).1)
    {start : Store × Bool} {items : List α} (h : inv start.1)
    (hspared : Store.Spared id start.1 (ingestAll ingest start items).1) :
    inv (ingestAll ingest start items).1 := by
  induction items generalizing start with
  | nil => exact h
  | cons item rest ih =>
    rw [ingestAll_cons] at hspared ⊢
    obtain ⟨hitem, hrest⟩ := (Store.spared_trans (hnoted start.1 item)
      (ingestAll_noted hnoted (_, start.2 || (ingest start.1 item).2) rest)).mp hspared
    exact ih (hstep start.1 item h hitem) hrest

end

end Symm.Dashboard
