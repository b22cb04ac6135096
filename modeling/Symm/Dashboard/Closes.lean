import Symm.Dashboard.Lifecycles
import Symm.Lib.Machine

/-!
# A recorded close stays (`lib/lifecycle.ts`)

Once a round trip is closed with an outcome, the win rate counts it. The desk's
snapshot and the history never undo that: the one leaves a closed round trip alone
where its row is open, and both keep the outcome they find. `ingestPositionFrame` has
no such guard. A mark of an open position that comes after the close takes its status,
and a snapshot of a round trip replaces all of it.

- `Feed`: the calls that write the store, in any order;
- `Recorded.storeLife`: what is stored over a recorded close;
- `recorded_stays`: a run whose frames of recorded round trips are closed keeps them.

What counts is stored under an id, as closed and with an outcome, and three feeds write
there. The desk's rows and its history look at what is stored first, so each has a lemma
without a condition. A frame writes its own status over it, and a frame with a snapshot
writes the whole round trip: `KeepsClose` is what has to be true of such a frame.

The condition is asked along the run of the frames that meet a recorded id. A frame of
an id that was not recorded by then may say what it likes.
-/

namespace Symm.Dashboard

open Symm.Lib

/-- A call of one of the feeds. -/
inductive Feed
  | frame (frame : Frame)
  | desk (now : String) (rows : List Row)
  | history (entries : List ClosedHistoryEntry)

/-- The store after a call. -/
def ingest (host : Host) (store : Store) : Feed → Store
  | .frame frame => (ingestPositionFrame store frame).1
  | .desk now rows => (ingestDeskClosedLots host now store rows).1
  | .history entries => (ingestHistoryClosedBatch host store entries).1

/-- The id is stored as closed with an outcome. -/
def Recorded (store : Store) (id : String) : Prop :=
  ∃ life, store.lives.get? id = some life ∧ life.status = "closed" ∧ life.outcome ≠ none

/-- A frame of the id says closed, and a snapshot of it has an outcome too. -/
def KeepsClose (id : String) : Feed → Prop
  | .frame (.snapshot life) => life.id = id → life.status = "closed" ∧ life.outcome ≠ none
  | .frame (.position frame) => frame.id = id → isFrame frame = true → frame.status = "closed"
  | .desk _ _ => True
  | .history _ => True

section

variable {host : Host} {now : String} {store : Store} {id : String} {life : Lifecycle}

/-- What is stored under a recorded id has to be closed with an outcome itself. -/
theorem Recorded.storeLife (h : Recorded store id)
    (hlife : life.id = id → life.status = "closed" ∧ life.outcome ≠ none)
    (hspared : Store.Spared id store (storeLife store life).1) :
    Recorded (storeLife store life).1 id := by
  by_cases hid : id = life.id
  · by_cases hun : Unchanged store life
    · rw [storeLife_dropped hun]
      exact h
    · subst hid
      exact ⟨life, storeLife_get?_self hun hspared, hlife rfl⟩
  · obtain ⟨prior, hprior, hclosed⟩ := h
    exact ⟨prior, (storeLife_get?_ne hid hspared).trans hprior, hclosed⟩

theorem orElse_ne_none {α : Type} {a b : Option α} (h : b ≠ none) : (a <|> b) ≠ none := by
  cases a with
  | none => exact h
  | some a => simp

/-! ## The feeds -/

/-- A frame keeps a close that was recorded, if it is one that keeps it and the lot is
spared. -/
theorem Recorded.ingestPositionFrame {frame : Frame} (h : Recorded store id)
    (hkeeps : KeepsClose id (.frame frame))
    (hspared : Store.Spared id store (ingestPositionFrame store frame).1) :
    Recorded (ingestPositionFrame store frame).1 id := by
  cases frame with
  | snapshot life => exact h.storeLife hkeeps hspared
  | position frame =>
    by_cases hframe : isFrame frame = true
    · rw [ingestPositionFrame_position hframe] at hspared ⊢
      refine h.storeLife ?_ hspared
      intro hid
      obtain ⟨prior, hprior, -, houtcome⟩ := h
      cases hget : store.lives.get? frame.id with
      | none =>
        -- the frame starts a round trip, so its id is not the recorded one
        rw [hget] at hid
        have hsame : frame.id = id := hid
        rw [← hsame, hget] at hprior
        cases hprior
      | some life =>
        rw [hget] at hid
        have hsame : frame.id = id := (Keyed.key_of_get? hget).symm.trans hid
        rw [← hsame, hget] at hprior
        obtain rfl := Option.some.inj hprior
        exact ⟨hkeeps hsame hframe, orElse_ne_none houtcome⟩
    · rw [ingestPositionFrame_malformed hframe]
      exact h

/-- The desk's snapshot only removes what is not closed. -/
theorem Recorded.removeGone (h : Recorded store id) (rows : List Row) :
    Recorded (removeGone host store rows).1 id := by
  obtain ⟨life, hlife, hclosed, houtcome⟩ := h
  refine ⟨life, ?_, hclosed, houtcome⟩
  show (store.lives.keep _).get? id = some life
  rw [Keyed.get?_keep, hlife]
  simp [noLongerOpen, hclosed]

/-- A row that does not reopen its lot is closed where the lot is. -/
theorem Recorded.ingestDeskRow (h : Recorded store id) (row : Row)
    (hspared : Store.Spared id store (ingestDeskRow host now store row).1) :
    Recorded (ingestDeskRow host now store row).1 id := by
  rcases ingestDeskRow_cases host now store row with ⟨-, heq⟩ | ⟨life, -, hopens, heq⟩
  · rw [heq]
    exact h
  · rw [heq] at hspared ⊢
    refine h.storeLife ?_ hspared
    intro hid
    obtain ⟨prior, hprior, hclosed, houtcome⟩ := h
    rw [deskMerged_id] at hid
    rw [hid, hprior, deskMerged_status]
    constructor
    · by_contra hstatus
      exact hopens ⟨hstatus, prior, hid ▸ hprior, hclosed⟩
    · exact orElse_ne_none houtcome

/-- So does every entry of a history. -/
theorem Recorded.ingestHistoryClosedEntry (h : Recorded store id) (entry : ClosedHistoryEntry)
    (hspared : Store.Spared id store (ingestHistoryClosedEntry host store entry).1) :
    Recorded (ingestHistoryClosedEntry host store entry).1 id := by
  rcases ingestHistoryClosedEntry_cases host store entry with heq | heq | ⟨life, hlife, heq⟩
  · rw [heq]
    exact h
  · rw [heq]
    exact h
  · rw [heq] at hspared ⊢
    obtain ⟨hdesk, -⟩ := lifecycleFromDeskClosed_spec hlife
    have hstamped : Recorded (store.stamp entry.row.id entry.stamp) id := h
    refine hstamped.storeLife ?_ hspared
    intro hid
    obtain ⟨prior, hprior, -, houtcome⟩ := h
    rw [historyMerged_id] at hid
    have hrow : entry.row.id = id := hdesk.id.symm.trans hid
    rw [historyMerged_status, hrow, hprior]
    exact ⟨hdesk.status, orElse_ne_none houtcome⟩

/-- One call. -/
theorem Recorded.ingest {feed : Feed} (h : Recorded store id) (hkeeps : KeepsClose id feed)
    (hspared : Store.Spared id store (ingest host store feed)) :
    Recorded (ingest host store feed) id := by
  cases feed with
  | frame frame => exact h.ingestPositionFrame hkeeps hspared
  | desk now rows =>
    have hgone : Recorded (Dashboard.removeGone host store rows).1 id := h.removeGone rows
    exact ingestAll_inv (Recorded · id) (ingestDeskRow_noted host now)
      (fun _ row hrec => hrec.ingestDeskRow row) hgone hspared
  | history entries =>
    have hstart : Recorded ((store, false) : Store × Bool).1 id := h
    exact ingestAll_inv (Recorded · id) (ingestHistoryClosedEntry_noted host)
      (fun _ entry hrec => hrec.ingestHistoryClosedEntry entry) hstart hspared

/-- What was evicted stays noted, whatever comes in. -/
theorem ingest_noted (host : Host) (store : Store) (feed : Feed) :
    store.evicted <:+ (ingest host store feed).evicted := by
  cases feed with
  | frame frame =>
    cases frame with
    | snapshot life => exact storeLife_noted store life
    | position frame =>
      by_cases hframe : isFrame frame = true
      · show store.evicted <:+ (Dashboard.ingestPositionFrame store (.position frame)).1.evicted
        rw [ingestPositionFrame_position hframe]
        exact storeLife_noted store _
      · show store.evicted <:+ (Dashboard.ingestPositionFrame store (.position frame)).1.evicted
        simp [ingestPositionFrame_malformed hframe]
  | desk now rows =>
    have hgone : store.evicted <:+ (Dashboard.removeGone host store rows).1.evicted :=
      List.suffix_rfl
    exact hgone.trans (ingestAll_noted (ingestDeskRow_noted host now) _ rows)
  | history entries =>
    exact ingestAll_noted (ingestHistoryClosedEntry_noted host) (store, false) entries

end

/-! ## Runs -/

/-- In a run of any calls in any order, in which the frames of an id that is recorded as
closed say closed, and the snapshots of it have an outcome, the id stays recorded in
every state, until it is evicted. -/
theorem recorded_stays (host : Host) (store : Store) (id : String) (feeds : List Feed)
    (hrecorded : Recorded store id)
    (hkeeps : Along (ingest host) (fun store feed => Recorded store id → KeepsClose id feed)
      store feeds) :
    Everywhere (ingest host) (fun next => Store.Spared id store next → Recorded next id)
      store feeds := by
  have hinv : ∀ next feed,
      store.evicted <:+ next.evicted ∧ (Store.Spared id store next → Recorded next id) →
      (Recorded next id → KeepsClose id feed) →
      store.evicted <:+ (ingest host next feed).evicted ∧
        (Store.Spared id store (ingest host next feed) → Recorded (ingest host next feed) id) := by
    rintro next feed ⟨hnoted, hrec⟩ hkeeps
    have hstep := ingest_noted host next feed
    refine ⟨hnoted.trans hstep, fun hspared => ?_⟩
    obtain ⟨hbefore, hnow⟩ := (Store.spared_trans hnoted hstep).mp hspared
    exact (hrec hbefore).ingest (hkeeps (hrec hbefore)) hnow
  exact everywhere_of_inv hinv (fun _ h => h.2) ⟨List.suffix_rfl, fun _ => hrecorded⟩ hkeeps

/-- A lot that came to a profit. -/
def soldLife : Lifecycle where
  id := "lot"
  symbol := "XBT/USD"
  status := "closed"
  openedAt := "2026-01-01T00:00:00.000Z"
  closedAt := some (some "2026-01-01T01:00:00.000Z")
  events := []
  mark := none
  marks := []
  outcome := some ⟨1 / 100, 1, none, 3600000000000, none, none⟩
  book := none
  desk := false
  history := false

/-- A mark of the lot, taken while it was open. -/
def lateMark : PositionFrame where
  id := "lot"
  symbol := "XBT/USD"
  status := "holding"
  policyEpoch := ""
  openedAt := "2026-01-01T00:00:00.000Z"
  closedAt := none
  event := none
  mark := some ⟨"2026-01-01T00:59:59.000Z", 101, 1, 100, 1, 1 / 100⟩
  outcome := none
  stopState := none

/-- The store after a snapshot of the lot. -/
def soldStore : Store := (ingestPositionFrame .empty (.snapshot soldLife)).1

theorem soldStore_recorded : Recorded soldStore "lot" :=
  ⟨soldLife, rfl, rfl, nofun⟩

/-- A late frame that says settled keeps the close of the sold lot. -/
theorem recorded_stays_settled :
    Everywhere (ingest .plain)
      (fun next => Store.Spared "lot" soldStore next → Recorded next "lot") soldStore
      [.frame (.position { lateMark with status := "closed" }), .desk "" [], .history []] :=
  recorded_stays _ _ _ _ soldStore_recorded
    ⟨fun _ _ _ => rfl, fun _ => trivial, fun _ => trivial, trivial⟩

/-- The mark that comes late opens the lot again. -/
theorem late_mark_reopens :
    ¬ ∀ (host : Host) (store : Store) (id : String) (feeds : List Feed), Recorded store id →
      Everywhere (ingest host) (fun next => Store.Spared id store next → Recorded next id)
        store feeds := by
  intro h
  have hrun := h .plain soldStore "lot"
    [.frame (.position lateMark)] soldStore_recorded
  obtain ⟨life, hlife, hclosed, -⟩ := hrun.last rfl
  have hopen : (runFrom (ingest .plain) soldStore
      [.frame (.position lateMark)]).lives.get? "lot" = some (framedLife lateMark soldLife) := rfl
  rw [hopen] at hlife
  obtain rfl := Option.some.inj hlife
  exact absurd hclosed (by simp [framedLife, lateMark])

end Symm.Dashboard
