import Mathlib.Data.List.Dedup
import Symm.Dashboard.Lifecycles

/-!
# Reading the same snapshot again (`lib/lifecycle.ts`)

A timer reads the desk's snapshot every two seconds, and mostly it is the one it read
before. Each row is made into a round trip again, merged with the one that was stored
for it, and dropped where nothing looks changed. For a closed row that works: nothing
is taken twice. An open row has a mark in it, though, and `ingestDeskClosedLots` puts
it behind the marks there are, each time. `ingestPositionFrame` looks at the last mark
first. Until the 400 marks that are kept are full, every reading adds one.

- `Idle`: a row that a store has taken in already;
- `deskMerged_again`: merging a row a second time;
- `reread_iff`: when a snapshot can be read again.

- `ingestDeskRow_idle`: a row changes nothing exactly if the store has taken it in;
- `idle_after`: a row that was read is taken in, unless it adds a mark to its lot;
- `Within`: the lots of a snapshot have room below the cap, so reading evicts none.
-/

namespace Symm.Dashboard

open Symm.Lib

/-- Reading the rows a second time leaves the store as it is, and publishes nothing. -/
def Rereads (host : Host) (now : String) (store : Store) (rows : List Row) : Prop :=
  let once := (ingestDeskClosedLots host now store rows).1
  ingestDeskClosedLots host now once rows = (once, false)

/-- An open row with a mark is of a lot that is recorded as closed, or has no room for
another mark after it. -/
def MarksFull (host : Host) (now : String) (store : Store) (row : Row) : Prop :=
  ∀ life, lifecycleFromDeskOpen host now row = some life → life.mark ≠ none →
    ∃ existing, store.lives.get? row.id = some existing ∧
      (existing.status = "closed" ∨ 399 ≤ existing.marks.length)

/-- The lot of a row is in the store, and where the row has a mark, it is recorded as
closed or has no room for a mark more. -/
def Settled (host : Host) (now : String) (store : Store) (row : Row) : Prop :=
  ∀ life, lifeOfRow host now row = some life →
    ∃ existing, store.lives.get? row.id = some existing ∧
      (life.mark ≠ none → existing.status = "closed" ∨ 400 ≤ existing.marks.length)

/-- The session's lots that the snapshot leaves, and those that it has. -/
def sessionIds (host : Host) (now : String) (store : Store) (rows : List Row) : List String :=
  (store.lives.values.filter fun life =>
      !life.history && !noLongerOpen (openIds host rows) life).map Lifecycle.id ++
    (rows.filterMap (lifeOfRow host now)).map Lifecycle.id

/-- No lot of the session goes over the cap. -/
def Fits (host : Host) (now : String) (store : Store) (rows : List Row) : Prop :=
  (sessionIds host now store rows).dedup.length ≤ sessionLifecycleLimit

/-! ## Folds that do nothing -/

section

variable {α : Type} {ingest : Store → α → Store × Bool}

/-- If a whole list publishes nothing, nothing was published before it. -/
theorem ingestAll_flag {start : Store × Bool} {items : List α}
    (h : (ingestAll ingest start items).2 = false) : start.2 = false := by
  induction items generalizing start with
  | nil => exact h
  | cons item rest ih =>
    rw [ingestAll_cons] at h
    exact (Bool.or_eq_false_iff.mp (ih h)).1

/-- Where an item changes nothing unless it says so, neither do the items of a fold. -/
theorem ingestAll_idle (hidle : ∀ store item, (ingest store item).2 = false →
      (ingest store item).1 = store) {store : Store} {items : List α} :
    ingestAll ingest (store, false) items = (store, false) ↔
      ∀ item ∈ items, ingest store item = (store, false) := by
  induction items with
  | nil => simp
  | cons item rest ih =>
    rw [ingestAll_cons, Bool.false_or, List.forall_mem_cons]
    constructor
    · intro h
      have hitem : (ingest store item).2 = false := ingestAll_flag (congrArg Prod.snd h)
      have hsame : ingest store item = (store, false) := Prod.ext (hidle store item hitem) hitem
      rw [hsame] at h
      exact ⟨hsame, ih.mp h⟩
    · rintro ⟨hsame, hrest⟩
      rw [hsame]
      exact ih.mpr hrest

end

section

variable {host : Host} {now : String} {store : Store} {row : Row} {rows : List Row}
  {life : Lifecycle} {id : String}

/-- The row adds nothing to the store. -/
def Idle (host : Host) (now : String) (store : Store) (row : Row) : Prop :=
  ∀ life, lifeOfRow host now row = some life →
    Reopens store life ∨ Unchanged store (deskMerged life (store.lives.get? life.id))

/-- A row changes and publishes nothing exactly where it is idle. -/
theorem ingestDeskRow_idle :
    ingestDeskRow host now store row = (store, false) ↔ Idle host now store row := by
  rcases ingestDeskRow_cases host now store row with ⟨hnone | ⟨life, hlife, hopens⟩, heq⟩ |
    ⟨life, hlife, hopens, heq⟩
  · rw [heq]
    refine iff_of_true rfl fun life hlife => ?_
    rw [hnone] at hlife
    cases hlife
  · rw [heq]
    refine iff_of_true rfl fun other hother => ?_
    rw [hlife] at hother
    exact .inl (Option.some.inj hother ▸ hopens)
  · rw [heq]
    constructor
    · intro hdropped other hother
      rw [hlife] at hother
      obtain rfl := Option.some.inj hother
      rcases storeLife_cases store (deskMerged life (store.lives.get? life.id)) with
        ⟨hun, -⟩ | ⟨-, hstored, -⟩
      · exact .inr hun
      · rw [hdropped] at hstored
        cases hstored
    · intro hidle
      exact storeLife_dropped ((hidle life hlife).resolve_left hopens)

/-- A row that publishes nothing changes nothing. -/
theorem ingestDeskRow_fst (host : Host) (now : String) (store : Store) (row : Row)
    (h : (ingestDeskRow host now store row).2 = false) :
    (ingestDeskRow host now store row).1 = store := by
  rcases ingestDeskRow_cases host now store row with ⟨-, heq⟩ | ⟨life, -, -, heq⟩
  · rw [heq]
  · rw [heq] at h ⊢
    rcases storeLife_cases store (deskMerged life (store.lives.get? life.id)) with
      ⟨-, heq⟩ | ⟨-, hstored, -⟩
    · rw [heq]
    · rw [hstored] at h
      cases h

/-- A snapshot does nothing where it removes nothing and all of its rows are idle. -/
theorem ingestDeskClosedLots_idle :
    ingestDeskClosedLots host now store rows = (store, false) ↔
      (∀ life ∈ store.lives.values, noLongerOpen (openIds host rows) life = false) ∧
        ∀ row ∈ rows, Idle host now store row := by
  have hgone : (removeGone host store rows).2 = false ↔
      ∀ life ∈ store.lives.values, noLongerOpen (openIds host rows) life = false := by
    show store.lives.values.any _ = false ↔ _
    rw [List.any_eq_false]
    simp
  have hsame (h : (removeGone host store rows).2 = false) :
      removeGone host store rows = (store, false) := by
    refine Prod.ext ?_ h
    show ({ store with lives := store.lives.keep _ } : Store) = store
    rw [Keyed.keep_eq_self fun life hlife => by simpa using hgone.mp h life hlife]
  unfold ingestDeskClosedLots
  constructor
  · intro h
    have hkeep : (removeGone host store rows).2 = false := ingestAll_flag (congrArg Prod.snd h)
    rw [hsame hkeep] at h
    refine ⟨hgone.mp hkeep, fun row hrow => ingestDeskRow_idle.mp ?_⟩
    exact (ingestAll_idle (ingestDeskRow_fst host now)).mp h row hrow
  · rintro ⟨hkeep, hidle⟩
    rw [hsame (hgone.mpr hkeep)]
    exact (ingestAll_idle (ingestDeskRow_fst host now)).mpr
      fun row hrow => ingestDeskRow_idle.mpr (hidle row hrow)

/-! ## The marks of a row -/

/-- Of the marks the last 400 are kept. -/
theorem length_lastMarks (marks : List LifeMark) :
    (lastMarks marks).length = min marks.length 400 := by
  unfold lastMarks
  rw [List.length_drop]
  omega

/-- A merged life has the earlier marks and then its own. -/
theorem deskMerged_marks (life : Lifecycle) (existing : Option Lifecycle) :
    (deskMerged life existing).marks =
      lastMarks ((existing.map Lifecycle.marks).getD [] ++ life.marks) := by
  cases existing with
  | none => simp [deskMerged]
  | some existing => simp [deskMerged, Lifecycle.onto]

theorem deskMerged_closedAt (life : Lifecycle) (existing : Option Lifecycle) :
    (deskMerged life existing).closedAt = life.closedAt := by
  cases existing with
  | none => simp only [deskMerged]
  | some existing => simp only [deskMerged, Lifecycle.onto]

theorem deskMerged_mark (life : Lifecycle) (existing : Option Lifecycle) :
    (deskMerged life existing).mark = (life.mark <|> existing.bind Lifecycle.mark) := by
  cases existing with
  | none => simp [deskMerged]
  | some existing => simp [deskMerged, Lifecycle.onto]

theorem deskMerged_outcome (life : Lifecycle) (existing : Option Lifecycle) :
    (deskMerged life existing).outcome = (life.outcome <|> existing.bind Lifecycle.outcome) := by
  cases existing with
  | none => simp [deskMerged]
  | some existing => simp [deskMerged, Lifecycle.onto]

/-- Merging loses no events altogether. -/
theorem deskMerged_events {life : Lifecycle} {existing : Option Lifecycle}
    (h : life.events ≠ []) : (deskMerged life existing).events ≠ [] := by
  cases existing with
  | none => simpa [deskMerged] using h
  | some existing =>
    simp only [deskMerged, Lifecycle.onto]
    split
    · assumption
    · exact h

/-- Where there were events, they stay. -/
theorem deskMerged_events_of_ne {life existing : Lifecycle} (h : existing.events ≠ []) :
    (deskMerged life (some existing)).events = existing.events := by
  simp only [deskMerged, Lifecycle.onto]
  exact if_pos h

theorem orElse_again {α : Type} (a b : Option α) : (a <|> (a <|> b)) = (a <|> b) := by
  cases a <;> rfl

/-- Merged with what it was merged into, a row changes at most the marks. -/
theorem deskMerged_again (life : Lifecycle) (existing : Option Lifecycle)
    (hevents : life.events ≠ []) :
    deskLifeChanged (deskMerged life existing)
        (deskMerged life (some (deskMerged life existing))) = false ↔
      life.marks = [] ∨
        400 ≤ ((existing.map Lifecycle.marks).getD []).length + life.marks.length := by
  rw [deskLifeChanged_eq_false, deskMerged_status, deskMerged_status, deskMerged_closedAt,
    deskMerged_closedAt, deskMerged_mark _ (some _), deskMerged_outcome _ (some _),
    deskMerged_events_of_ne (deskMerged_events hevents), Option.bind_some, Option.bind_some,
    deskMerged_mark, deskMerged_outcome, orElse_again, orElse_again, deskMerged_marks,
    deskMerged_marks, Option.map_some, Option.getD_some, deskMerged_marks, length_lastMarks,
    length_lastMarks, List.length_append, List.length_append, length_lastMarks, List.length_append,
    ← List.length_eq_zero_iff]
  simp only [true_and, and_true]
  omega

/-! ## Settled lots -/

/-- A row without a mark brings no marks. -/
theorem marks_eq_nil (h : lifeOfRow host now row = some life) (hmark : life.mark = none) :
    life.marks = [] := by
  rcases lifeOfRow_cases h with ⟨hclosed, -⟩ | ⟨hopen, -⟩
  · exact hclosed.marks
  · simp [hopen.marks, hmark]

/-- A row brings an event at least. -/
theorem events_ne_nil (h : lifeOfRow host now row = some life) : life.events ≠ [] := by
  rcases lifeOfRow_cases h with ⟨hclosed, -⟩ | ⟨hopen, -⟩
  · exact hclosed.events
  · exact hopen.events

/-- A marked row is not of a closed lot. -/
theorem status_ne_closed (h : lifeOfRow host now row = some life) (hmark : life.mark ≠ none) :
    life.status ≠ "closed" := by
  rcases lifeOfRow_cases h with ⟨hclosed, -⟩ | ⟨hopen, -⟩
  · exact absurd hclosed.mark hmark
  · simp [hopen.status]

/-- A marked row brings one mark. -/
theorem length_marks (h : lifeOfRow host now row = some life) (hmark : life.mark ≠ none) :
    life.marks.length = 1 := by
  rcases lifeOfRow_cases h with ⟨hclosed, -⟩ | ⟨hopen, -⟩
  · exact absurd hclosed.mark hmark
  · obtain ⟨mark, hmark⟩ := Option.ne_none_iff_exists'.mp hmark
    simp [hopen.marks, hmark]

/-- A row that a store has taken in leaves its lot settled. -/
theorem settled_of_idle (h : Idle host now store row) : Settled host now store row := by
  intro life hlife
  rcases h life hlife with ⟨-, existing, hget, hclosed⟩ | ⟨prior, hget, hsame⟩
  · rw [lifeOfRow_id hlife] at hget
    exact ⟨existing, hget, fun _ => .inl hclosed⟩
  · rw [deskMerged_id, lifeOfRow_id hlife] at hget
    refine ⟨prior, hget, fun hmark => .inr ?_⟩
    have hlength := (deskLifeChanged_eq_false.mp hsame).2.2.2.2.2.2.1
    rw [lifeOfRow_id hlife, deskMerged_marks, hget, length_lastMarks, List.length_append,
      length_marks hlife hmark, Option.map_some, Option.getD_some] at hlength
    omega

/-- A lot that is still there as its row has left it takes in nothing more of it. -/
theorem idle_of_settled {T : Store}
    (hleft : ∀ entry, T.lives.get? row.id = some entry →
      (ingestDeskRow host now store row).1.lives.get? row.id = some entry)
    (h : Settled host now T row) : Idle host now T row := by
  intro life hlife
  obtain ⟨existing, hget, hfull⟩ := h life hlife
  have hafter := hleft existing hget
  rcases ingestDeskRow_cases host now store row with ⟨hnone | ⟨other, hother, hopens⟩, heq⟩ |
    ⟨other, hother, -, heq⟩
  · rw [hlife] at hnone
    cases hnone
  · rw [hlife] at hother
    obtain rfl := Option.some.inj hother
    rw [heq] at hafter
    obtain ⟨hstatus, prior, hprior, hclosed⟩ := hopens
    rw [lifeOfRow_id hlife, hafter] at hprior
    obtain rfl := Option.some.inj hprior
    exact .inl ⟨hstatus, existing, by rw [lifeOfRow_id hlife, hget], hclosed⟩
  · rw [hlife] at hother
    obtain rfl := Option.some.inj hother
    rw [heq, lifeOfRow_id hlife] at hafter
    right
    rw [lifeOfRow_id hlife, hget]
    rcases storeLife_cases store (deskMerged life (store.lives.get? row.id)) with
      ⟨⟨prior, hprior, hsame⟩, heq⟩ | ⟨-, -, htrim⟩
    · -- the round trip was dropped, and would be again
      rw [heq] at hafter
      rw [deskMerged_id, lifeOfRow_id hlife, hafter] at hprior
      obtain rfl := Option.some.inj hprior
      rw [hafter] at hsame
      exact ⟨existing, by rw [deskMerged_id, lifeOfRow_id hlife, hget], hsame⟩
    · have hput := htrim.left row.id existing hafter
      rw [show (store.put _).lives.get? row.id = _ from Keyed.get?_put, deskMerged_id,
        lifeOfRow_id hlife, if_pos rfl] at hput
      obtain rfl := Option.some.inj hput
      refine ⟨_, by rw [deskMerged_id, lifeOfRow_id hlife, hget], ?_⟩
      refine (deskMerged_again _ _ (events_ne_nil hlife)).mpr ?_
      by_cases hmark : life.mark = none
      · exact .inl (marks_eq_nil hlife hmark)
      · right
        rcases hfull hmark with hclosed | hmarks
        · rw [deskMerged_status] at hclosed
          exact absurd hclosed (status_ne_closed hlife hmark)
        · rw [deskMerged_marks, length_lastMarks, List.length_append] at hmarks
          omega

/-! ## The first reading -/

/-- Between the readings of a row the other rows leave what is under its id, or evict
it. -/
theorem ingestDeskRow_get?_of_ne (host : Host) (now : String) (store : Store) {row : Row}
    {id : String} (hne : id ≠ row.id) :
    (∀ entry, (ingestDeskRow host now store row).1.lives.get? id = some entry →
        store.lives.get? id = some entry) ∧
      ∀ entry, store.lives.get? id = some entry → entry.status ≠ "closed" →
        entry.status ≠ "abandoned" →
        (ingestDeskRow host now store row).1.lives.get? id = some entry := by
  rcases ingestDeskRow_cases host now store row with ⟨-, heq⟩ | ⟨life, hlife, -, heq⟩
  · rw [heq]
    exact ⟨fun _ h => h, fun _ h _ _ => h⟩
  · rw [heq]
    rcases storeLife_cases store (deskMerged life (store.lives.get? life.id)) with
      ⟨-, heq⟩ | ⟨-, -, htrim⟩
    · rw [heq]
      exact ⟨fun _ h => h, fun _ h _ _ => h⟩
    -- the row writes under its own id, and eviction takes closed lives only
    · have hput : (store.put (deskMerged life (store.lives.get? life.id))).lives.get? id =
          store.lives.get? id := by
        refine Keyed.get?_put.trans (if_neg ?_)
        rw [deskMerged_id, lifeOfRow_id hlife]
        exact hne
      constructor
      · intro entry h
        rw [← hput]
        exact htrim.left id entry h
      · intro entry h hclosed habandoned
        rw [← hput] at h
        exact htrim.live id entry h hclosed habandoned

/-- The loop over the rows. -/
def readRows (host : Host) (now : String) (store : Store) (rows : List Row) : Store :=
  rows.foldl (fun store row => (ingestDeskRow host now store row).1) store

theorem ingestDeskClosedLots_fst : (ingestDeskClosedLots host now store rows).1 =
    readRows host now (removeGone host store rows).1 rows :=
  ingestAll_fst _ rows

@[simp] theorem readRows_cons : readRows host now store (row :: rows) =
    readRows host now (ingestDeskRow host now store row).1 rows := rfl

theorem readRows_append {others : List Row} : readRows host now store (rows ++ others) =
    readRows host now (readRows host now store rows) others := List.foldl_append

/-- The same for the rows of a list. -/
theorem readRows_get?_of_ne (host : Host) (now : String) (store : Store) {rows : List Row}
    {id : String} (hne : id ∉ rows.map Row.id) :
    (∀ entry, (readRows host now store rows).lives.get? id = some entry →
        store.lives.get? id = some entry) ∧
      ∀ entry, store.lives.get? id = some entry → entry.status ≠ "closed" →
        entry.status ≠ "abandoned" →
        (readRows host now store rows).lives.get? id = some entry := by
  induction rows generalizing store with
  | nil => exact ⟨fun _ h => h, fun _ h _ _ => h⟩
  | cons row rest ih =>
    rw [List.map_cons, List.mem_cons, not_or] at hne
    rw [readRows_cons]
    obtain ⟨hleft, hlive⟩ := ingestDeskRow_get?_of_ne host now store hne.1
    obtain ⟨hleft', hlive'⟩ := ih (ingestDeskRow host now store row).1 hne.2
    constructor
    · intro entry h
      exact hleft entry (hleft' entry h)
    · intro entry h hclosed habandoned
      exact hlive' entry (hlive entry h hclosed habandoned) hclosed habandoned

theorem removeGone_get? : (removeGone host store rows).1.lives.get? id =
    (store.lives.get? id).filter (! noLongerOpen (openIds host rows) ·) :=
  Keyed.get?_keep

theorem lifeOfRow_of_open (h : lifecycleFromDeskOpen host now row = some life) :
    lifeOfRow host now row = some life := by
  unfold lifeOfRow
  cases hclosed : lifecycleFromDeskClosed host row with
  | none => exact h
  | some closed =>
    have hopen := (lifecycleFromDeskOpen_spec h).2
    rw [(lifecycleFromDeskClosed_spec hclosed).2] at hopen
    cases hopen

/-- What an open row adds to the store is not evicted. -/
theorem ingestDeskRow_get?_of_open (hlife : lifeOfRow host now row = some life)
    (hopen : DeskOpen row life) (hidle : ¬ Idle host now store row) :
    (ingestDeskRow host now store row).1.lives.get? row.id =
      some (deskMerged life (store.lives.get? row.id)) := by
  rcases ingestDeskRow_cases host now store row with ⟨-, heq⟩ | ⟨other, hother, -, heq⟩
  · exact absurd (ingestDeskRow_idle.mp heq) hidle
  · rw [hlife] at hother
    obtain rfl := Option.some.inj hother
    rw [← hopen.id]
    rcases storeLife_cases store (deskMerged life (store.lives.get? life.id)) with
      ⟨-, hdropped⟩ | ⟨-, -, htrim⟩
    · exact absurd (ingestDeskRow_idle.mp (heq.trans hdropped)) hidle
    · rw [heq]
      refine htrim.live life.id _ (Keyed.get?_put.trans (if_pos ?_)) ?_ ?_
      · rw [deskMerged_id]
      · simp [hopen.status]
      · simp [hopen.status]

/-- Wherever reading again does nothing, the marks were full. -/
theorem marksFull_of_rereads (hdistinct : (rows.map Row.id).Nodup)
    (h : Rereads host now store rows) : ∀ row ∈ rows, MarksFull host now store row := by
  intro row hrow life hopenlife hmark
  obtain ⟨hopen, -⟩ := lifecycleFromDeskOpen_spec hopenlife
  have hlife := lifeOfRow_of_open hopenlife
  obtain ⟨-, hidle⟩ := ingestDeskClosedLots_idle.mp h
  have hrowidle := hidle row hrow
  obtain ⟨pre, post, rfl⟩ := List.append_of_mem hrow
  rw [ingestDeskClosedLots_fst, readRows_append, readRows_cons] at hrowidle
  rw [List.map_append, List.map_cons, List.nodup_append, List.nodup_cons] at hdistinct
  obtain ⟨-, ⟨hpost, -⟩, hpre⟩ := hdistinct
  have hpre : row.id ∉ pre.map Row.id := fun hmem => hpre _ hmem _ List.mem_cons_self rfl
  generalize hbefore : readRows host now (removeGone host store (pre ++ row :: post)).1 pre = before
    at hrowidle
  -- what is there before the row was there from the start
  have hstart : ∀ existing, before.lives.get? row.id = some existing →
      store.lives.get? row.id = some existing := by
    intro existing hget
    rw [← hbefore] at hget
    have hkept := (readRows_get?_of_ne host now _ hpre).1 existing hget
    rw [removeGone_get?, Option.filter_eq_some_iff] at hkept
    exact hkept.1
  by_cases hbeforeidle : Idle host now before row
  · obtain ⟨existing, hget, hfull⟩ := settled_of_idle hbeforeidle life hlife
    exact ⟨existing, hstart existing hget, (hfull hmark).imp_right (by omega)⟩
  · have hafter : (ingestDeskRow host now before row).1.lives.get? row.id =
        some (deskMerged life (before.lives.get? row.id)) :=
      ingestDeskRow_get?_of_open hlife hopen hbeforeidle
    have hlast := (readRows_get?_of_ne host now _ hpost).2 _ hafter
      (by simp [hopen.status]) (by simp [hopen.status])
    obtain ⟨existing, hget, hfull⟩ := settled_of_idle hrowidle life hlife
    rw [hlast] at hget
    obtain rfl := Option.some.inj hget
    rcases hfull hmark with hclosed | hmarks
    · rw [deskMerged_status] at hclosed
      exact absurd hclosed (status_ne_closed hlife hmark)
    · rw [deskMerged_marks, length_lastMarks, List.length_append, length_marks hlife hmark]
        at hmarks
      cases hget : before.lives.get? row.id with
      | none =>
        rw [hget] at hmarks
        simp at hmarks
      | some existing =>
        rw [hget, Option.map_some, Option.getD_some] at hmarks
        exact ⟨existing, hstart existing hget, .inr (by omega)⟩

/-! ## Within the cap -/

/-- All lots of the session have their ids among these. -/
def Within (ids : List String) (store : Store) : Prop :=
  ∀ life ∈ store.lives.values, life.history = false → life.id ∈ ids

variable {ids : List String}

/-- Putting a life in adds that life alone. -/
theorem mem_put {entry : Lifecycle} (h : entry ∈ (store.put life).lives.values) :
    entry ∈ store.lives.values ∨ entry = life := by
  rcases List.mem_append.mp h with h | h
  · exact .inl (List.mem_filter.mp h).1
  · exact .inr (List.mem_singleton.mp h)

theorem deskMerged_history (life : Lifecycle) (existing : Option Lifecycle) :
    (deskMerged life existing).history = life.history := by
  cases existing with
  | none => simp only [deskMerged]
  | some existing => simp only [deskMerged, Lifecycle.onto]

theorem lifeOfRow_history (h : lifeOfRow host now row = some life) : life.history = false := by
  rcases lifeOfRow_cases h with ⟨h, -⟩ | ⟨h, -⟩
  · exact h.history
  · exact h.history

/-- With room for all ids, a row leaves the store as it is or puts its round trip. -/
theorem ingestDeskRow_of_within (hroom : ids.length ≤ sessionLifecycleLimit)
    (hwithin : Within ids store)
    (hrow : ∀ life, lifeOfRow host now row = some life → life.id ∈ ids) :
    Idle host now store row ∧ (ingestDeskRow host now store row).1 = store ∨
      ∃ life, lifeOfRow host now row = some life ∧ ¬ Reopens store life ∧
        (ingestDeskRow host now store row).1 =
          store.put (deskMerged life (store.lives.get? life.id)) ∧
        Within ids (store.put (deskMerged life (store.lives.get? life.id))) := by
  by_cases hidle : Idle host now store row
  · exact .inl ⟨hidle, by rw [ingestDeskRow_idle.mpr hidle]⟩
  · right
    rcases ingestDeskRow_cases host now store row with ⟨-, heq⟩ | ⟨life, hlife, hopens, heq⟩
    · exact absurd (ingestDeskRow_idle.mp heq) hidle
    -- the merged life has the id of the row, which is one of the ids
    · have hput : Within ids (store.put (deskMerged life (store.lives.get? life.id))) := by
        intro entry hentry hsession
        rcases mem_put hentry with hentry | rfl
        · exact hwithin entry hentry hsession
        · rw [deskMerged_id]
          exact hrow life hlife
      refine ⟨life, hlife, hopens, ?_, hput⟩
      -- so there is room: the lives of the session are among the ids
      have hsession : (deskMerged life (store.lives.get? life.id)).history = false := by
        rw [deskMerged_history, lifeOfRow_history hlife]
      have hun : ¬ Unchanged store (deskMerged life (store.lives.get? life.id)) := by
        intro hun
        rw [storeLife_dropped hun] at heq
        exact hidle (ingestDeskRow_idle.mp heq)
      rw [heq, storeLife_of_le hun]
      rw [hsession]
      refine (Keyed.count_le_of_keys fun entry hentry hkind => ?_).trans hroom
      exact hput entry hentry (by simpa using hkind)

/-- Reading a row that was just read does nothing, if its marks were full. -/
theorem idle_after (hroom : ids.length ≤ sessionLifecycleLimit) (hwithin : Within ids store)
    (hrow : ∀ life, lifeOfRow host now row = some life → life.id ∈ ids)
    (hfull : MarksFull host now store row) :
    Idle host now (ingestDeskRow host now store row).1 row := by
  rcases ingestDeskRow_of_within hroom hwithin hrow with ⟨hidle, heq⟩ |
    ⟨life, hlife, hopens, heq, -⟩
  · rw [heq]
    exact hidle
  · refine idle_of_settled (fun _ h => h) fun other hother => ?_
    rw [hlife] at hother
    obtain rfl := Option.some.inj hother
    rw [heq, lifeOfRow_id hlife]
    refine ⟨deskMerged life (store.lives.get? row.id), Keyed.get?_put.trans (if_pos ?_), ?_⟩
    · rw [deskMerged_id, lifeOfRow_id hlife]
    · intro hmark
      rcases lifeOfRow_cases hlife with ⟨hclosed, -⟩ | ⟨hopen, hopenlife⟩
      · exact absurd hclosed.mark hmark
      · obtain ⟨existing, hget, hclosed | hmarks⟩ := hfull life hopenlife hmark
        · refine absurd ⟨status_ne_closed hlife hmark, existing, ?_, hclosed⟩ hopens
          rw [hopen.id, hget]
        · right
          rw [deskMerged_marks, hget, length_lastMarks, List.length_append,
            length_marks hlife hmark, Option.map_some, Option.getD_some]
          omega

/-- Whether a row is idle depends on what the store has of its lot. -/
theorem idle_congr {T : Store} (h : T.lives.get? row.id = store.lives.get? row.id) :
    Idle host now T row ↔ Idle host now store row := by
  refine forall_congr' fun life => forall_congr' fun hlife => ?_
  have hget : T.lives.get? life.id = store.lives.get? life.id := by
    rw [lifeOfRow_id hlife]
    exact h
  unfold Reopens Unchanged
  rw [deskMerged_id, deskMerged_id, hget]

/-- Within the cap a row touches its own lot alone, since nothing is evicted. -/
theorem get?_of_within (hroom : ids.length ≤ sessionLifecycleLimit) (hwithin : Within ids store)
    (hrow : ∀ life, lifeOfRow host now row = some life → life.id ∈ ids) (hne : id ≠ row.id) :
    (ingestDeskRow host now store row).1.lives.get? id = store.lives.get? id ∧
      Within ids (ingestDeskRow host now store row).1 := by
  rcases ingestDeskRow_of_within hroom hwithin hrow with ⟨-, heq⟩ | ⟨life, hlife, -, heq, hput⟩
  · rw [heq]
    exact ⟨rfl, hwithin⟩
  · rw [heq]
    refine ⟨Keyed.get?_put.trans (if_neg ?_), hput⟩
    rw [deskMerged_id, lifeOfRow_id hlife]
    exact hne

/-- So do the rows of a list. -/
theorem readRows_get?_of_within (hroom : ids.length ≤ sessionLifecycleLimit)
    (hwithin : Within ids store)
    (hrows : ∀ row ∈ rows, ∀ life, lifeOfRow host now row = some life → life.id ∈ ids)
    (hne : id ∉ rows.map Row.id) :
    (readRows host now store rows).lives.get? id = store.lives.get? id := by
  induction rows generalizing store with
  | nil => rfl
  | cons row rest ih =>
    rw [List.map_cons, List.mem_cons, not_or] at hne
    obtain ⟨hrow, hrest⟩ := List.forall_mem_cons.mp hrows
    obtain ⟨hget, hnext⟩ := get?_of_within hroom hwithin hrow hne.1
    rw [readRows_cons, ih hnext hrest hne.2, hget]

/-- Every row is idle after the loop: after its own turn, and the others leave it so. -/
theorem readRows_idle (hroom : ids.length ≤ sessionLifecycleLimit) (hwithin : Within ids store)
    (hrows : ∀ row ∈ rows, ∀ life, lifeOfRow host now row = some life → life.id ∈ ids)
    (hdistinct : (rows.map Row.id).Nodup) (hfull : ∀ row ∈ rows, MarksFull host now store row) :
    ∀ row ∈ rows, Idle host now (readRows host now store rows) row := by
  induction rows generalizing store with
  | nil => exact fun row hrow => absurd hrow List.not_mem_nil
  | cons row rest ih =>
    rw [List.map_cons, List.nodup_cons] at hdistinct
    obtain ⟨hrow, hrest⟩ := List.forall_mem_cons.mp hrows
    obtain ⟨hrowfull, hrestfull⟩ := List.forall_mem_cons.mp hfull
    have hnext : Within ids (ingestDeskRow host now store row).1 := by
      rcases ingestDeskRow_of_within hroom hwithin hrow with ⟨-, heq⟩ | ⟨life, -, -, heq, hput⟩
      · rw [heq]
        exact hwithin
      · rw [heq]
        exact hput
    rw [readRows_cons, List.forall_mem_cons]
    constructor
    · rw [idle_congr (readRows_get?_of_within hroom hnext hrest hdistinct.1)]
      exact idle_after hroom hwithin hrow hrowfull
    · refine ih hnext hrest hdistinct.2 fun other hother life hlife hmark => ?_
      have hne : other.id ≠ row.id := by
        intro heq
        exact hdistinct.1 (heq ▸ List.mem_map_of_mem hother)
      rw [(get?_of_within hroom hwithin hrow hne).1]
      exact hrestfull other hother life hlife hmark

/-! ## Removals -/

/-- A lot of the snapshot is closed or among its open ones. -/
theorem deskMerged_listed (hrow : row ∈ rows) (hlife : lifeOfRow host now row = some life)
    (existing : Option Lifecycle) :
    noLongerOpen (openIds host rows) (deskMerged life existing) = false := by
  unfold noLongerOpen
  rw [deskMerged_id, deskMerged_status]
  rcases lifeOfRow_cases hlife with ⟨hclosed, -⟩ | ⟨hopen, hopenlife⟩
  · simp [hclosed.status]
  · have hmem : row.id ∈ openIds host rows := by
      refine List.mem_map_of_mem (List.mem_filter.mpr ⟨hrow, ?_⟩)
      simp [hopen.named, (lifecycleFromDeskOpen_spec hopenlife).2]
    simp [hopen.id, hmem]

/-- What the loop over the rows leaves, the loop over the store does not remove. -/
theorem readRows_listed {all : List Row} (hsub : rows ⊆ all)
    (h : ∀ life ∈ store.lives.values, noLongerOpen (openIds host all) life = false) :
    ∀ life ∈ (readRows host now store rows).lives.values,
      noLongerOpen (openIds host all) life = false := by
  induction rows generalizing store with
  | nil => exact h
  | cons row rest ih =>
    obtain ⟨hrow, hrest⟩ := List.cons_subset.mp hsub
    rw [readRows_cons]
    refine ih hrest fun entry hentry => ?_
    rcases ingestDeskRow_cases host now store row with ⟨-, heq⟩ | ⟨life, hlife, -, heq⟩
    · rw [heq] at hentry
      exact h entry hentry
    · rw [heq] at hentry
      rcases storeLife_cases store (deskMerged life (store.lives.get? life.id)) with
        ⟨-, heq⟩ | ⟨-, -, htrim⟩
      · rw [heq] at hentry
        exact h entry hentry
      · have hget := htrim.left entry.id entry (Keyed.get?_eq_some.mpr ⟨hentry, rfl⟩)
        rcases mem_put (Keyed.get?_eq_some.mp hget).1 with hentry | rfl
        · exact h entry hentry
        · exact deskMerged_listed hrow hlife _

/-- What is left of the open lots is listed. -/
theorem removeGone_listed :
    ∀ life ∈ (removeGone host store rows).1.lives.values,
      noLongerOpen (openIds host rows) life = false := by
  intro life hlife
  simpa using (List.mem_filter.mp hlife).2

/-- The loop over the store removes no lot of an open row. -/
theorem marksFull_removeGone (hrow : row ∈ rows) (h : MarksFull host now store row) :
    MarksFull host now (removeGone host store rows).1 row := by
  intro life hopenlife hmark
  obtain ⟨existing, hget, hexisting⟩ := h life hopenlife hmark
  refine ⟨existing, ?_, hexisting⟩
  obtain ⟨hopen, hreadout⟩ := lifecycleFromDeskOpen_spec hopenlife
  have hmem : row.id ∈ openIds host rows := by
    refine List.mem_map_of_mem (List.mem_filter.mpr ⟨hrow, ?_⟩)
    simp [hopen.named, hreadout]
  rw [removeGone_get?, hget, Option.filter_some_pos]
  simp [noLongerOpen, Keyed.key_of_get? hget, hmem]

end

/-! ## Reading again -/

/-- Where the marks are full and the list fits, the second call finds each row idle. -/
theorem rereads_of_marksFull {host : Host} {now : String} {store : Store} {rows : List Row}
    (hdistinct : (rows.map Row.id).Nodup) (hfits : Fits host now store rows)
    (hfull : ∀ row ∈ rows, MarksFull host now store row) : Rereads host now store rows := by
  refine ingestDeskClosedLots_idle.mpr ?_
  rw [ingestDeskClosedLots_fst]
  refine ⟨readRows_listed (List.Subset.refl rows) removeGone_listed, ?_⟩
  refine readRows_idle hfits ?_ ?_ hdistinct
    fun row hrow => marksFull_removeGone hrow (hfull row hrow)
  · intro life hlife hsession
    obtain ⟨hmem, hkept⟩ := List.mem_filter.mp hlife
    refine List.mem_dedup.mpr (List.mem_append_left _ (List.mem_map_of_mem ?_))
    exact List.mem_filter.mpr ⟨hmem, by simp_all⟩
  · intro row hrow life hlife
    refine List.mem_dedup.mpr (List.mem_append_right _ (List.mem_map_of_mem ?_))
    exact List.mem_filterMap.mpr ⟨row, hrow, hlife⟩

/-- Reading again does nothing exactly where the first reading leaves every lot settled. -/
theorem rereads_iff_settled {host : Host} {now : String} {store : Store} {rows : List Row}
    (hdistinct : (rows.map Row.id).Nodup) :
    Rereads host now store rows ↔
      ∀ row ∈ rows, Settled host now (ingestDeskClosedLots host now store rows).1 row := by
  constructor
  · intro h row hrow
    exact settled_of_idle ((ingestDeskClosedLots_idle.mp h).2 row hrow)
  · intro h
    refine ingestDeskClosedLots_idle.mpr ?_
    rw [ingestDeskClosedLots_fst] at h ⊢
    refine ⟨readRows_listed (List.Subset.refl rows) removeGone_listed, fun row hrow => ?_⟩
    have hsettled := h row hrow
    obtain ⟨pre, post, hsplit⟩ := List.append_of_mem hrow
    generalize (removeGone host store rows).1 = start at hsettled ⊢
    subst hsplit
    rw [List.map_append, List.map_cons, List.nodup_append, List.nodup_cons] at hdistinct
    rw [readRows_append, readRows_cons] at hsettled ⊢
    exact idle_of_settled (readRows_get?_of_ne host now _ hdistinct.2.1.1).1 hsettled

/-- Reading a snapshot again does nothing exactly where the first reading leaves every
lot of it in the store, and with no room for a mark that its row has. Where the lots of
the session and those of the snapshot fit, that is where the marks of the open ones were
full before, and beyond the cap they have to be full as well. -/
theorem reread_iff (host : Host) (now : String) (store : Store) (rows : List Row)
    (hdistinct : (rows.map Row.id).Nodup) :
    (Rereads host now store rows ↔
      ∀ row ∈ rows, Settled host now (ingestDeskClosedLots host now store rows).1 row) ∧
    (Fits host now store rows →
      (Rereads host now store rows ↔ ∀ row ∈ rows, MarksFull host now store row)) ∧
    (Rereads host now store rows → ∀ row ∈ rows, MarksFull host now store row) := by
  refine ⟨rereads_iff_settled hdistinct, fun hfits => ?_, marksFull_of_rereads hdistinct⟩
  exact ⟨marksFull_of_rereads hdistinct, rereads_of_marksFull hdistinct hfits⟩

/-- The row of an open lot. -/
def openRow (mark : Js) : Row where
  id := "lot"
  symbol := "XBT/USD"
  fills := []
  get key :=
    if key = "opened_at" then .str "2026-01-01T00:00:00.000Z"
    else if key = "mark" then mark
    else .undefined

/-- The row of the same lot once it is closed. -/
def soldRow : Row :=
  { openRow .undefined with
    get := fun key =>
      if key = "closed_at" then .str "2026-01-01T01:00:00.000Z"
      else if key = "pnl_pct" then .num 1
      else (openRow .undefined).get key }

/-- A row with a mark that comes after the lot was recorded as closed is read again as it
was. -/
theorem reread_iff_marked :
    Rereads .plain "now" (ingestDeskRow .plain "now" .empty soldRow).1 [openRow (.num 100)] := by
  refine ((reread_iff .plain "now" _ [openRow (.num 100)] (List.nodup_singleton _)).2.1
    ?_).mpr ?_
  · show (["lot", "lot"] : List String).dedup.length ≤ 200
    simp
  · intro row hrow life _ _
    obtain rfl := List.mem_singleton.mp hrow
    exact ⟨_, rfl, .inl rfl⟩

/-- The second reading of an open lot takes its mark once more. -/
theorem mark_taken_twice :
    ¬ ∀ (host : Host) (now : String) (store : Store) (rows : List Row),
      store.count false < sessionLifecycleLimit → (rows.map Row.id).Nodup →
      Rereads host now store rows := by
  intro h
  have hdistinct : ([openRow (.num 100)].map Row.id).Nodup := List.nodup_singleton _
  have hreads := h .plain "now" .empty [openRow (.num 100)] (show 0 < 200 by simp) hdistinct
  have hfull := marksFull_of_rereads hdistinct hreads _ List.mem_cons_self
  obtain ⟨existing, hget, -⟩ := hfull _ rfl nofun
  cases hget

end Symm.Dashboard
