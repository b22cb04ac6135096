import Mathlib.Data.Prod.Lex
import Mathlib.Data.List.Dedup
import Mathlib.Data.List.Pairwise
import Symm.Dashboard.Lifecycles
import Symm.Lib.Register

/-!
# Closed lots out of the history (`lib/lifecycle.ts`)

The hub lists the closed lots of three books, one frame a book, and an entry for a lot
may come again with a newer stamp. `ingestHistoryClosedEntry` passes over what is older
than the last entry of the lot, so the newest one has the last word. It is merged with
the entry before it, though, which keeps the events and gives what the newest lacks,
and the result is dropped where `deskLifeChanged` sees no difference. Both depend on
what came first.

- `mergeEntry`, `registerOf`: a lot of the history as a register that the newest entry wins;
- `Yields`: an entry that leaves no trace when a newer one is taken over it;
- `history_order_iff`: when the order does not matter.

- `Register`: a value with the stamp of the entry that it came from;
- `registerOf_perm`: below the cap the lots do not see each other, so the entries of one
  lot may be taken alone;
- `foldl_over_of_yields`: what the newest entry leaves of the ones before it;
- `NewestWins`, `OrderFree`: the two sides of `history_order_iff`.
-/

namespace Symm.Dashboard

open Symm.Lib

/-- The stamps in their order: by epoch, then by tick, then by timestamp. -/
def stampKey (stamp : HistoryStamp) : ℤ ×ₗ ℤ ×ₗ ℤ :=
  toLex (stamp.epoch, toLex (stamp.tick, stamp.timestamp))

/-- The round trip of an entry. -/
def lifeOfEntry (host : Host) (entry : ClosedHistoryEntry) : Option Lifecycle :=
  (lifecycleFromDeskClosed host entry.row).map Lifecycle.ofHistory

/-- What `storeLife` leaves of a round trip taken over another. -/
def takenOver (life : Lifecycle) : Option Lifecycle → Lifecycle
  | none => life
  | some existing =>
    if deskLifeChanged existing (historyMerged life (some existing)) then
      historyMerged life (some existing)
    else existing

/-- An entry taken over what there is of its lot. -/
def mergeEntry (host : Host) (existing : Option Lifecycle) (entry : ClosedHistoryEntry) :
    Option Lifecycle :=
  match lifeOfEntry host entry with
  | none => existing
  | some life => some (takenOver life existing)

/-- The stamp of an entry. -/
def entryKey (entry : ClosedHistoryEntry) : ℤ ×ₗ ℤ ×ₗ ℤ := stampKey entry.stamp

/-- A stamp that was recorded, below all others where none was. -/
def recordedKey : Option HistoryStamp → WithBot (ℤ ×ₗ ℤ ×ₗ ℤ)
  | none => ⊥
  | some stamp => ↑(stampKey stamp)

/-- The lot and the stamp under an id. -/
def registerOf (store : Store) (id : String) : Register (Option Lifecycle) (ℤ ×ₗ ℤ ×ₗ ℤ) :=
  (store.lives.get? id, recordedKey (store.stamps id))

/-- The store after some calls of `ingestHistoryClosedBatch`. -/
def ingestBatches (host : Host) (store : Store)
    (batches : List (List ClosedHistoryEntry)) : Store :=
  batches.foldl (fun store entries => (ingestHistoryClosedBatch host store entries).1) store

/-! ## One entry -/

/-- Stamps are compared as the triples they are, first figure first. -/
theorem historyFrameIsNewerStamp_iff {stamp prior : HistoryStamp} :
    historyFrameIsNewerStamp stamp prior = true ↔ stampKey prior < stampKey stamp := by
  unfold historyFrameIsNewerStamp stampKey
  rw [Prod.Lex.toLex_lt_toLex, Prod.Lex.toLex_lt_toLex]
  split
  · next hepoch =>
    rw [decide_eq_true_iff]
    omega
  · next hepoch =>
    split
    · rw [decide_eq_true_iff]
      omega
    · rw [decide_eq_true_iff]
      omega

/-- A stamp is its three figures. -/
theorem stampKey_inj {a b : HistoryStamp} (h : stampKey a = stampKey b) : a = b := by
  cases a
  cases b
  simpa [stampKey] using h

/-- Lots of the listed ids come out of the history, and those of the history have their
ids among these. -/
structure Roomy (ids listed : List String) (store : Store) : Prop where
  within : ∀ life ∈ store.lives.values, life.history = true → life.id ∈ ids
  restored : ∀ life ∈ store.lives.values, life.id ∈ listed → life.history = true

section

variable {host : Host} {store : Store} {entry : ClosedHistoryEntry} {life : Lifecycle}
  {ids listed : List String}

theorem historyMerged_history (life : Lifecycle) (existing : Option Lifecycle) :
    (historyMerged life existing).history = life.history := by
  cases existing with
  | none => rfl
  | some existing => simp only [historyMerged, Lifecycle.onto]

/-- With room for all ids, what is stored is put and nothing is evicted. -/
theorem storeLife_of_roomy (life : Lifecycle) (hroom : ids.length ≤ historyLifecycleCap)
    (h : Roomy ids listed store) (hhistory : life.history = true) (hid : life.id ∈ ids) :
    Roomy ids listed (storeLife store life).1 ∧
      (storeLife store life).1.stamps = store.stamps ∧
      (∀ id, id ≠ life.id → (storeLife store life).1.lives.get? id = store.lives.get? id) ∧
      (¬ Unchanged store life → (storeLife store life).1.lives.get? life.id = some life) := by
  -- where nothing looks changed the store is left as it is
  by_cases hun : Unchanged store life
  · rw [storeLife_dropped hun]
    exact ⟨h, rfl, fun _ _ => rfl, fun hchanged => absurd hun hchanged⟩
  · have hput : Roomy ids listed (store.put life) := by
      constructor
      · intro entry hentry hkind
        rcases List.mem_append.mp hentry with hentry | hentry
        · exact h.within entry (List.mem_filter.mp hentry).1 hkind
        · rw [List.mem_singleton.mp hentry]
          exact hid
      · intro entry hentry hlisted
        rcases List.mem_append.mp hentry with hentry | hentry
        · exact h.restored entry (List.mem_filter.mp hentry).1 hlisted
        · rw [List.mem_singleton.mp hentry]
          exact hhistory
    -- there is room for all the ids, so nothing is evicted
    have hle : (store.put life).count life.history ≤ lifecycleLimit life.history := by
      rw [hhistory]
      refine (Keyed.count_le_of_keys fun entry hentry hkind => ?_).trans hroom
      exact hput.within entry hentry (by simpa using hkind)
    rw [storeLife_of_le hun hle]
    exact ⟨hput, rfl, fun id hne => Keyed.get?_put.trans (if_neg hne),
      fun _ => Keyed.get?_put.trans (if_pos rfl)⟩

/-- The stamp recorded for the lot passes an entry over, or not. -/
theorem passed_iff (store : Store) (entry : ClosedHistoryEntry) :
    (store.stamps entry.row.id).any (! historyFrameIsNewerStamp entry.stamp ·) = true ↔
      ¬ Newer entryKey (registerOf store entry.row.id) entry := by
  unfold Newer registerOf
  cases store.stamps entry.row.id with
  | none => simp [recordedKey]
  | some prior =>
    have hlt : (↑(stampKey prior) : WithBot (ℤ ×ₗ ℤ ×ₗ ℤ)) < ↑(entryKey entry) ↔
        historyFrameIsNewerStamp entry.stamp prior = true :=
      WithBot.coe_lt_coe.trans historyFrameIsNewerStamp_iff.symm
    simp [recordedKey, hlt]

theorem registerOf_stamp (store : Store) (id : String) (stamp : HistoryStamp) :
    registerOf (store.stamp id stamp) id = (store.lives.get? id, ↑(stampKey stamp)) := by
  simp [registerOf, Store.stamp, recordedKey]

theorem registerOf_stamp_ne {id other : String} (store : Store) (stamp : HistoryStamp)
    (h : other ≠ id) : registerOf (store.stamp id stamp) other = registerOf store other := by
  simp [registerOf, Store.stamp, h]

theorem registerOf_eq {next : Store} {id : String} {value : Option Lifecycle}
    (hget : next.lives.get? id = value) (hstamps : next.stamps = store.stamps) :
    registerOf next id = (value, (registerOf store id).2) := by
  simp [registerOf, hget, hstamps]

/-- What is stored of an entry is what it makes of the lot that there is. -/
theorem storeLife_takenOver (life : Lifecycle) (hroom : ids.length ≤ historyLifecycleCap)
    (h : Roomy ids listed store) (hhistory : life.history = true) (hid : life.id ∈ ids) :
    (storeLife store (historyMerged life (store.lives.get? life.id))).1.lives.get? life.id =
      some (takenOver life (store.lives.get? life.id)) := by
  obtain ⟨-, -, -, hput⟩ := storeLife_of_roomy (historyMerged life (store.lives.get? life.id))
    hroom h ((historyMerged_history life _).trans hhistory) (by rwa [historyMerged_id])
  rw [historyMerged_id] at hput
  cases hget : store.lives.get? life.id with
  | none =>
    rw [hget] at hput
    refine hput ?_
    rintro ⟨prior, hprior, -⟩
    rw [historyMerged_id, hget] at hprior
    cases hprior
  | some existing =>
    rw [hget] at hput
    show _ = some (if _ then _ else _)
    -- a merged life that looks like the one before is dropped, and that one stays
    by_cases hchanged : deskLifeChanged existing (historyMerged life (some existing)) = true
    · rw [if_pos hchanged]
      refine hput ?_
      rintro ⟨prior, hprior, hsame⟩
      rw [historyMerged_id, hget] at hprior
      obtain rfl := Option.some.inj hprior
      rw [hchanged] at hsame
      cases hsame
    · rw [if_neg hchanged, storeLife_dropped ⟨existing, ?_, by simpa using hchanged⟩, hget]
      rw [historyMerged_id, hget]

/-- An entry of a listed lot goes into the register of the lot, and into no other. -/
theorem ingestHistoryClosedEntry_register (host : Host) (hroom : ids.length ≤ historyLifecycleCap)
    (hsub : listed ⊆ ids) (h : Roomy ids listed store) (hnamed : entry.row.id ≠ "")
    (hlisted : entry.row.id ∈ listed) :
    Roomy ids listed (ingestHistoryClosedEntry host store entry).1 ∧
      registerOf (ingestHistoryClosedEntry host store entry).1 entry.row.id =
        take (mergeEntry host) entryKey (registerOf store entry.row.id) entry ∧
      ∀ id, id ≠ entry.row.id →
        registerOf (ingestHistoryClosedEntry host store entry).1 id = registerOf store id := by
  -- a lot of the listing that is there was restored, so it does not bar the entry
  have hrestored : ¬ (store.lives.get? entry.row.id).any (! ·.history) = true := by
    rw [Option.any_eq_true]
    rintro ⟨existing, hget, hlive⟩
    obtain ⟨hmem, hid⟩ := Keyed.get?_eq_some.mp hget
    simp [h.restored existing hmem (hid ▸ hlisted)] at hlive
  unfold ingestHistoryClosedEntry
  dsimp only
  rw [if_neg hnamed, if_neg hrestored]
  by_cases hpassed :
      (store.stamps entry.row.id).any (! historyFrameIsNewerStamp entry.stamp ·) = true
  · -- the stamp is passed, and the register keeps what it has
    rw [if_pos hpassed]
    refine ⟨h, ?_, fun _ _ => rfl⟩
    exact (if_neg ((passed_iff store entry).mp hpassed)).symm
  · have hnewer : Newer entryKey (registerOf store entry.row.id) entry :=
      not_not.mp (mt (passed_iff store entry).mpr hpassed)
    rw [if_neg hpassed, take, if_pos hnewer]
    have hstamped : Roomy ids listed (store.stamp entry.row.id entry.stamp) :=
      ⟨h.within, h.restored⟩
    cases hlife : lifecycleFromDeskClosed host entry.row with
    -- an entry that makes no lot still leaves its stamp
    | none =>
      refine ⟨hstamped, ?_, fun id hne => registerOf_stamp_ne store entry.stamp hne⟩
      rw [registerOf_stamp]
      simp only [mergeEntry, lifeOfEntry, hlife, Option.map_none]
      rfl
    | some life =>
      have hid : life.ofHistory.id = entry.row.id := (lifecycleFromDeskClosed_spec hlife).1.id
      have hmerge : mergeEntry host (registerOf store entry.row.id).1 entry =
          some (takenOver life.ofHistory (store.lives.get? entry.row.id)) := by
        simp only [mergeEntry, lifeOfEntry, hlife, Option.map_some]
        rfl
      have hmember : life.ofHistory.id ∈ ids := hid ▸ hsub hlisted
      have hmerged :
          (historyMerged life.ofHistory (store.lives.get? entry.row.id)).history = true :=
        historyMerged_history _ _
      have hmergedid : (historyMerged life.ofHistory (store.lives.get? entry.row.id)).id =
          entry.row.id := (historyMerged_id _ _).trans hid
      obtain ⟨hnext, hstamps, hother, -⟩ :=
        storeLife_of_roomy _ hroom hstamped hmerged (by rw [hmergedid]; exact hsub hlisted)
      have htaken := storeLife_takenOver life.ofHistory hroom hstamped rfl hmember
      rw [hid] at htaken
      refine ⟨hnext, ?_, fun id hne => ?_⟩
      · refine (registerOf_eq htaken hstamps).trans ?_
        rw [registerOf_stamp, hmerge]
        rfl
      · rw [← registerOf_stamp_ne store entry.stamp hne]
        refine registerOf_eq (hother id ?_) hstamps
        rw [hmergedid]
        exact hne

/-! ## A list of entries -/

/-- The store after the entries, one after the other. -/
def readEntries (host : Host) (store : Store) (entries : List ClosedHistoryEntry) : Store :=
  entries.foldl (fun store entry => (ingestHistoryClosedEntry host store entry).1) store

/-- The split of the entries over the calls makes no difference. -/
theorem ingestBatches_eq (host : Host) (store : Store) (batches : List (List ClosedHistoryEntry)) :
    ingestBatches host store batches = readEntries host store batches.flatten := by
  unfold ingestBatches readEntries
  induction batches generalizing store with
  | nil => rfl
  | cons entries rest ih =>
    rw [List.foldl_cons, List.flatten_cons, List.foldl_append, ih]
    congr 1
    exact ingestAll_fst (store, false) entries

/-- Each lot is the register of its own entries. -/
theorem readEntries_register {entries : List ClosedHistoryEntry}
    (hroom : ids.length ≤ historyLifecycleCap) (hsub : listed ⊆ ids) (h : Roomy ids listed store)
    (hentries : ∀ entry ∈ entries, entry.row.id ≠ "" ∧ entry.row.id ∈ listed) (id : String) :
    registerOf (readEntries host store entries) id =
      (entries.filter (·.row.id = id)).foldl (take (mergeEntry host) entryKey)
        (registerOf store id) := by
  induction entries generalizing store with
  | nil => rfl
  | cons entry rest ih =>
    obtain ⟨⟨hnamed, hlisted⟩, hrest⟩ := List.forall_mem_cons.mp hentries
    obtain ⟨hnext, hown, hother⟩ :=
      ingestHistoryClosedEntry_register host hroom hsub h hnamed hlisted
    show registerOf (readEntries host (ingestHistoryClosedEntry host store entry).1 rest) id = _
    rw [ih hnext hrest]
    by_cases hid : entry.row.id = id
    · rw [List.filter_cons_of_pos (by simpa using hid), List.foldl_cons, ← hid, hown]
    · rw [List.filter_cons_of_neg (by simpa using hid), hother id (Ne.symm hid)]

end

/-! ## Taking one entry over another -/

@[simp] theorem Details.orElse_self (details : Details) : details.orElse details = details := by
  cases details
  simp [Details.orElse]

theorem Details.orElse_assoc (a b c : Details) : (a.orElse b).orElse c = a.orElse (b.orElse c) := by
  simp [Details.orElse, Option.or_assoc]

/-- A lot out of the history: closed with an outcome, without marks. -/
structure Restored (life : Lifecycle) : Prop where
  mark : life.mark = none
  marks : life.marks = []
  events : life.events ≠ []
  outcome : life.outcome ≠ none

/-- The older round trip leaves no trace in the newer one: it has the same events and
no detail that the newer one lacks, and looks different, if it is not the same. -/
def Yields (older newer : Lifecycle) : Prop :=
  older.events = newer.events ∧ newer.toDetails.orElse older.toDetails = newer.toDetails ∧
    (deskLifeChanged older newer = true ∨ older = newer)

theorem Yields.refl (life : Lifecycle) : Yields life life :=
  ⟨rfl, Details.orElse_self _, .inr rfl⟩

section

variable {older newer life : Lifecycle}

theorem orElse_of_ne_none {α : Type} {a : Option α} (b : Option α) (h : a ≠ none) :
    (a <|> b) = a := by
  cases a with
  | none => exact absurd rfl h
  | some a => rfl

/-- Of a lot out of the history the next one gets the events and the missing details. -/
theorem historyMerged_restored (holder : Restored older) (hnewer : Restored newer) :
    historyMerged newer (some older) =
      { newer with
        toDetails := newer.toDetails.orElse older.toDetails
        events := older.events } := by
  simp only [historyMerged, Lifecycle.onto]
  rw [if_pos holder.events, if_neg (not_not.mpr holder.marks), holder.mark, hnewer.mark,
    hnewer.marks, orElse_of_ne_none _ hnewer.outcome]
  simp

/-- A life that was taken over is one that the history restored. -/
theorem Restored.takenOver {existing : Option Lifecycle} (h : Restored life)
    (hexisting : ∀ existing' ∈ existing, Restored existing') :
    Restored (takenOver life existing) := by
  cases existing with
  | none => exact h
  | some existing =>
    have hrestored := hexisting existing rfl
    unfold Dashboard.takenOver
    dsimp only
    split
    · rw [historyMerged_restored hrestored h]
      exact ⟨h.mark, h.marks, hrestored.events, h.outcome⟩
    · exact hrestored

/-- The newer one is what is left exactly where the older one yields. -/
theorem takenOver_iff (holder : Restored older) (hnewer : Restored newer) :
    takenOver newer (some older) = newer ↔ Yields older newer := by
  unfold takenOver
  dsimp only
  rw [historyMerged_restored holder hnewer]
  constructor
  · intro h
    split at h
    · next hchanged =>
      have hdetails := congrArg Lifecycle.toDetails h
      have hevents := congrArg Lifecycle.events h
      rw [h] at hchanged
      exact ⟨hevents, hdetails, .inl hchanged⟩
    · rw [h]
      exact Yields.refl newer
  · rintro ⟨hevents, hdetails, hchanged⟩
    have hsame : ({ newer with
        toDetails := newer.toDetails.orElse older.toDetails
        events := older.events } : Lifecycle) = newer := by
      rw [hevents, hdetails]
    rw [hsame]
    rcases hchanged with hchanged | rfl
    · rw [if_pos hchanged]
    · rw [ite_self]

/-- One that yields, taken over another that does, yields. -/
theorem Yields.takenOver {newest : Lifecycle} (holder : Restored older) (hnewer : Restored newer)
    (h : Yields older newest) (h' : Yields newer newest) :
    Yields (takenOver newer (some older)) newest := by
  unfold Dashboard.takenOver
  dsimp only
  split
  · rw [historyMerged_restored holder hnewer]
    obtain ⟨hevents, hdetails, -⟩ := h
    obtain ⟨hevents', hdetails', hchanged⟩ := h'
    refine ⟨hevents, ?_, ?_⟩
    · rw [← Details.orElse_assoc, hdetails', hdetails]
    · rcases hchanged with hchanged | rfl
      · left
        rw [← hchanged]
        simp [deskLifeChanged, hevents, hevents']
      · right
        rw [hevents, hdetails]
  · exact h

end

/-! ## Any order -/

/-- The row of every entry is accepted, and has an outcome. -/
def Accepted (host : Host) (entries : List ClosedHistoryEntry) : Prop :=
  ∀ entry ∈ entries, ∃ life, lifeOfEntry host entry = some life ∧ life.outcome ≠ none

/-- The entries of a lot have stamps of their own. -/
def DistinctStamps (entries : List ClosedHistoryEntry) : Prop :=
  entries.Pairwise fun a b => a.row.id = b.row.id → a.stamp ≠ b.stamp

/-- The entry of its lot with the greatest stamp. -/
def IsNewest (entries : List ClosedHistoryEntry) (newest : ClosedHistoryEntry) : Prop :=
  ∀ entry ∈ entries, entry.row.id = newest.row.id → entry ≠ newest →
    historyFrameIsNewerStamp newest.stamp entry.stamp = true

/-- The entry is newer than what is recorded of its lot. -/
def Fresh (store : Store) (entry : ClosedHistoryEntry) : Prop :=
  ∀ stamp ∈ store.stamps entry.row.id, historyFrameIsNewerStamp entry.stamp stamp = true

/-- The dates, the outcome, the path and the trigger of the exit are the entry's, where it
gives them. -/
structure Shown (fresh life : Lifecycle) : Prop where
  openedAt : life.openedAt = fresh.openedAt
  closedAt : life.closedAt = fresh.closedAt
  outcome : life.outcome = fresh.outcome
  path : ∀ path ∈ fresh.path, life.path = some path
  exitTrigger : ∀ trigger ∈ fresh.exitTrigger, life.exitTrigger = some trigger

/-- Whatever the order of the entries and their split over the calls, the lots are the
same, and each shows its newest entry. -/
def OrderFree (host : Host) (store : Store) (entries : List ClosedHistoryEntry) : Prop :=
  ∃ lives : String → Option Lifecycle,
    (∀ batches : List (List ClosedHistoryEntry), batches.flatten.Perm entries →
      ∀ id, (ingestBatches host store batches).lives.get? id = lives id) ∧
    ∀ newest ∈ entries, IsNewest entries newest → ∀ fresh, lifeOfEntry host newest = some fresh →
      ∃ life, lives newest.row.id = some life ∧ Shown fresh life

/-- The newest entry of each lot is fresh, and the other fresh ones yield to it. -/
def NewestWins (host : Host) (store : Store) (entries : List ClosedHistoryEntry) : Prop :=
  ∀ newest ∈ entries, IsNewest entries newest → Fresh store newest ∧
    ∀ entry ∈ entries, entry.row.id = newest.row.id → Fresh store entry →
      ∀ older newer, lifeOfEntry host entry = some older → lifeOfEntry host newest = some newer →
        Yields older newer

section

variable {host : Host} {store : Store} {entries : List ClosedHistoryEntry}
  {entry newest : ClosedHistoryEntry}

/-- An entry with an outcome gives a life of the lot it names. -/
theorem lifeOfEntry_spec {life : Lifecycle} (h : lifeOfEntry host entry = some life)
    (houtcome : life.outcome ≠ none) :
    Restored life ∧ life.id = entry.row.id ∧ entry.row.id ≠ "" := by
  obtain ⟨closed, hclosed, rfl⟩ := Option.map_eq_some_iff.mp h
  obtain ⟨hdesk, -⟩ := lifecycleFromDeskClosed_spec hclosed
  exact ⟨⟨hdesk.mark, hdesk.marks, hdesk.events, houtcome⟩, hdesk.id, hdesk.named⟩

theorem Accepted.restored {life : Lifecycle} (haccepted : Accepted host entries)
    (hentry : entry ∈ entries) (hlife : lifeOfEntry host entry = some life) : Restored life := by
  obtain ⟨other, hother, houtcome⟩ := haccepted entry hentry
  rw [hlife] at hother
  exact (lifeOfEntry_spec hlife (Option.some.inj hother ▸ houtcome)).1

/-- No entry of the lot has a greater stamp than its newest. -/
theorem IsNewest.key_le (hnewest : IsNewest entries newest) (hentry : entry ∈ entries)
    (hid : entry.row.id = newest.row.id) : entryKey entry ≤ entryKey newest := by
  by_cases hsame : entry = newest
  · rw [hsame]
  · exact (historyFrameIsNewerStamp_iff.mp (hnewest entry hentry hid hsame)).le

/-- No entry of the lot, of these, has a greater stamp. -/
theorem IsNewest.filter_le {rest : List ClosedHistoryEntry} (hnewest : IsNewest entries newest)
    (hsub : rest ⊆ entries) :
    ∀ entry ∈ rest.filter (·.row.id = newest.row.id), entryKey entry ≤ entryKey newest := by
  intro entry hentry
  obtain ⟨hentry, hid⟩ := List.mem_filter.mp hentry
  exact hnewest.key_le (hsub hentry) (by simpa using hid)

/-- An entry is fresh for the store where it is newer than the register of its lot. -/
theorem fresh_iff : Fresh store entry ↔ Newer entryKey (registerOf store entry.row.id) entry := by
  have hiff := (passed_iff store entry).not_left
  refine Iff.trans ?_ hiff
  rw [Option.any_eq_true]
  simp [Fresh]

/-- With a cap that holds the lots of the history and those listed, each lot is the
register of its own entries, in any order. -/
theorem registerOf_perm {perm : List ClosedHistoryEntry} (haccepted : Accepted host entries)
    (hnew : ∀ entry ∈ entries, store.lives.get? entry.row.id = none)
    (hcap : store.count true + (entries.map (·.row.id)).dedup.length ≤ historyLifecycleCap)
    (hperm : perm.Perm entries) (id : String) :
    registerOf (readEntries host store perm) id =
      (perm.filter (·.row.id = id)).foldl (take (mergeEntry host) entryKey)
        (registerOf store id) := by
  have hlisted (entry : ClosedHistoryEntry) (hentry : entry ∈ entries) :
      entry.row.id ∈ (entries.map (·.row.id)).dedup :=
    List.mem_dedup.mpr (List.mem_map_of_mem (f := (·.row.id)) hentry)
  have hroomy : Roomy ((store.lives.values.filter (·.history = true)).map Lifecycle.id ++
      (entries.map (·.row.id)).dedup) (entries.map (·.row.id)).dedup store := by
    constructor
    · intro life hlife hhistory
      refine List.mem_append_left _ (List.mem_map_of_mem (List.mem_filter.mpr ⟨hlife, ?_⟩))
      simpa using hhistory
    · intro life hlife hmem
      obtain ⟨entry, hentry, hid⟩ := List.mem_map.mp (List.mem_dedup.mp hmem)
      have hget : store.lives.get? entry.row.id = some life :=
        Keyed.get?_eq_some.mpr ⟨hlife, hid.symm⟩
      rw [hnew entry hentry] at hget
      cases hget
  refine readEntries_register ?_ (List.subset_append_right _ _) hroomy ?_ id
  · rw [List.length_append, List.length_map, ← List.countP_eq_length_filter]
    exact hcap
  · intro entry hentry
    have hmem := hperm.mem_iff.mp hentry
    obtain ⟨life, hlife, houtcome⟩ := haccepted entry hmem
    exact ⟨(lifeOfEntry_spec hlife houtcome).2.2, hlisted entry hmem⟩

/-- Of the entries of a lot one is the newest. -/
theorem exists_isNewest (hdistinct : DistinctStamps entries) (hentry : entry ∈ entries) :
    ∃ newest ∈ entries, newest.row.id = entry.row.id ∧ IsNewest entries newest := by
  have hsymm : Std.Symm fun a b : ClosedHistoryEntry => a.row.id = b.row.id → a.stamp ≠ b.stamp :=
    ⟨fun _ _ h hid => (h hid.symm).symm⟩
  have hne : entries.filter (·.row.id = entry.row.id) ≠ [] :=
    List.ne_nil_of_mem (List.mem_filter.mpr ⟨hentry, by simp⟩)
  obtain ⟨newest, hnewest, hall⟩ := exists_newest entryKey hne (by
      intro a ha b hb hkey
      by_contra hne
      obtain ⟨hamem, haid⟩ := List.mem_filter.mp ha
      obtain ⟨hbmem, hbid⟩ := List.mem_filter.mp hb
      simp only [decide_eq_true_eq] at haid hbid
      exact hdistinct.forall hamem hbmem hne (haid.trans hbid.symm) (stampKey_inj hkey))
  obtain ⟨hmem, hid⟩ := List.mem_filter.mp hnewest
  simp only [decide_eq_true_eq] at hid
  refine ⟨newest, hmem, hid, fun other hother hsame hne => ?_⟩
  refine historyFrameIsNewerStamp_iff.mpr (hall other (List.mem_filter.mpr ⟨hother, ?_⟩) hne)
  simpa using hsame.trans hid

/-- What the register of a lot ends with, if its newest entry is fresh and all fresh ones
yield to it. -/
theorem foldl_over_of_yields {perm : List ClosedHistoryEntry} {newer : Lifecycle}
    (haccepted : Accepted host entries) (hnew : store.lives.get? newest.row.id = none)
    (hperm : perm.Perm entries) (hmem : newest ∈ entries) (hnewest : IsNewest entries newest)
    (hfresh : Fresh store newest) (hlife : lifeOfEntry host newest = some newer)
    (hyields : ∀ entry ∈ entries, entry.row.id = newest.row.id → Fresh store entry →
      ∀ older, lifeOfEntry host entry = some older → Yields older newer) :
    ((perm.filter (·.row.id = newest.row.id)).foldl (take (mergeEntry host) entryKey)
      (registerOf store newest.row.id)).1 = some newer := by
  have hown (entry : ClosedHistoryEntry)
      (hentry : entry ∈ perm.filter (·.row.id = newest.row.id)) :
      entry ∈ entries ∧ entry.row.id = newest.row.id := by
    obtain ⟨hentry, hid⟩ := List.mem_filter.mp hentry
    exact ⟨hperm.mem_iff.mp hentry, by simpa using hid⟩
  -- all that is merged before the newest entry is restored and yields to it
  obtain ⟨before, hbefore, heq⟩ := foldl_take_newest (mergeEntry host) entryKey
    (registerOf store newest.row.id) (perm.filter (·.row.id = newest.row.id))
    (fun value => ∀ life ∈ value, Restored life ∧ Yields life newer)
    (List.mem_filter.mpr ⟨hperm.mem_iff.mpr hmem, by simp⟩) (fresh_iff.mp hfresh)
    (fun entry hentry hne => historyFrameIsNewerStamp_iff.mp
      (hnewest entry (hown entry hentry).1 (hown entry hentry).2 hne))
    (by simp [registerOf, hnew]) (by
      intro entry hentry hlt value hvalue life hmerge
      obtain ⟨hentry, hid⟩ := hown entry hentry
      obtain ⟨taken, htaken, -⟩ := haccepted entry hentry
      have hentryfresh : Fresh store entry := fresh_iff.mpr (hid ▸ hlt)
      have htakenyields := hyields entry hentry hid hentryfresh taken htaken
      have htakenrestored := haccepted.restored hentry htaken
      have heq : takenOver taken value = life := by
        simpa [mergeEntry, htaken] using hmerge
      subst heq
      cases value with
      | none => exact ⟨htakenrestored, htakenyields⟩
      | some existing =>
        obtain ⟨hex, hexyields⟩ := hvalue existing rfl
        exact ⟨htakenrestored.takenOver (by simpa using hex),
          hexyields.takenOver hex htakenrestored htakenyields⟩)
  rw [heq]
  show mergeEntry host before newest = some newer
  simp only [mergeEntry, hlife]
  cases before with
  | none => rfl
  | some existing =>
    obtain ⟨hex, hexyields⟩ := hbefore existing rfl
    rw [(takenOver_iff hex (haccepted.restored hmem hlife)).mpr hexyields]

theorem Shown.refl (life : Lifecycle) : Shown life life :=
  ⟨rfl, rfl, rfl, fun _ h => h, fun _ h => h⟩

/-- The store after the entries in another order, in one call. -/
theorem readEntries_of_free {perm : List ClosedHistoryEntry} {lives : String → Option Lifecycle}
    (h : ∀ batches : List (List ClosedHistoryEntry), batches.flatten.Perm entries →
      ∀ id, (ingestBatches host store batches).lives.get? id = lives id)
    (hperm : perm.Perm entries) (id : String) :
    (readEntries host store perm).lives.get? id = lives id := by
  have hone := h [perm] (by simpa using hperm) id
  rw [ingestBatches_eq] at hone
  simpa using hone

/-- What is left when the newest entry of a lot comes first, and when another one of the
lot comes before it. -/
theorem newestWins_of_orderFree (haccepted : Accepted host entries)
    (hnew : ∀ entry ∈ entries, store.lives.get? entry.row.id = none)
    (hcap : store.count true + (entries.map (·.row.id)).dedup.length ≤ historyLifecycleCap)
    (h : OrderFree host store entries) : NewestWins host store entries := by
  classical
  obtain ⟨lives, hlives, hshown⟩ := h
  intro newest hmem hnewest
  obtain ⟨newer, hnewer, -⟩ := haccepted newest hmem
  obtain ⟨shown, hlast, -⟩ := hshown newest hmem hnewest newer hnewer
  have hvalue (perm : List ClosedHistoryEntry) (hperm : perm.Perm entries) :
      ((perm.filter (·.row.id = newest.row.id)).foldl (take (mergeEntry host) entryKey)
        (registerOf store newest.row.id)).1 = some shown := by
    rw [← registerOf_perm haccepted hnew hcap hperm]
    exact (readEntries_of_free hlives hperm newest.row.id).trans hlast
  have hstart : (registerOf store newest.row.id).1 = none := hnew newest hmem
  have hfresh : Fresh store newest := by
    rw [fresh_iff]
    by_contra hold
    have hnone := hvalue entries (List.Perm.refl _)
    rw [foldl_take_of_not_newer] at hnone
    · rw [hstart] at hnone
      cases hnone
    · intro entry hentry
      exact not_newer_of_le hold (hnewest.filter_le (List.Subset.refl _) entry hentry)
  refine ⟨hfresh, fun entry hentry hid hentryfresh older newer' holder hnewer' => ?_⟩
  rw [hnewer] at hnewer'
  obtain rfl := Option.some.inj hnewer'
  by_cases hsame : entry = newest
  · subst hsame
    rw [hnewer] at holder
    rw [Option.some.inj holder]
    exact Yields.refl older
  · -- the newest one first
    have hfirst := hvalue (newest :: entries.erase newest) (List.perm_cons_erase hmem).symm
    rw [List.filter_cons_of_pos (by simp), foldl_take_cons _ (fresh_iff.mp hfresh)
      (hnewest.filter_le List.erase_subset), hstart] at hfirst
    have hshownnewer : newer = shown := by simpa [mergeEntry, hnewer, takenOver] using hfirst
    -- the other one before it
    have hlater : newest ∈ entries.erase entry :=
      (List.mem_erase_of_ne (Ne.symm hsame)).mpr hmem
    have hsecond := hvalue (entry :: newest :: (entries.erase entry).erase newest)
      (((List.perm_cons_erase hlater).symm.cons entry).trans (List.perm_cons_erase hentry).symm)
    have htaken : take (mergeEntry host) entryKey (registerOf store newest.row.id) entry =
        (some older, ↑(entryKey entry)) := by
      unfold take
      rw [if_pos (hid ▸ fresh_iff.mp hentryfresh), hstart]
      simp only [mergeEntry, holder]
      rfl
    have hlt : entryKey entry < entryKey newest :=
      historyFrameIsNewerStamp_iff.mp (hnewest entry hentry hid hsame)
    rw [List.filter_cons_of_pos (by simpa using hid), List.filter_cons_of_pos (by simp),
      List.foldl_cons, htaken, foldl_take_cons (some older, ↑(entryKey entry))
        (newer_mk (some older) hlt)
        (hnewest.filter_le (List.Subset.trans List.erase_subset List.erase_subset))] at hsecond
    have hboth : takenOver newer (some older) = shown := by simpa [mergeEntry, hnewer] using hsecond
    exact (takenOver_iff (haccepted.restored hentry holder) (haccepted.restored hmem hnewer)).mp
      (hboth.trans hshownnewer.symm)

/-- The lots are those that the given order leaves. -/
theorem orderFree_of_newestWins (haccepted : Accepted host entries)
    (hdistinct : DistinctStamps entries)
    (hnew : ∀ entry ∈ entries, store.lives.get? entry.row.id = none)
    (hcap : store.count true + (entries.map (·.row.id)).dedup.length ≤ historyLifecycleCap)
    (h : NewestWins host store entries) : OrderFree host store entries := by
  have hlast (perm : List ClosedHistoryEntry) (hperm : perm.Perm entries)
      (newest : ClosedHistoryEntry) (hmem : newest ∈ entries) (hnewest : IsNewest entries newest)
      (newer : Lifecycle) (hlife : lifeOfEntry host newest = some newer) :
      (readEntries host store perm).lives.get? newest.row.id = some newer := by
    obtain ⟨hfresh, hyields⟩ := h newest hmem hnewest
    show (registerOf (readEntries host store perm) newest.row.id).1 = some newer
    rw [registerOf_perm haccepted hnew hcap hperm]
    exact foldl_over_of_yields haccepted (hnew newest hmem) hperm hmem hnewest hfresh hlife
      fun entry hentry hid hentryfresh older holder =>
        hyields entry hentry hid hentryfresh older newer holder hlife
  refine ⟨fun id => (readEntries host store entries).lives.get? id, ?_, ?_⟩
  · intro batches hperm id
    rw [ingestBatches_eq]
    show _ = (readEntries host store entries).lives.get? id
    -- a lot that no entry names stays as it is; of the others the newest entry is shown
    by_cases hid : ∃ entry ∈ entries, entry.row.id = id
    · obtain ⟨entry, hentry, rfl⟩ := hid
      obtain ⟨newest, hmem, hid, hnewest⟩ := exists_isNewest hdistinct hentry
      obtain ⟨newer, hlife, -⟩ := haccepted newest hmem
      rw [← hid, hlast _ hperm newest hmem hnewest newer hlife,
        hlast _ (List.Perm.refl _) newest hmem hnewest newer hlife]
    · have hnone (perm : List ClosedHistoryEntry) (hperm : perm.Perm entries) :
          (readEntries host store perm).lives.get? id = store.lives.get? id := by
        have hempty : perm.filter (·.row.id = id) = [] := by
          refine List.filter_eq_nil_iff.mpr fun entry hentry => ?_
          simpa using fun hsame => hid ⟨entry, hperm.mem_iff.mp hentry, hsame⟩
        have hregister := registerOf_perm haccepted hnew hcap hperm id
        rw [hempty] at hregister
        exact congrArg Prod.fst hregister
      rw [hnone _ hperm, hnone _ (List.Perm.refl _)]
  · intro newest hmem hnewest fresh hfresh
    exact ⟨fresh, hlast _ (List.Perm.refl _) newest hmem hnewest fresh hfresh, Shown.refl fresh⟩

/-- The order of accepted entries, for lots that the store has not got and a cap that
holds them, does not matter and the newest entry of each lot is shown, exactly if it is
newer than what is recorded and the other fresh entries of the lot yield to it. -/
theorem history_order_iff (host : Host) (store : Store) (entries : List ClosedHistoryEntry)
    (haccepted : Accepted host entries) (hdistinct : DistinctStamps entries)
    (hnew : ∀ entry ∈ entries, store.lives.get? entry.row.id = none)
    (hcap : store.count true + (entries.map (·.row.id)).dedup.length ≤ historyLifecycleCap) :
    OrderFree host store entries ↔ NewestWins host store entries := by
  constructor
  · exact newestWins_of_orderFree haccepted hnew hcap
  · exact orderFree_of_newestWins haccepted hdistinct hnew hcap

end

/-- The row of a closed lot that was opened on the path. -/
def closedRow (path : String) : Row where
  id := "lot"
  symbol := "XBT/USD"
  fills := []
  get key :=
    if key = "opened_at" then .str "2026-01-01T00:00:00.000Z"
    else if key = "closed_at" then .str "2026-01-01T01:00:00.000Z"
    else if key = "pnl_pct" then .num 1
    else if key = "entry_path" then .str path
    else .undefined

/-- An entry of the lot, at the tick. -/
def closedEntry (tick : ℤ) (path : String) : ClosedHistoryEntry := ⟨⟨1, tick, 0⟩, closedRow path⟩

theorem closedEntry_accepted (tick : ℤ) (path : String) :
    ∃ life, lifeOfEntry .plain (closedEntry tick path) = some life ∧ life.outcome ≠ none :=
  ⟨_, rfl, nofun⟩

/-- Two entries of one lot that tell the same. -/
theorem history_order_iff_two :
    OrderFree .plain .empty [closedEntry 1 "a", closedEntry 2 "a"] := by
  refine (history_order_iff .plain .empty [closedEntry 1 "a", closedEntry 2 "a"] ?_
    (List.pairwise_pair.mpr fun _ => by simp [closedEntry]) (fun _ _ => rfl) ?_).mpr ?_
  · intro entry hentry
    rcases List.mem_pair.mp hentry with rfl | rfl
    · exact closedEntry_accepted 1 "a"
    · exact closedEntry_accepted 2 "a"
  · show 0 + (["lot", "lot"] : List String).dedup.length ≤ 10000
    simp
  · -- whichever is the newest, the lots that the entries tell of are the same
    intro newest hmem _
    refine ⟨nofun, fun entry hentry _ _ older newer holder hnewer => ?_⟩
    have hlife : ∀ told ∈ [closedEntry 1 "a", closedEntry 2 "a"],
        lifeOfEntry .plain told = lifeOfEntry .plain (closedEntry 1 "a") := by
      intro told htold
      rcases List.mem_pair.mp htold with rfl | rfl
      · rfl
      · rfl
    rw [hlife entry hentry] at holder
    rw [hlife newest hmem, holder] at hnewer
    rw [Option.some.inj hnewer]
    exact Yields.refl newer

/-- Of two entries that differ in the path alone, the one that comes first is kept. -/
theorem history_order_matters :
    ¬ ∀ (host : Host) (store : Store) (entries : List ClosedHistoryEntry),
      store.lives.values = [] → (entries.map (·.row.id)).dedup.length < historyLifecycleCap →
      Accepted host entries → DistinctStamps entries → OrderFree host store entries := by
  intro h
  have haccepted : Accepted .plain [closedEntry 1 "a", closedEntry 2 "b"] := by
    intro entry hentry
    rcases List.mem_pair.mp hentry with rfl | rfl
    · exact closedEntry_accepted 1 "a"
    · exact closedEntry_accepted 2 "b"
  have hone : (["lot", "lot"] : List String).dedup.length = 1 := by simp
  -- two entries of one lot that differ in the detail of an event
  have hfree := h .plain .empty [closedEntry 1 "a", closedEntry 2 "b"] rfl
    (show (["lot", "lot"] : List String).dedup.length < 10000 by omega) haccepted
    (List.pairwise_pair.mpr fun _ => by simp [closedEntry])
  have hnew : ∀ entry ∈ [closedEntry 1 "a", closedEntry 2 "b"],
      Store.empty.lives.get? entry.row.id = none := fun _ _ => rfl
  have hwins := newestWins_of_orderFree haccepted hnew
    (show 0 + (["lot", "lot"] : List String).dedup.length ≤ 10000 by omega) hfree
  have hnewest : IsNewest [closedEntry 1 "a", closedEntry 2 "b"] (closedEntry 2 "b") := by
    intro entry hentry _ hne
    rcases List.mem_pair.mp hentry with rfl | rfl
    · simp [historyFrameIsNewerStamp, closedEntry]
    · exact absurd rfl hne
  obtain ⟨-, hyields⟩ := hwins (closedEntry 2 "b") (List.mem_pair.mpr (.inr rfl)) hnewest
  obtain ⟨hevents, -⟩ := hyields (closedEntry 1 "a") (List.mem_pair.mpr (.inl rfl)) rfl nofun
    _ _ rfl rfl
  -- the older one leaves its own detail behind
  exact absurd (congrArg (List.map LifeEvent.detail) hevents) (by decide)

end Symm.Dashboard
