import Symm.Dashboard.DeskStats
import Symm.Dashboard.Rereading

/-!
# Figures over rows that are made again (`lib/lifecycle.ts`, `collections/longtail.ts`)

Once the hub has dropped a closed lot from its snapshot, `deskRowsForStats` makes a row
for it out of the round trip that the store has. Its book and its return are those of the
first row. Three things are not. A lot whose times are not known is not stored, and a lot
without triggers comes back with `"desk settle"` as the trigger of its outcome, which hides
the trigger of its exit. And a lot that was closed by its fills alone had no hold, but
comes back with one.

- `madeAgain`: what becomes of a row;
- `deskRowsForStats_eq`: the rows of the figures;
- `survives_iff`: when the figures are those of all rows.

- `Stored`: a row that gives a round trip, with both its times;
- `exists_remade`, `Remade`: such a row is made again, and in what the two agree;
- `bucketsOn_made`, `settledOnBook_made`: the figures, row by row.
-/

namespace Symm.Dashboard

open Symm.Lib

/-- The texts that `toISOString` writes, it reads as they are. -/
def IsoDates (host : Host) : Prop :=
  ∀ text iso, host.toISOString text = some iso → iso ≠ "" ∧ host.toISOString iso = some iso

/-- The row that a closed row is made into by way of its round trip. -/
def madeAgain (host : Host) (row : Row) : Option Row :=
  (lifecycleFromDeskClosed host row).bind deskRowFromClosedLife

/-- A lot that the store takes in once it is closed: it has an id, and its times are known. -/
def Stored (host : Host) (row : Row) : Prop :=
  row.id ≠ "" ∧ (positionReadout host row).openedAt ≠ none ∧
    (positionReadout host row).closedAt ≠ none

/-- How long a lot was held that is closed by its fills alone, by the time of the last. -/
def lateHold (host : Host) (row : Row) : Option ℚ :=
  if (dateText host (row.get "closed_at")).isSome then none
  else (holdNs host (positionReadout host row).openedAt
    (positionReadout host row).closedAt).filter (0 < ·)

/-! ## Dates -/

section

variable {host : Host} {row again : Row}

/-- A date is written as the engine writes dates. -/
def Dated (host : Host) (date : Option String) : Prop :=
  ∀ text, date = some text → dateText host (.str text) = some text

theorem dated_none : Dated host none := by
  intro text h
  cases h

/-- A date that the host can print is one it can read again. -/
theorem dated_dateText (hiso : IsoDates host) (value : Js) : Dated host (dateText host value) := by
  intro text h
  have hwritten : ∃ source, host.toISOString source = some text := by
    cases value with
    | str source =>
      simp only [dateText] at h
      split at h
      · cases h
      · exact ⟨source, h⟩
    | _ => cases h
  obtain ⟨source, hsource⟩ := hwritten
  obtain ⟨hne, hsame⟩ := hiso source text hsource
  simp only [dateText, if_neg hne, hsame]

/-- The first of two dates is one. -/
theorem dated_orElse {a b : Option String} (ha : Dated host a) (hb : Dated host b) :
    Dated host (a <|> b) := by
  cases a with
  | none => exact hb
  | some text => exact ha

/-- The times of the fills are dates. -/
theorem dated_totals (hiso : IsoDates host) (side : String) (fills : List Record)
    {totals : Totals} (hfirst : Dated host totals.firstAt) (hlast : Dated host totals.lastAt) :
    Dated host (fills.foldl (Totals.add host side) totals).firstAt ∧
      Dated host (fills.foldl (Totals.add host side) totals).lastAt := by
  have hcount (totals : Totals) (fill : Record) (hfirst : Dated host totals.firstAt)
      (hlast : Dated host totals.lastAt) : Dated host (totals.count host fill).firstAt ∧
        Dated host (totals.count host fill).lastAt := by
    unfold Totals.count
    split
    · exact ⟨hfirst, hlast⟩
    · exact ⟨dated_orElse hfirst (dated_dateText hiso _), dated_orElse (dated_dateText hiso _) hlast⟩
  induction fills generalizing totals with
  | nil => exact ⟨hfirst, hlast⟩
  | cons fill rest ih =>
    have hadd : Dated host (totals.add host side fill).firstAt ∧
        Dated host (totals.add host side fill).lastAt := by
      unfold Totals.add
      split
      · exact ⟨hfirst, hlast⟩
      · split
        · exact hcount totals fill hfirst hlast
        · split
          · exact ⟨hfirst, hlast⟩
          · exact hcount _ fill hfirst hlast
    exact ih hadd.1 hadd.2

theorem dated_executionTotals (hiso : IsoDates host) (row : Row) (side : String) :
    Dated host (executionTotals host row side).firstAt ∧
      Dated host (executionTotals host row side).lastAt :=
  dated_totals hiso side row.fills dated_none dated_none

theorem dated_openedAt (hiso : IsoDates host) (row : Row) :
    Dated host (positionReadout host row).openedAt :=
  dated_orElse (dated_dateText hiso _) (dated_executionTotals hiso row "buy").1

theorem dated_closedAt (hiso : IsoDates host) (row : Row) :
    Dated host (positionReadout host row).closedAt := by
  refine dated_orElse (dated_dateText hiso _) ?_
  split
  · exact (dated_executionTotals hiso row "sell").2
  · exact dated_none

/-! ## A row made again -/

/-- What of a row is left in the row that is made of it. -/
structure Remade (host : Host) (row again : Row) : Prop where
  stored : Stored host row
  fills : again.fills = []
  book : again.get "book" = .str (bookFromRow row)
  openedAt : ∃ text, (positionReadout host row).openedAt = some text ∧
    again.get "opened_at" = .str text
  closedAt : ∃ text, (positionReadout host row).closedAt = some text ∧
    again.get "closed_at" = .str text
  pnlPct : ∃ value, decimal (row.get "pnl_pct") = some value ∧ again.get "pnl_pct" = .num value
  triggers : again.get "outcome_triggers" =
    .arr (((outcomeTriggers (row.get "outcome_triggers")).getD ["desk settle"]).map .str)
  exitTrigger : again.get "exit_trigger" =
    ((filled (row.get "exit_trigger")).map .str).getD .null

/-- With a return in the row there is an outcome. -/
theorem outcomeFromRow_of_pct (host : Host) {value : ℚ}
    (h : decimal (row.get "pnl_pct") = some value)
    (openedAt closedAt : String) : ∃ outcome, outcomeFromRow host row openedAt closedAt =
      some outcome ∧ outcome.pnlPct = value ∧ outcome.triggers =
        some ((outcomeTriggers (row.get "outcome_triggers")).getD ["desk settle"]) := by
  unfold outcomeFromRow
  simp only [positionReadout, settledOutcome, returnFraction, h]
  refine ⟨_, rfl, rfl, ?_⟩
  cases outcomeTriggers (row.get "outcome_triggers") <;> rfl

/-- A row that was not stored is not made again. -/
theorem madeAgain_of_not_stored (h : ¬ Stored host row) : madeAgain host row = none := by
  unfold madeAgain lifecycleFromDeskClosed
  by_cases hid : row.id = ""
  · rw [if_pos hid, Option.bind_none]
  · rw [if_neg hid]
    dsimp only
    split
    · rfl
    · split
      · next openedAt closedAt hopenedAt hclosedAt =>
        exact absurd ⟨hid, by simp [hopenedAt], by simp [hclosedAt]⟩ h
      · rfl

/-- A stored row with a return is made again. -/
theorem exists_remade (hclosed : (positionReadout host row).closed = true)
    (hpct : decimal (row.get "pnl_pct") ≠ none) (h : Stored host row) :
    ∃ again, madeAgain host row = some again ∧ Remade host row again := by
  obtain ⟨value, hvalue⟩ := Option.ne_none_iff_exists'.mp hpct
  obtain ⟨openedAt, hopenedAt⟩ := Option.ne_none_iff_exists'.mp h.2.1
  obtain ⟨closedAt, hclosedAt⟩ := Option.ne_none_iff_exists'.mp h.2.2
  obtain ⟨outcome, houtcome, hpnlPct, htriggers⟩ :=
    outcomeFromRow_of_pct host hvalue openedAt closedAt
  -- a row with all its figures gives a life that carries them
  have hlife : ∃ life, lifecycleFromDeskClosed host row = some life ∧ life.status = "closed" ∧
      life.outcome = some outcome ∧ life.book = some (bookFromRow row) ∧
      life.openedAt = openedAt ∧ life.closedAt = some (some closedAt) ∧
      life.exitTrigger = filled (row.get "exit_trigger") := by
    unfold lifecycleFromDeskClosed
    simp only [if_neg h.1, hclosed, hopenedAt, hclosedAt]
    exact ⟨_, rfl, rfl, houtcome, rfl, rfl, rfl, rfl⟩
  obtain ⟨life, hlife, hstatus, hout, hbook, hopened, hclose, hexit⟩ := hlife
  -- and the row that is made of the life reads the same figures
  have hagain : ∃ again, deskRowFromClosedLife life = some again ∧ Remade host row again := by
    unfold deskRowFromClosedLife
    rw [if_neg (not_not.mpr hstatus), hout]
    refine ⟨_, rfl, ?_⟩
    constructor
    · exact h
    · rfl
    · simp [hbook]
    · exact ⟨openedAt, hopenedAt, by simp [hopened]⟩
    · exact ⟨closedAt, hclosedAt, by simp [hclose, closeValue]⟩
    · exact ⟨value, hvalue, by simp [hpnlPct]⟩
    · simp [htriggers]
    · simp [hexit]
  obtain ⟨again, hmade, hremade⟩ := hagain
  refine ⟨again, ?_, hremade⟩
  unfold madeAgain
  rw [hlife, Option.bind_some, hmade]

/-! ## What the figures read of it -/

theorem filled_str {text : String} (h : text ≠ "") : filled (.str text) = some text := by
  simp [filled, Js.string?, h]

/-- A filled text is a string that is not empty. -/
theorem filled_eq_some {value : Js} {text : String} (h : filled value = some text) :
    value = .str text ∧ text ≠ "" := by
  obtain ⟨hstring, hne⟩ := Option.filter_eq_some_iff.mp h
  cases value with
  | str other =>
    obtain rfl := Option.some.inj hstring
    exact ⟨rfl, of_decide_eq_true hne⟩
  | _ => cases hstring

theorem bookFromRow_ne (row : Row) : bookFromRow row ≠ "" := by
  unfold bookFromRow
  cases h : filled (row.get "book") with
  | none => simp
  | some text => exact (filled_eq_some h).2

namespace Remade

variable (h : Remade host row again)

include h

/-- The row made again is on the book of the first. -/
theorem onBook_eq (book : Book) : onBook again book = onBook row book := by
  have hlabel : bookFromRow again = bookFromRow row := by
    show (filled (again.get "book")).getD "paper" = bookFromRow row
    rw [h.book, filled_str (bookFromRow_ne row), Option.getD_some]
  rw [Symm.Dashboard.onBook_eq, Symm.Dashboard.onBook_eq, hlabel]

theorem returnPct_eq :
    (positionReadout host again).returnPct = (positionReadout host row).returnPct := by
  obtain ⟨value, hvalue, hagain⟩ := h.pnlPct
  show (decimal (again.get "pnl_pct")).map (· / 100) = (decimal (row.get "pnl_pct")).map (· / 100)
  rw [hvalue, hagain]
  rfl

theorem dateText_closedAt (hiso : IsoDates host) :
    dateText host (again.get "closed_at") = (positionReadout host row).closedAt := by
  obtain ⟨text, htext, hagain⟩ := h.closedAt
  rw [hagain, htext]
  exact dated_closedAt hiso row text htext

theorem dateText_openedAt (hiso : IsoDates host) :
    dateText host (again.get "opened_at") = (positionReadout host row).openedAt := by
  obtain ⟨text, htext, hagain⟩ := h.openedAt
  rw [hagain, htext]
  exact dated_openedAt hiso row text htext

theorem closed (hiso : IsoDates host) : (positionReadout host again).closed = true := by
  show ((dateText host (again.get "closed_at")).isSome || _) = true
  obtain ⟨text, htext, -⟩ := h.closedAt
  rw [h.dateText_closedAt hiso, htext]
  rfl

/-- The hold is the one by the times that the readout gave. -/
theorem heldFor_eq (hiso : IsoDates host) : heldFor host again =
    (holdNs host (positionReadout host row).openedAt
      (positionReadout host row).closedAt).filter (0 < ·) := by
  have hhold : (positionReadout host again).holdNs =
      holdNs host (positionReadout host row).openedAt (positionReadout host row).closedAt := by
    show holdNs host (dateText host (again.get "opened_at") <|> _)
      (dateText host (again.get "closed_at")) = _
    obtain ⟨text, htext, -⟩ := h.openedAt
    rw [h.dateText_closedAt hiso, h.dateText_openedAt hiso, htext]
    rfl
  unfold heldFor
  rw [hhold]

end Remade

/-- Made again, a lot has the hold it had, or the one it came to have. -/
theorem Remade.heldFor_orElse (h : Remade host row again) (hiso : IsoDates host) :
    heldFor host again = (heldFor host row <|> lateHold host row) ∧
      (heldFor host row = none ∨ lateHold host row = none) := by
  rw [h.heldFor_eq hiso]
  unfold lateHold
  cases hdate : dateText host (row.get "closed_at") with
  | none =>
    have hnone : heldFor host row = none := by
      show (holdNs host _ (dateText host (row.get "closed_at"))).filter _ = none
      rw [hdate]
      rfl
    rw [hnone]
    exact ⟨rfl, .inl rfl⟩
  | some text =>
    have hclosedAt : (positionReadout host row).closedAt = dateText host (row.get "closed_at") := by
      show (dateText host (row.get "closed_at") <|> _) = _
      rw [hdate]
      rfl
    rw [hclosedAt, if_pos (by rfl)]
    refine ⟨?_, .inr rfl⟩
    show heldFor host row = (heldFor host row <|> none)
    cases heldFor host row <;> rfl

/-! ## Its triggers -/

/-- A list of triggers that can be read is the one written back. -/
theorem filledTriggers_of_some {value : Js} {list : List String}
    (h : outcomeTriggers value = some list) :
    filledTriggers value = filledTriggers (.arr (list.map .str)) := by
  cases value with
  | arr items =>
    simp only [outcomeTriggers] at h
    split at h
    · obtain rfl := Option.some.inj h
      show items.filterMap filled = ((items.filterMap Js.string?).map Js.str).filterMap filled
      rw [List.filterMap_map, List.filterMap_filterMap]
      refine List.filterMap_congr fun item _ => ?_
      cases item <;> rfl
    · cases h
  | _ => cases h

/-- Without one there is nothing to write. -/
theorem filledTriggers_of_none {value : Js} (h : outcomeTriggers value = none) :
    filledTriggers value = [] := by
  cases value with
  | arr items =>
    simp only [outcomeTriggers] at h
    split at h
    · cases h
    · next hnil =>
      refine List.filterMap_eq_nil_iff.mpr fun item hitem => ?_
      unfold filled
      rw [List.filterMap_eq_nil_iff.mp (not_not.mp hnil) item hitem]
      rfl
  | _ => rfl

/-- The row tells what ended its lot in a way that is left in the row made of it. -/
def TellsExit (row : Row) : Prop :=
  outcomeTriggers (row.get "outcome_triggers") ≠ none ∨
    ∃ trigger, filled (row.get "exit_trigger") = some trigger ∧ classifyExit trigger = .other

theorem classifyExit_desk_settle : classifyExit "desk settle" = .other := by decide +kernel

/-- The trigger of the exit survives. -/
theorem Remade.filled_exitTrigger (h : Remade host row again) :
    filled (again.get "exit_trigger") = filled (row.get "exit_trigger") := by
  rw [h.exitTrigger]
  cases hexit : filled (row.get "exit_trigger") with
  | none => rfl
  | some trigger => exact filled_str (filled_eq_some hexit).2

/-- With its triggers stored, a row falls into the same buckets. -/
theorem Remade.exitBuckets_of_some (h : Remade host row again)
    (hsome : outcomeTriggers (row.get "outcome_triggers") ≠ none) :
    exitBuckets again = exitBuckets row := by
  obtain ⟨list, hlist⟩ := Option.ne_none_iff_exists'.mp hsome
  unfold exitBuckets exitTriggers
  rw [h.triggers, h.filled_exitTrigger, hlist, Option.getD_some, filledTriggers_of_some hlist]

/-- Without triggers the lot gets one that is none of the others. -/
theorem Remade.exitBuckets_of_none (h : Remade host row again)
    (hnone : outcomeTriggers (row.get "outcome_triggers") = none) :
    exitBuckets again = [.other] ∧
      exitBuckets row = ((filled (row.get "exit_trigger")).map classifyExit).toList := by
  unfold exitBuckets exitTriggers
  rw [h.triggers, hnone, filledTriggers_of_none hnone]
  constructor
  · show [classifyExit "desk settle"] = [.other]
    rw [classifyExit_desk_settle]
  · rw [if_pos rfl]
    cases filled (row.get "exit_trigger") <;> rfl

/-- The others among the exits become more, unless the row tells what ended its lot. -/
theorem Remade.count_other (h : Remade host row again) :
    (exitBuckets row).count .other ≤ (exitBuckets again).count .other ∧
      ((exitBuckets row).count .other = (exitBuckets again).count .other → TellsExit row) ∧
      (TellsExit row → exitBuckets again = exitBuckets row) := by
  cases hnone : outcomeTriggers (row.get "outcome_triggers") with
  | some list =>
    have hsome : outcomeTriggers (row.get "outcome_triggers") ≠ none := by simp [hnone]
    rw [h.exitBuckets_of_some hsome]
    exact ⟨le_refl _, fun _ => .inl hsome, fun _ => rfl⟩
  | none =>
    obtain ⟨hagain, hrow⟩ := h.exitBuckets_of_none hnone
    rw [hagain, hrow]
    cases hexit : filled (row.get "exit_trigger") with
    | none => simp [TellsExit, hnone, hexit]
    | some trigger =>
      have htells : TellsExit row ↔ classifyExit trigger = .other := by simp [TellsExit, hnone, hexit]
      rw [htells, Option.map_some]
      cases classifyExit trigger <;> decide

end

/-! ## What the store has -/

section

variable {host : Host} {now : String} {store : Store} {row : Row} {rows : List Row}

/-- A new life comes last. -/
theorem put_values_of_new {life : Lifecycle} (h : store.lives.get? life.id = none) :
    (store.put life).lives.values = store.lives.values ++ [life] := by
  show store.lives.values.filter (fun other => other.id ≠ life.id) ++ [life] = _
  rw [List.filter_eq_self.mpr]
  intro other hother
  have hne : other.id ≠ life.id := by
    intro heq
    rw [Keyed.get?_eq_some.mpr ⟨hother, heq⟩] at h
    cases h
  simpa using hne

/-- The round trip that an unknown lot gets. -/
def firstLife (host : Host) (now : String) (row : Row) : Option Lifecycle :=
  (lifeOfRow host now row).map (deskMerged · none)

/-- With room for all of them, the rows of lots that are not in the store are stored one
after the other. -/
theorem readRows_values (ids : List String) (hroom : ids.length ≤ sessionLifecycleLimit)
    (hwithin : Within ids store) (hrows : ∀ row ∈ rows, row.id ∈ ids)
    (hdistinct : (rows.map Row.id).Nodup)
    (hnew : ∀ row ∈ rows, store.lives.get? row.id = none) :
    (readRows host now store rows).lives.values =
      store.lives.values ++ rows.filterMap (firstLife host now) := by
  induction rows generalizing store with
  | nil => simp [readRows]
  | cons row rest ih =>
    rw [List.map_cons, List.nodup_cons] at hdistinct
    obtain ⟨hrow, hrest⟩ := List.forall_mem_cons.mp hrows
    obtain ⟨hrownew, hrestnew⟩ := List.forall_mem_cons.mp hnew
    have hlisted (life : Lifecycle) (hlife : lifeOfRow host now row = some life) :
        life.id ∈ ids := by
      rw [lifeOfRow_id hlife]
      exact hrow
    -- the rows that follow are still of lots that are not in the store
    have hnext : ∀ other ∈ rest,
        (ingestDeskRow host now store row).1.lives.get? other.id = none := by
      intro other hother
      have hne : other.id ≠ row.id := by
        intro heq
        exact hdistinct.1 (heq ▸ List.mem_map_of_mem hother)
      rw [(get?_of_within hroom hwithin hlisted hne).1]
      exact hrestnew other hother
    rw [readRows_cons]
    rcases ingestDeskRow_of_within hroom hwithin hlisted with ⟨hidle, heq⟩ |
      ⟨life, hlife, -, heq, hput⟩
    · -- the lot is not known, so its row is passed over for want of a round trip
      have hnone : firstLife host now row = none := by
        unfold firstLife
        cases hlife : lifeOfRow host now row with
        | none => rfl
        | some life =>
          have hget : store.lives.get? life.id = none := by rwa [lifeOfRow_id hlife]
          rcases hidle life hlife with ⟨-, existing, hexisting, -⟩ | ⟨prior, hprior, -⟩
          · rw [hget] at hexisting
            cases hexisting
          · rw [deskMerged_id, hget] at hprior
            cases hprior
      rw [heq] at hnext ⊢
      rw [ih hwithin hrest hdistinct.2 hnext, List.filterMap_cons_none hnone]
    · have hget : store.lives.get? life.id = none := by rwa [lifeOfRow_id hlife]
      have hfirst : firstLife host now row = some (deskMerged life none) := by
        unfold firstLife
        rw [hlife]
        rfl
      rw [hget] at heq hput
      rw [heq] at hnext ⊢
      rw [ih hput hrest hdistinct.2 hnext, put_values_of_new (by rwa [deskMerged_id]),
        List.filterMap_cons_some hfirst, List.append_assoc]
      rfl

/-- An empty store has a round trip for each row of a snapshot within the cap that gives
one. -/
theorem ingestDeskClosedLots_values (hdistinct : (rows.map Row.id).Nodup)
    (hroom : rows.length ≤ sessionLifecycleLimit) :
    (ingestDeskClosedLots host now .empty rows).1.lives.values =
      rows.filterMap (firstLife host now) := by
  rw [ingestDeskClosedLots_fst]
  have hempty : (removeGone host .empty rows).1 = .empty := rfl
  rw [hempty, readRows_values (rows.map Row.id)]
  · rfl
  · rw [List.length_map]
    exact hroom
  · intro life hlife
    cases hlife
  · intro row hrow
    exact List.mem_map_of_mem hrow
  · exact hdistinct
  · intro row hrow
    rfl

end

/-! ## The rows of the figures -/

/-- The rows that the snapshot no longer has. -/
def dropped (shown rows : List Row) : List Row :=
  rows.filter fun row => row.id ∉ shown.map Row.id

/-- The row that a round trip adds, unless its id was seen. -/
def addedRow (seen : List String) (life : Lifecycle) : Option Row :=
  if !life.desk then none else if life.id ∈ seen then none else deskRowFromClosedLife life

/-- A round trip adds its row, and is seen then. -/
theorem addClosedLife_spec (rows : List Row) (seen : List String) (life : Lifecycle) :
    addedRow seen life = none ∧ addClosedLife (rows, seen) life = (rows, seen) ∨
      ∃ row, addedRow seen life = some row ∧
        addClosedLife (rows, seen) life = (rows ++ [row], life.id :: seen) := by
  unfold addClosedLife addedRow
  by_cases hskip : (!life.desk || life.status ≠ "closed" || life.outcome.isNone) = true
  · rw [if_pos hskip]
    refine .inl ⟨?_, rfl⟩
    cases hdesk : life.desk with
    | false => rfl
    | true =>
      have hmade : deskRowFromClosedLife life = none := by
        unfold deskRowFromClosedLife
        by_cases hstatus : life.status = "closed"
        · have hnone : life.outcome = none := by simpa [hdesk, hstatus] using hskip
          rw [hnone, Option.map_none, ite_self]
        · rw [if_pos hstatus]
      rw [hmade, ite_self]
      rfl
  · have hdesk : life.desk = true := by
      by_contra hdesk
      simp [hdesk] at hskip
    rw [if_neg hskip, hdesk]
    by_cases hseen : life.id ∈ seen
    · exact .inl ⟨by simp [hseen], if_pos hseen⟩
    · cases hmade : deskRowFromClosedLife life with
      | none => exact .inl ⟨by simp, if_neg hseen⟩
      | some row => exact .inr ⟨row, by simp [hseen], if_neg hseen⟩

/-- Round trips of different lots are added one after the other. -/
theorem foldl_addClosedLife {lives : List Lifecycle} (h : (lives.map Lifecycle.id).Nodup)
    (rows : List Row) (seen : List String) :
    (lives.foldl addClosedLife (rows, seen)).1 = rows ++ lives.filterMap (addedRow seen) := by
  induction lives generalizing rows seen with
  | nil => simp
  | cons life rest ih =>
    rw [List.map_cons, List.nodup_cons] at h
    rw [List.foldl_cons]
    rcases addClosedLife_spec rows seen life with ⟨hadded, heq⟩ | ⟨row, hadded, heq⟩
    · rw [heq, ih h.2, List.filterMap_cons_none hadded]
    · have hseen : rest.filterMap (addedRow (life.id :: seen)) =
          rest.filterMap (addedRow seen) := by
        refine List.filterMap_congr fun other hother => ?_
        have hne : other.id ≠ life.id := fun heq => h.1 (heq ▸ List.mem_map_of_mem hother)
        simp [addedRow, hne]
      rw [heq, ih h.2, hseen, List.filterMap_cons_some hadded, List.append_assoc]
      rfl

section

variable {host : Host} {now : String} {localeCompare : String → String → ℤ}
  {shown rows : List Row} {book : Book}

/-- A closed row gives no round trip that is open. -/
theorem firstLife_of_closed {row : Row} (h : (positionReadout host row).closed = true) :
    firstLife host now row = (lifecycleFromDeskClosed host row).map (deskMerged · none) := by
  unfold firstLife lifeOfRow
  cases hopen : lifecycleFromDeskOpen host now row with
  | none => cases lifecycleFromDeskClosed host row <;> rfl
  | some life =>
    have hnot := (lifecycleFromDeskOpen_spec hopen).2
    rw [h] at hnot
    cases hnot

/-- The marks of a round trip are not in its row. -/
theorem deskRowFromClosedLife_marks (life : Lifecycle) (marks : List LifeMark) :
    deskRowFromClosedLife { life with marks := marks } = deskRowFromClosedLife life := rfl

theorem deskRowFromClosedLife_deskMerged (life : Lifecycle) :
    deskRowFromClosedLife (deskMerged life none) = deskRowFromClosedLife life :=
  deskRowFromClosedLife_marks life (lastMarks life.marks)

/-- Rows without an id give no life. -/
theorem lifeOfRow_named {row : Row} {life : Lifecycle} (h : lifeOfRow host now row = some life) :
    row.id ≠ "" := by
  rcases lifeOfRow_cases h with ⟨h, -⟩ | ⟨h, -⟩
  · exact h.named
  · exact h.named

/-- The figures are taken over the snapshot and what is made of the rows that it dropped. -/
theorem deskRowsForStats_eq (hdistinct : (rows.map Row.id).Nodup)
    (hroom : rows.length ≤ sessionLifecycleLimit)
    (hclosed : ∀ row ∈ dropped shown rows, (positionReadout host row).closed = true) :
    deskRowsForStats host localeCompare (ingestDeskClosedLots host now .empty rows).1 shown =
      positionRows host localeCompare shown ++
        (dropped shown rows).filterMap (madeAgain host) := by
  unfold deskRowsForStats
  dsimp only
  rw [foldl_addClosedLife (Keyed.nodup _), ingestDeskClosedLots_values hdistinct hroom,
    List.filterMap_filterMap]
  congr 1
  unfold dropped
  rw [List.filterMap_filter]
  refine List.filterMap_congr fun row hrow => ?_
  -- a row without an identifier is not among the seen ones
  have hseen : row.id ∈ ((positionRows host localeCompare shown).filter
      fun row => row.id ≠ "").map Row.id ↔ row.id ∈ shown.map Row.id ∧ row.id ≠ "" := by
    simp only [List.mem_map, List.mem_filter, positionRows, List.mem_mergeSort]
    constructor
    · rintro ⟨other, ⟨hother, hne⟩, hid⟩
      exact ⟨⟨other, hother, hid⟩, by simpa [hid] using hne⟩
    · rintro ⟨⟨other, hother, hid⟩, hne⟩
      exact ⟨other, ⟨hother, by simpa [hid] using hne⟩, hid⟩
  generalize ((positionRows host localeCompare shown).filter fun row => row.id ≠ "").map Row.id =
    seen at hseen ⊢
  by_cases hshown : row.id ∈ shown.map Row.id
  · -- the snapshot has the row itself
    rw [if_neg (by simp [hshown])]
    cases hlife : lifeOfRow host now row with
    | none => simp [firstLife, hlife]
    | some life =>
      have hmem : row.id ∈ seen := hseen.mpr ⟨hshown, lifeOfRow_named hlife⟩
      have hnone : addedRow seen (deskMerged life none) = none := by
        unfold addedRow
        rw [deskMerged_id, lifeOfRow_id hlife, if_pos hmem, ite_self]
      simp only [firstLife, hlife, Option.map_some, Option.bind_some, hnone]
  · -- the snapshot dropped the row, and it is made again from its lot
    rw [if_pos (by simp [hshown])]
    have hrowclosed := hclosed row (List.mem_filter.mpr ⟨hrow, by simpa using hshown⟩)
    rw [firstLife_of_closed hrowclosed]
    unfold madeAgain
    cases hlife : lifecycleFromDeskClosed host row with
    | none => rfl
    | some life =>
      obtain ⟨hspec, -⟩ := lifecycleFromDeskClosed_spec hlife
      rw [Option.map_some, Option.bind_some, Option.bind_some]
      have hunseen : (deskMerged life none).id ∉ seen := by
        rw [deskMerged_id, hspec.id]
        exact fun hmem => hshown (hseen.mp hmem).1
      have hdesk : (deskMerged life none).desk = true := by
        simp only [deskMerged, hspec.desk]
      unfold addedRow
      rw [if_neg hunseen, hdesk, deskRowFromClosedLife_deskMerged]
      rfl

/-! ## Comparing the figures -/

/-- The rows are of closed lots, whose returns are known. -/
def AllSettled (host : Host) (rows : List Row) : Prop :=
  ∀ row ∈ rows, (positionReadout host row).closed = true ∧ decimal (row.get "pnl_pct") ≠ none

/-- The rows of the book. -/
def onlyBook (rows : List Row) (book : Book) : List Row := rows.filter fun row => onBook row book

variable {gone : List Row}

/-- Where every row that is gone was settled, all of them count. -/
theorem settledOnBook_of_allSettled (h : AllSettled host gone) :
    settledOnBook host gone book = onlyBook gone book ∧
      closedOnBook host gone book = onlyBook gone book := by
  have hclosed : closedOnBook host gone book = onlyBook gone book := by
    refine List.filter_congr fun row hrow => ?_
    rw [(h row hrow).1, Bool.and_true]
  refine ⟨?_, hclosed⟩
  unfold settledOnBook
  rw [hclosed]
  refine List.filter_eq_self.mpr fun row hrow => ?_
  show ((decimal (row.get "pnl_pct")).map (· / 100)).isSome = true
  rw [Option.isSome_map, Option.isSome_iff_ne_none]
  exact (h row (List.mem_filter.mp hrow).1).2

/-- A closed lot is not made again, or with all that the figures read but its holds and exits. -/
theorem madeAgain_cases (h : AllSettled host gone) {row : Row} (hrow : row ∈ gone) :
    ¬ Stored host row ∧ madeAgain host row = none ∨
      Stored host row ∧ ∃ again, madeAgain host row = some again ∧ Remade host row again := by
  by_cases hstored : Stored host row
  · exact .inr ⟨hstored, exists_remade (h row hrow).1 (h row hrow).2 hstored⟩
  · exact .inl ⟨hstored, madeAgain_of_not_stored hstored⟩

/-- What is made of closed rows is closed, and keeps its book and its return. -/
theorem settledOnBook_made (hiso : IsoDates host) (h : AllSettled host gone) :
    settledOnBook host (gone.filterMap (madeAgain host)) book =
        (onlyBook gone book).filterMap (madeAgain host) ∧
      closedOnBook host (gone.filterMap (madeAgain host)) book =
        (onlyBook gone book).filterMap (madeAgain host) := by
  have hclosed : closedOnBook host (gone.filterMap (madeAgain host)) book =
      (onlyBook gone book).filterMap (madeAgain host) := by
    unfold closedOnBook onlyBook
    rw [List.filter_filterMap, List.filterMap_filter]
    refine List.filterMap_congr fun row hrow => ?_
    rcases madeAgain_cases h hrow with ⟨-, hnone⟩ | ⟨-, again, hmade, hremade⟩
    · rw [hnone, ite_self]
      rfl
    · rw [hmade]
      simp [Option.filter, hremade.onBook_eq, hremade.closed hiso]
  refine ⟨?_, hclosed⟩
  unfold settledOnBook
  rw [hclosed]
  -- a row that was made again has a return
  refine List.filter_eq_self.mpr fun again hagain => ?_
  obtain ⟨row, hrow, hmade⟩ := List.mem_filterMap.mp hagain
  have hgone : row ∈ gone := (List.mem_filter.mp hrow).1
  rcases madeAgain_cases h hgone with ⟨-, hnone⟩ | ⟨-, other, hother, hremade⟩
  · rw [hnone] at hmade
    cases hmade
  · rw [hmade] at hother
    obtain rfl := Option.some.inj hother
    rw [hremade.returnPct_eq]
    show ((decimal (row.get "pnl_pct")).map (· / 100)).isSome = true
    rw [Option.isSome_map, Option.isSome_iff_ne_none]
    exact (h row hgone).2

/-- Nothing made of closed rows is open, as they are not. -/
theorem openCount_made (hiso : IsoDates host) (h : AllSettled host gone) :
    openCount host (gone.filterMap (madeAgain host)) book = openCount host gone book := by
  have hgone : openOnBook host gone book = [] := by
    refine List.filter_eq_nil_iff.mpr fun row hrow => ?_
    simp [(h row hrow).1]
  have hmade : openOnBook host (gone.filterMap (madeAgain host)) book = [] := by
    refine List.filter_eq_nil_iff.mpr fun again hagain => ?_
    obtain ⟨row, hrow, hmade⟩ := List.mem_filterMap.mp hagain
    rcases madeAgain_cases h hrow with ⟨-, hnone⟩ | ⟨-, other, hother, hremade⟩
    · rw [hnone] at hmade
      cases hmade
    · rw [hmade] at hother
      obtain rfl := Option.some.inj hother
      simp [hremade.closed hiso]
  unfold openCount
  rw [hgone, hmade]

/-- Every lot of the book is made again where their number stays. -/
theorem stored_of_length (hiso : IsoDates host) (h : AllSettled host gone)
    (hlength : (returnsOn host (gone.filterMap (madeAgain host)) book).length =
      (returnsOn host gone book).length) : ∀ row ∈ onlyBook gone book, Stored host row := by
  rw [length_returnsOn, length_returnsOn, (settledOnBook_made hiso h).1,
    (settledOnBook_of_allSettled h).1, List.length_filterMap_eq_countP, List.countP_eq_length]
    at hlength
  intro row hrow
  rcases madeAgain_cases h (List.mem_filter.mp hrow).1 with ⟨-, hnone⟩ | ⟨hstored, -⟩
  · have hsome := hlength row hrow
    rw [hnone] at hsome
    cases hsome
  · exact hstored

/-- The rows that are made of stored lots. -/
theorem exists_made (h : AllSettled host gone)
    (hstored : ∀ row ∈ onlyBook gone book, Stored host row) :
    ∃ made : Row → Row, (onlyBook gone book).filterMap (madeAgain host) =
        (onlyBook gone book).map made ∧
      ∀ row ∈ onlyBook gone book, Remade host row (made row) := by
  have hmade : ∀ row ∈ onlyBook gone book, ∃ again, madeAgain host row = some again ∧
      Remade host row again := by
    intro row hrow
    rcases madeAgain_cases h (List.mem_filter.mp hrow).1 with ⟨hnot, -⟩ | ⟨-, hexists⟩
    · exact absurd (hstored row hrow) hnot
    · exact hexists
  refine ⟨fun row => (madeAgain host row).getD row, ?_, fun row hrow => ?_⟩
  · rw [← List.filterMap_eq_map]
    refine List.filterMap_congr fun row hrow => ?_
    obtain ⟨again, hagain, -⟩ := hmade row hrow
    simp [hagain]
  · obtain ⟨again, hagain, hremade⟩ := hmade row hrow
    simpa [hagain] using hremade

/-- The returns survive. -/
theorem returnsOn_made (hiso : IsoDates host) (h : AllSettled host gone)
    (hstored : ∀ row ∈ onlyBook gone book, Stored host row) :
    returnsOn host (gone.filterMap (madeAgain host)) book = returnsOn host gone book := by
  obtain ⟨made, hmap, hremade⟩ := exists_made h hstored
  unfold returnsOn
  rw [(settledOnBook_made hiso h).1, (settledOnBook_of_allSettled h).1, hmap, List.filterMap_map]
  exact List.filterMap_congr fun row hrow => (hremade row hrow).returnPct_eq

/-- The holds that the book's lots came to have. -/
def lateHolds (host : Host) (gone : List Row) (book : Book) : List ℚ :=
  (onlyBook gone book).filterMap (lateHold host)

/-- The holding times survive, and those that a lot only came to have on the way come on
top. -/
theorem holdsOn_made (hiso : IsoDates host) (h : AllSettled host gone)
    (hstored : ∀ row ∈ onlyBook gone book, Stored host row) :
    (holdsOn host (gone.filterMap (madeAgain host)) book).Perm
      (holdsOn host gone book ++ lateHolds host gone book) := by
  obtain ⟨made, hmap, hremade⟩ := exists_made h hstored
  unfold holdsOn lateHolds
  rw [(settledOnBook_made hiso h).1, (settledOnBook_of_allSettled h).1, hmap, List.filterMap_map]
  have hheld : (onlyBook gone book).filterMap (heldFor host ∘ made) =
      (onlyBook gone book).filterMap fun row => heldFor host row <|> lateHold host row :=
    List.filterMap_congr fun row hrow => ((hremade row hrow).heldFor_orElse hiso).1
  rw [hheld]
  exact filterMap_orElse_perm fun row hrow => ((hremade row hrow).heldFor_orElse hiso).2

/-- The buckets are those of the rows made again. -/
theorem bucketsOn_made (book : Book) (hiso : IsoDates host) (h : AllSettled host gone) :
    bucketsOn host (gone.filterMap (madeAgain host)) book =
        ((onlyBook gone book).filterMap (madeAgain host)).flatMap exitBuckets ∧
      bucketsOn host gone book = (onlyBook gone book).flatMap exitBuckets := by
  unfold bucketsOn
  rw [(settledOnBook_made hiso h).2, (settledOnBook_of_allSettled h).2]
  exact ⟨rfl, rfl⟩

/-- As many others among the exits are left only where all rows tell what ended their lots,
and then all exits are left. -/
theorem buckets_made (hiso : IsoDates host) (h : AllSettled host gone)
    (hstored : ∀ row ∈ onlyBook gone book, Stored host row) :
    ((bucketsOn host (gone.filterMap (madeAgain host)) book).count .other =
        (bucketsOn host gone book).count .other →
      ∀ row ∈ onlyBook gone book, TellsExit row) ∧
    ((∀ row ∈ onlyBook gone book, TellsExit row) →
      bucketsOn host (gone.filterMap (madeAgain host)) book = bucketsOn host gone book) := by
  obtain ⟨made, hmap, hremade⟩ := exists_made h hstored
  obtain ⟨hbuckets, hgone⟩ := bucketsOn_made book hiso h
  rw [hbuckets, hgone, hmap, List.flatMap_map]
  constructor
  · intro hcount
    rw [List.count_flatMap, List.count_flatMap] at hcount
    have heach := eq_of_sum_eq (fun row hrow => (hremade row hrow).count_other.1) hcount.symm
    exact fun row hrow => (hremade row hrow).count_other.2.1 (heach row hrow)
  · intro htells
    exact List.flatMap_congr fun row hrow => (hremade row hrow).count_other.2.2 (htells row hrow)

theorem figures_made_iff (hiso : IsoDates host) (h : AllSettled host gone) :
    (summarizeBook host (shown ++ gone.filterMap (madeAgain host)) book =
        summarizeBook host (shown ++ gone) book ∧
      summarizeExits host (shown ++ gone.filterMap (madeAgain host)) book =
        summarizeExits host (shown ++ gone) book) ↔
      (∀ row ∈ onlyBook gone book, Stored host row) ∧
        (∀ row ∈ onlyBook gone book, TellsExit row) ∧
        (lateHolds host gone book = [] ∨
          mean (lateHolds host gone book) = mean (holdsOn host (shown ++ gone) book)) := by
  have hopen : openCount host (shown ++ gone.filterMap (madeAgain host)) book =
      openCount host (shown ++ gone) book := by
    rw [openCount_append, openCount_append, openCount_made hiso h]
  -- with all lots stored, the figures differ only in how long they were held
  have hbook (hstored : ∀ row ∈ onlyBook gone book, Stored host row) :
      summarizeBook host (shown ++ gone.filterMap (madeAgain host)) book =
          summarizeBook host (shown ++ gone) book ↔
        (lateHolds host gone book = [] ∨
          mean (lateHolds host gone book) = mean (holdsOn host (shown ++ gone) book)) := by
    have hreturns : returnsOn host (shown ++ gone.filterMap (madeAgain host)) book =
        returnsOn host (shown ++ gone) book := by
      rw [returnsOn_append, returnsOn_append, returnsOn_made hiso h hstored]
    have hholds : (holdsOn host (shown ++ gone.filterMap (madeAgain host)) book).Perm
        (holdsOn host (shown ++ gone) book ++ lateHolds host gone book) := by
      rw [holdsOn_append, holdsOn_append, List.append_assoc]
      exact (holdsOn_made hiso h hstored).append_left _
    rw [summarizeBook_eq_iff hreturns hopen, mean_perm hholds]
    exact mean_append_iff
  constructor
  · rintro ⟨hfigures, hexits⟩
    have hstored : ∀ row ∈ onlyBook gone book, Stored host row := by
      refine stored_of_length hiso h ?_
      have hclosed := congrArg BookDeskStats.closed hfigures
      rw [summarizeBook_eq, summarizeBook_eq, returnsOn_append, returnsOn_append,
        List.length_append, List.length_append] at hclosed
      exact Nat.add_left_cancel hclosed
    refine ⟨hstored, (buckets_made hiso h hstored).1 ?_, (hbook hstored).mp hfigures⟩
    -- a row that does not tell its exit is counted among the others
    have hother : (bucketsOn host (shown ++ gone.filterMap (madeAgain host)) book).count .other =
        (bucketsOn host (shown ++ gone) book).count .other := by
      have hmix := congrArg ExitMix.other hexits
      rwa [summarizeExits_eq, summarizeExits_eq] at hmix
    rw [bucketsOn_append, bucketsOn_append, List.count_append, List.count_append] at hother
    exact Nat.add_left_cancel hother
  · rintro ⟨hstored, htells, hheld⟩
    refine ⟨(hbook hstored).mpr hheld, ?_⟩
    rw [summarizeExits_eq, summarizeExits_eq, bucketsOn_append, bucketsOn_append,
      (buckets_made hiso h hstored).2 htells]

/-- The rows are those of the snapshot and those that it dropped. -/
theorem perm_dropped (hdistinct : (rows.map Row.id).Nodup) (hsub : shown.Sublist rows) :
    rows.Perm (shown ++ dropped shown rows) := by
  have hkept : (rows.filter fun row => row.id ∈ shown.map Row.id).Perm shown := by
    have hnodup : rows.Nodup := hdistinct.of_map
    refine (List.perm_ext_iff_of_nodup (hnodup.filter _) (hnodup.sublist hsub)).mpr fun row => ?_
    constructor
    · intro hrow
      obtain ⟨hmem, hid⟩ := List.mem_filter.mp hrow
      obtain ⟨other, hother, heq⟩ := List.mem_map.mp (of_decide_eq_true hid)
      rwa [← List.inj_on_of_nodup_map hdistinct (hsub.subset hother) hmem heq]
    · intro hrow
      exact List.mem_filter.mpr ⟨hsub.subset hrow, decide_eq_true (List.mem_map_of_mem hrow)⟩
  have hsplit : ((rows.filter fun row => row.id ∈ shown.map Row.id) ++
      dropped shown rows).Perm rows := by
    have hdropped : dropped shown rows =
        rows.filter fun row => !decide (row.id ∈ shown.map Row.id) :=
      List.filter_congr fun row _ => decide_not
    rw [hdropped]
    exact List.filter_append_perm _ rows
  exact hsplit.symm.trans (hkept.append_right _)

end

/-! ## What survives -/

/-- The snapshot has all rows but some of closed lots. -/
structure DropsClosed (host : Host) (shown rows : List Row) : Prop where
  distinct : (rows.map Row.id).Nodup
  room : rows.length ≤ sessionLifecycleLimit
  returns : ∀ row ∈ rows, (positionReadout host row).closed = true →
    decimal (row.get "pnl_pct") ≠ none
  sub : shown.Sublist rows
  closed : ∀ row ∈ dropped shown rows, (positionReadout host row).closed = true

section

variable (host : Host) (localeCompare : String → String → ℤ) (now : String)
  (shown rows : List Row) (book : Book)

/-- After an empty store took in all rows, the figures over the snapshot and the store are
those over all rows. -/
def SameFigures : Prop :=
  let store := (ingestDeskClosedLots host now .empty rows).1
  let stats := deskRowsForStats host localeCompare store shown
  summarizeBook host stats book = summarizeBook host rows book ∧
    summarizeExits host stats book = summarizeExits host rows book

/-- What the dropped lots of a book need for its figures to stay. -/
structure Survives : Prop where
  /-- they are stored -/
  stored : ∀ row ∈ onlyBook (dropped shown rows) book, Stored host row
  /-- they tell what ended them -/
  tells : ∀ row ∈ onlyBook (dropped shown rows) book, TellsExit row
  /-- those closed by their fills alone were held as long as the others, or for no time -/
  held : lateHolds host (dropped shown rows) book = [] ∨
    mean (lateHolds host (dropped shown rows) book) = mean (holdsOn host rows book)

variable {host localeCompare now shown rows book}

/-- The order of the rows does not matter. -/
theorem sameFigures_iff (h : DropsClosed host shown rows) :
    SameFigures host localeCompare now shown rows book ↔
      summarizeBook host (shown ++ (dropped shown rows).filterMap (madeAgain host)) book =
          summarizeBook host (shown ++ dropped shown rows) book ∧
        summarizeExits host (shown ++ (dropped shown rows).filterMap (madeAgain host)) book =
          summarizeExits host (shown ++ dropped shown rows) book := by
  have hrows : rows.Perm (shown ++ dropped shown rows) := perm_dropped h.distinct h.sub
  have hstats (made : List Row) :
      (positionRows host localeCompare shown ++ made).Perm (shown ++ made) :=
    (List.mergeSort_perm _ _).append_right _
  unfold SameFigures
  dsimp only
  rw [deskRowsForStats_eq h.distinct h.room h.closed, summarizeBook_perm (hstats _),
    summarizeExits_perm (hstats _), summarizeBook_perm hrows, summarizeExits_perm hrows]

/-- What is dropped of a desk was settled. -/
theorem DropsClosed.allSettled (h : DropsClosed host shown rows) :
    AllSettled host (dropped shown rows) := by
  intro row hrow
  have hclosed := h.closed row hrow
  exact ⟨hclosed, h.returns row (List.mem_filter.mp hrow).1 hclosed⟩

end

/-- The figures of a book stay what they are exactly where every lot of it that was dropped
is stored, tells what ended it, and was not closed by its fills alone after a hold that
changes the mean. -/
theorem survives_iff (host : Host) (localeCompare : String → String → ℤ) (now : String)
    (shown rows : List Row) (book : Book) (hiso : IsoDates host)
    (h : DropsClosed host shown rows) :
    SameFigures host localeCompare now shown rows book ↔ Survives host shown rows book := by
  have hholds : mean (holdsOn host rows book) =
      mean (holdsOn host (shown ++ dropped shown rows) book) :=
    mean_perm (holdsOn_perm (perm_dropped h.distinct h.sub))
  rw [sameFigures_iff h, figures_made_iff hiso h.allSettled, ← hholds]
  constructor
  · rintro ⟨hstored, htells, hheld⟩
    exact ⟨hstored, htells, hheld⟩
  · intro hsurvives
    exact ⟨hsurvives.stored, hsurvives.tells, hsurvives.held⟩

/-! ## Two lots -/

/-- A host that knows two dates. -/
def hourHost : Host where
  toISOString text :=
    if text = "2026-01-01T00:00:00.000Z" ∨ text = "2026-01-01T01:00:00.000Z" then some text
    else none
  parse text :=
    if text = "2026-01-01T00:00:00.000Z" then 1767225600000
    else if text = "2026-01-01T01:00:00.000Z" then 1767229200000
    else 0
  text _ := ""
  toFixed2 _ := ""

/-- A lot that was held for an hour. -/
def hourRow (triggers : Js) : Row where
  id := "lot"
  symbol := "XBT/USD"
  fills := []
  get key :=
    if key = "opened_at" then .str "2026-01-01T00:00:00.000Z"
    else if key = "closed_at" then .str "2026-01-01T01:00:00.000Z"
    else if key = "pnl_pct" then .num 1
    else if key = "outcome_triggers" then triggers
    else .undefined

theorem isoDates_hourHost : IsoDates hourHost := by
  intro text iso h
  simp only [hourHost] at h ⊢
  split at h
  · next hdate =>
    obtain rfl := Option.some.inj h
    refine ⟨?_, if_pos hdate⟩
    rintro rfl
    simp at hdate
  · cases h

theorem dropsClosed_hourRow (triggers : Js) : DropsClosed hourHost [] [hourRow triggers] where
  distinct := List.nodup_singleton _
  room := Nat.le_of_ble_eq_true rfl
  returns row hrow _ := by
    obtain rfl := List.mem_singleton.mp hrow
    simp [hourRow, decimal]
  sub := List.nil_sublist _
  closed row hrow := by
    obtain rfl := List.mem_singleton.mp (List.mem_filter.mp hrow).1
    rfl

/-- With triggers the lot counts as it did. -/
theorem survives_triggers : SameFigures hourHost (fun _ _ => 0) "now" []
    [hourRow (.arr [.str "cleared friction"])] .paper := by
  refine (survives_iff hourHost (fun _ _ => 0) "now" [] _ .paper isoDates_hourHost
    (dropsClosed_hourRow _)).mpr ⟨?_, ?_, .inl rfl⟩
  · intro row hrow
    obtain rfl := List.mem_singleton.mp (List.mem_filter.mp (List.mem_filter.mp hrow).1).1
    exact ⟨by simp [hourRow], nofun, nofun⟩
  · intro row hrow
    obtain rfl := List.mem_singleton.mp (List.mem_filter.mp (List.mem_filter.mp hrow).1).1
    exact .inl nofun

/-- Without triggers it comes back with an exit that it did not have. -/
theorem settle_counted :
    ¬ ∀ (host : Host) (localeCompare : String → String → ℤ) (now : String)
      (shown rows : List Row), IsoDates host → DropsClosed host shown rows →
      ∀ book, SameFigures host localeCompare now shown rows book := by
  intro h
  have hdrops := dropsClosed_hourRow .undefined
  have hsame := h hourHost (fun _ _ => 0) "now" [] _ isoDates_hourHost hdrops .paper
  have htells := ((figures_made_iff isoDates_hourHost hdrops.allSettled).mp
    ((sameFigures_iff hdrops).mp hsame)).2.1 (hourRow .undefined) List.mem_cons_self
  rcases htells with htriggers | ⟨trigger, htrigger, -⟩
  · exact htriggers rfl
  · cases htrigger

end Symm.Dashboard
