import Symm.Dashboard.Lifecycles
import Symm.Lib.Samples

/-!
# The figures of the desk (`collections/longtail.ts`, `lib/lifecycle.ts`)

The charts show for each book how its lots went: how many are closed, what they
returned, how long they were held and what ended them. The hub drops a closed lot from
its snapshot after a while, so the figures are taken over the snapshot and the closed
lots that the store of the round trips still has, made into rows again.

- `summarizeBook`, `summarizeExits`: the figures of a book;
- `deskRowsForStats`: the rows that they are taken over;
- `summarizeBook_eq`, `summarizeExits_eq`: what they read of the rows.

- `summarizeBook`, `summarizeExits`: the two folds over the rows of the desk, as they
  are written in the source;
- `deskRowsForStats`: which rows they are given: the live lots and the closed lives that
  are not among them;
- `summarizeBook_eq`, `summarizeExits_eq`: the folds said by lists: of returns, of holds
  and of the buckets of exits;
- `summarizeBook_perm`: where sums are exact, the order of the rows does not matter.

The later modules on statistics never look into the folds again. Where sums are not
exact, only the means depend on the order, and the lists say what each figure is read
from.
-/

namespace Symm.Dashboard

open Symm.Lib

/-- `Book`. -/
inductive Book
  | paper
  | virtual
  | real
  deriving DecidableEq

/-- The label of a book. -/
def Book.text : Book → String
  | .paper => "paper"
  | .virtual => "virtual"
  | .real => "real"

/-- `onBook`. A lot without a label is on paper. -/
def onBook (row : Row) (book : Book) : Bool :=
  match filled (row.get "book") with
  | some text => text = book.text
  | none => book = .paper

/-- `openOnBook`. -/
def openOnBook (host : Host) (rows : List Row) (book : Book) : List Row :=
  rows.filter fun row => onBook row book && !(positionReadout host row).closed

/-- `closedOnBook`. -/
def closedOnBook (host : Host) (rows : List Row) (book : Book) : List Row :=
  rows.filter fun row => onBook row book && (positionReadout host row).closed

/-- `countsTowardBookPerformance`. -/
def countsTowardBookPerformance (row : Row) (book : Book) : Bool := onBook row book

/-! ## Returns and holds -/

/-- `BookDeskStats`. -/
structure BookDeskStats where
  closed : ℕ
  «open» : ℕ
  wins : ℕ
  winRate : Option ℚ
  meanReturn : Option ℚ
  medianReturn : Option ℚ
  worstReturn : Option ℚ
  avgHoldNs : Option ℚ

/-- The closed lots of the book whose return is known. -/
def settledOnBook (host : Host) (rows : List Row) (book : Book) : List Row :=
  (closedOnBook host rows book).filter fun row => (positionReadout host row).returnPct.isSome

/-- How long a lot was held, where that is more than nothing. -/
def heldFor (host : Host) (row : Row) : Option ℚ :=
  (positionReadout host row).holdNs.filter (0 < ·)

/-- `summarizeBook`. -/
def summarizeBook (host : Host) (rows : List Row) (book : Book) : BookDeskStats :=
  let onThisBook := rows.filter fun row => onBook row book
  let settled := settledOnBook host rows book
  let scored := settled.filter fun row => countsTowardBookPerformance row book
  let returns := scored.filterMap fun row => (positionReadout host row).returnPct
  let wins := (returns.filter (0 < ·)).length
  let holds := settled.filterMap (heldFor host)
  { closed := scored.length
    «open» := (openOnBook host onThisBook book).length
    wins := wins
    winRate := if returns.length > 0 then some (wins / returns.length) else none
    meanReturn := mean returns
    medianReturn := if returns.length > 0 then some (median returns) else none
    worstReturn := returns.min?
    avgHoldNs := mean holds }

/-! ## Exits -/

/-- The four buckets of `ExitMix`. -/
inductive ExitBucket
  | profit
  | stop
  | policy
  | other
  deriving DecidableEq

/-- `ExitMix`. -/
structure ExitMix where
  profit : ℕ
  stop : ℕ
  policy : ℕ
  other : ℕ
  total : ℕ
  deriving DecidableEq

/-- `emptyExitMix`. -/
def emptyExitMix : ExitMix := ⟨0, 0, 0, 0, 0⟩

/-- One more in the bucket, and in all. -/
def ExitMix.add (mix : ExitMix) : ExitBucket → ExitMix
  | .profit => { mix with profit := mix.profit + 1, total := mix.total + 1 }
  | .stop => { mix with stop := mix.stop + 1, total := mix.total + 1 }
  | .policy => { mix with policy := mix.policy + 1, total := mix.total + 1 }
  | .other => { mix with other := mix.other + 1, total := mix.total + 1 }

/-- `includes`. -/
def includes (part : List Char) : List Char → Bool
  | [] => part.isEmpty
  | c :: rest => part.isPrefixOf (c :: rest) || includes part rest

/-- `classifyExit`. No letter beyond ASCII lowers to one of these texts. -/
def classifyExit (trigger : String) : ExitBucket :=
  let label := trigger.toLower.toList
  let has (part : String) : Bool := includes part.toList label
  if has "exit branch" || has "learned_exit" || has "policy exit" then .policy
  else if has "cleared friction" || has "pct profit" || has "trailing" || has "harvest" ||
      (has "profit" && !has "stop") then .profit
  else if has "invalidation" || has "friction dip" || has "stop" || has "exhaustion" ||
      has "evaporation" || has "drag" then .stop
  else .other

/-- The triggers of an outcome, but for empty ones. -/
def filledTriggers : Js → List String
  | .arr items => items.filterMap filled
  | _ => []

/-- What ended a lot: the triggers of its outcome, or the one of its exit. -/
def exitTriggers (row : Row) : List String :=
  let triggers := filledTriggers (row.get "outcome_triggers")
  if triggers = [] then (filled (row.get "exit_trigger")).toList else triggers

/-- The body of the loop of `summarizeExits`. -/
def ExitMix.addRow (mix : ExitMix) (row : Row) : ExitMix :=
  (exitTriggers row).foldl (fun mix trigger => mix.add (classifyExit trigger)) mix

/-- `summarizeExits`. -/
def summarizeExits (host : Host) (rows : List Row) (book : Book) : ExitMix :=
  (closedOnBook host rows book).foldl ExitMix.addRow emptyExitMix

/-! ## The rows of the figures -/

/-- The close of a round trip as a value. -/
def closeValue : Option (Option String) → Js
  | some (some closedAt) => .str closedAt
  | some none => .null
  | none => .undefined

/-- `deskRowFromClosedLife`. -/
def deskRowFromClosedLife (life : Lifecycle) : Option Row :=
  if life.status ≠ "closed" then none
  else life.outcome.map fun outcome =>
    { id := life.id
      symbol := life.symbol
      fills := []
      get := fun key =>
        if key = "book" then .str (life.book.getD "paper")
        else if key = "opened_at" then .str life.openedAt
        else if key = "closed_at" then closeValue life.closedAt
        else if key = "pnl" then .num outcome.pnl
        else if key = "pnl_pct" then .num outcome.pnlPct
        else if key = "hold_ns" then .num outcome.holdNs
        else if key = "outcome_triggers" then
          (outcome.triggers.map fun triggers => .arr (triggers.map .str)).getD .null
        else if key = "exit_trigger" then (life.exitTrigger.map .str).getD .null
        else .undefined }

section

variable (host : Host) (localeCompare : String → String → ℤ)

/-- `comparePositionRows`. -/
def comparePositionRows (a b : Row) : ℤ :=
  let openedAt (row : Row) : String := ((row.get "opened_at").orElse (.str "")).text host
  let symbol := localeCompare a.symbol b.symbol
  if symbol ≠ 0 then symbol
  else
    let opened := localeCompare (openedAt a) (openedAt b)
    if opened ≠ 0 then opened else localeCompare a.id b.id

/-- `positionRows`. -/
def positionRows (state : List Row) : List Row :=
  state.mergeSort fun a b => comparePositionRows host localeCompare a b ≤ 0

/-- The body of the loop of `deskRowsForStats`: the rows so far, and the ids seen. -/
def addClosedLife (acc : List Row × List String) (life : Lifecycle) : List Row × List String :=
  if !life.desk || life.status ≠ "closed" || life.outcome.isNone then acc
  else if life.id ∈ acc.2 then acc
  else
    match deskRowFromClosedLife life with
    | none => acc
    | some row => (acc.1 ++ [row], life.id :: acc.2)

/-- `deskRowsForStats`. -/
def deskRowsForStats (store : Store) (state : List Row) : List Row :=
  let rows := positionRows host localeCompare state
  let seen := (rows.filter fun row => row.id ≠ "").map Row.id
  (store.lives.values.foldl addClosedLife (rows, seen)).1

end

/-! ## What the figures read -/

section

variable {host : Host} {rows others : List Row} {book : Book}

/-- The label of a lot decides its book. -/
theorem onBook_eq (row : Row) (book : Book) :
    onBook row book = decide (bookFromRow row = book.text) := by
  unfold onBook bookFromRow
  cases filled (row.get "book") with
  | none => cases book <;> decide
  | some text => rfl

theorem closedOnBook_append : closedOnBook host (rows ++ others) book =
    closedOnBook host rows book ++ closedOnBook host others book := List.filter_append _ _

theorem settledOnBook_append : settledOnBook host (rows ++ others) book =
    settledOnBook host rows book ++ settledOnBook host others book := by
  unfold settledOnBook
  rw [closedOnBook_append, List.filter_append]

/-- The returns of the settled lots. -/
def returnsOn (host : Host) (rows : List Row) (book : Book) : List ℚ :=
  (settledOnBook host rows book).filterMap fun row => (positionReadout host row).returnPct

/-- The holds of the settled lots. -/
def holdsOn (host : Host) (rows : List Row) (book : Book) : List ℚ :=
  (settledOnBook host rows book).filterMap (heldFor host)

/-- How many lots are open on the book. -/
def openCount (host : Host) (rows : List Row) (book : Book) : ℕ :=
  (openOnBook host rows book).length

/-- The buckets of what ended a lot. -/
def exitBuckets (row : Row) : List ExitBucket := (exitTriggers row).map classifyExit

/-- The buckets of all exits on the book. -/
def bucketsOn (host : Host) (rows : List Row) (book : Book) : List ExitBucket :=
  (closedOnBook host rows book).flatMap exitBuckets

theorem returnsOn_append : returnsOn host (rows ++ others) book =
    returnsOn host rows book ++ returnsOn host others book := by
  unfold returnsOn
  rw [settledOnBook_append, List.filterMap_append]

theorem holdsOn_append : holdsOn host (rows ++ others) book =
    holdsOn host rows book ++ holdsOn host others book := by
  unfold holdsOn
  rw [settledOnBook_append, List.filterMap_append]

theorem openCount_append : openCount host (rows ++ others) book =
    openCount host rows book + openCount host others book := by
  unfold openCount openOnBook
  rw [List.filter_append, List.length_append]

theorem bucketsOn_append : bucketsOn host (rows ++ others) book =
    bucketsOn host rows book ++ bucketsOn host others book := by
  unfold bucketsOn
  rw [closedOnBook_append, List.flatMap_append]

/-- Every settled lot has a return. -/
theorem length_returnsOn :
    (returnsOn host rows book).length = (settledOnBook host rows book).length := by
  unfold returnsOn
  rw [List.length_filterMap_eq_countP, List.countP_eq_length]
  intro row hrow
  exact (List.mem_filter.mp hrow).2

/-- All figures of a book but its holds come from the returns and the open lots. -/
theorem summarizeBook_eq : summarizeBook host rows book =
    { closed := (returnsOn host rows book).length
      «open» := openCount host rows book
      wins := ((returnsOn host rows book).filter (0 < ·)).length
      winRate := if (returnsOn host rows book).length > 0 then
          some (((returnsOn host rows book).filter (0 < ·)).length /
            (returnsOn host rows book).length) else none
      meanReturn := mean (returnsOn host rows book)
      medianReturn := if (returnsOn host rows book).length > 0 then
          some (median (returnsOn host rows book)) else none
      worstReturn := (returnsOn host rows book).min?
      avgHoldNs := mean (holdsOn host rows book) } := by
  -- a settled row counts towards the performance of its book
  have hscored : (settledOnBook host rows book).filter
      (fun row => countsTowardBookPerformance row book) = settledOnBook host rows book := by
    refine List.filter_eq_self.mpr fun row hrow => ?_
    have hclosed := (List.mem_filter.mp (List.mem_filter.mp hrow).1).2
    exact (Bool.and_eq_true_iff.mp hclosed).1
  have hopen : openOnBook host (rows.filter fun row => onBook row book) book =
      openOnBook host rows book := by
    unfold openOnBook
    rw [List.filter_filter]
    refine List.filter_congr fun row _ => ?_
    cases onBook row book <;> simp
  unfold summarizeBook
  dsimp only
  rw [hscored, hopen, ← length_returnsOn]
  rfl

/-- With the same returns and open lots, the holds decide. -/
theorem summarizeBook_eq_iff (hreturns : returnsOn host rows book = returnsOn host others book)
    (hopen : openCount host rows book = openCount host others book) :
    summarizeBook host rows book = summarizeBook host others book ↔
      mean (holdsOn host rows book) = mean (holdsOn host others book) := by
  rw [summarizeBook_eq, summarizeBook_eq, hreturns, hopen]
  simp

/-- Exits are counted by what each is, not by their order. -/
theorem foldl_add (buckets : List ExitBucket) (mix : ExitMix) : buckets.foldl ExitMix.add mix =
    { profit := mix.profit + buckets.count .profit
      stop := mix.stop + buckets.count .stop
      policy := mix.policy + buckets.count .policy
      other := mix.other + buckets.count .other
      total := mix.total + buckets.length } := by
  induction buckets generalizing mix with
  | nil => rfl
  | cons bucket rest ih =>
    rw [List.foldl_cons, ih]
    cases bucket <;> simp [ExitMix.add] <;> omega

/-- The exits are counted by bucket. -/
theorem summarizeExits_eq : summarizeExits host rows book =
    { profit := (bucketsOn host rows book).count .profit
      stop := (bucketsOn host rows book).count .stop
      policy := (bucketsOn host rows book).count .policy
      other := (bucketsOn host rows book).count .other
      total := (bucketsOn host rows book).length } := by
  have hfold (lots : List Row) (mix : ExitMix) : lots.foldl ExitMix.addRow mix =
      (lots.flatMap exitBuckets).foldl ExitMix.add mix := by
    induction lots generalizing mix with
    | nil => rfl
    | cons row rest ih =>
      rw [List.foldl_cons, ih, List.flatMap_cons, List.foldl_append, exitBuckets, List.foldl_map]
      rfl
  unfold summarizeExits
  rw [hfold, foldl_add]
  simp [emptyExitMix, bucketsOn]

/-! ## Their order -/

theorem settledOnBook_perm (h : rows.Perm others) :
    (settledOnBook host rows book).Perm (settledOnBook host others book) :=
  (h.filter _).filter _

theorem returnsOn_perm (h : rows.Perm others) :
    (returnsOn host rows book).Perm (returnsOn host others book) :=
  (settledOnBook_perm h).filterMap _

theorem holdsOn_perm (h : rows.Perm others) :
    (holdsOn host rows book).Perm (holdsOn host others book) :=
  (settledOnBook_perm h).filterMap _

/-- The figures of a book do not depend on the order of its rows, with exact sums. -/
theorem summarizeBook_perm (h : rows.Perm others) :
    summarizeBook host rows book = summarizeBook host others book := by
  have hreturns : (returnsOn host rows book).Perm (returnsOn host others book) := returnsOn_perm h
  have hopen : openCount host rows book = openCount host others book := (h.filter _).length_eq
  rw [summarizeBook_eq, summarizeBook_eq, hopen, hreturns.length_eq,
    (hreturns.filter _).length_eq, mean_perm hreturns, median_perm hreturns, min?_perm hreturns,
    mean_perm (holdsOn_perm h)]

theorem summarizeExits_perm (h : rows.Perm others) :
    summarizeExits host rows book = summarizeExits host others book := by
  have hbuckets : (bucketsOn host rows book).Perm (bucketsOn host others book) :=
    (h.filter _).flatMap_right _
  rw [summarizeExits_eq, summarizeExits_eq, hbuckets.length_eq, hbuckets.count_eq,
    hbuckets.count_eq, hbuckets.count_eq, hbuckets.count_eq]

end

end Symm.Dashboard
