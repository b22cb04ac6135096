import Symm.Dashboard.Readout

/-!
# The round trip of a desk lot (`lib/desk-closed-lifecycle.ts`, `lib/stoploss.ts`)

The life-cycle view shows a lot as a `Lifecycle`, made out of the row that the desk
publishes: `lifecycleFromDeskOpen` while the lot is held, `lifecycleFromDeskClosed`
once it has a close. What is missing in a row is `undefined` in some members and
`null` in others. One `none` stands for both, but in `closedAt`: there the store of
the round trips tells them apart.

- `normalizeStoploss`: the stop of a row, under either spelling of its members;
- `tapeMarksFromDeskRow`, `policyEpochFromRow`: where the lot is on the tape;
- `lifecycleFromDeskOpen`, `lifecycleFromDeskClosed`.

The readings of a row are partial: a member may be missing, of another type, or empty,
and the source asks for it under two spellings. Each helper of the source is a
definition of its own here, under its name, and the two makers of round trips are
written with them.

`DeskOpen` and `DeskClosed` say of a round trip that it was made of a row, field by
field. The store compares what it holds with what comes in by these and does not look
into the makers.
-/

namespace Symm.Dashboard

open Symm.Lib

/-! ## The stop -/

/-- `DynamicStoplossState`. -/
inductive StoplossState
  | healthy
  | «protected»
  | critical
  | dangerous
  | triggered
  deriving DecidableEq

/-- `DynamicStoploss`. A code between two of the table leaves the state undefined. -/
structure DynamicStoploss where
  state : Option StoplossState
  exitReason : Option String
  friction : ℚ
  currentPnl : ℚ
  peakPnl : ℚ
  floorPnl : ℚ
  hasFloor : Bool
  roomPct : ℚ
  proximity : ℚ
  downsidePressure : ℚ
  downsideMagnitudeRatio : ℚ
  consecutiveDown : ℚ
  openedAt : Option String
  lastPeakTime : Option String

/-- `STATE_FROM_CODE`. -/
def stateFromCode (code : ℚ) : Option StoplossState :=
  if code = 0 ∨ code = 1 then some .healthy
  else if code = 2 then some .dangerous
  else if code = 3 then some .critical
  else if code = 4 then some .protected
  else if code = 5 then some .triggered
  else none

/-- `STATE_LABELS`; a stalled stop is shown as dangerous. -/
def stateFromLabel (label : String) : Option StoplossState :=
  if label = "Healthy" then some .healthy
  else if label = "Protected" then some .protected
  else if label = "Critical" then some .critical
  else if label = "Dangerous" ∨ label = "Stalled" then some .dangerous
  else if label = "Triggered" then some .triggered
  else none

/-- `num`. -/
def num : Js → Option ℚ
  | .num value => some value
  | .str text => scanNumber (trimSpace text.toList)
  | _ => none

/-- `pick`. -/
def pick (raw : Record) (keys : List String) : Js :=
  ((keys.map raw).find? fun value => !value.isNullish).getD .undefined

/-- `stateFromWire`, whose result may be undefined. -/
def stateFromWire (raw : Record) : Option (Option StoplossState) :=
  let labeled := pick raw ["state", "State"]
  match labeled.string?.bind stateFromLabel with
  | some state => some (some state)
  | none => ((num labeled).filter fun code => 0 ≤ code ∧ code ≤ 5).map stateFromCode

/-- A text that is not empty. -/
def filled (value : Js) : Option String := value.string?.filter (· ≠ "")

/-- The stop that a row describes. -/
def stopFromRow (row : Record) (state : Option StoplossState) : Option DynamicStoploss :=
  match num (pick row ["current_pnl", "CurrentPnLPct", "current_pnl_pct"]),
    num (pick row ["peak_pnl", "PeakPnLPct", "peak_pnl_pct"]),
    num (pick row ["floor_pnl", "FloorPnLPct", "floor_pnl_pct"]) with
  | some current, some peak, some floor =>
    let initial := num (pick row ["friction", "InitialPnLPct", "initial_pnl_pct"])
    let maxLoss := num (pick row ["MaxLossPct", "max_loss_pct"])
    let profitTarget := num (pick row ["ProfitTargetPct", "profit_target_pct"])
    let span := max (1 / 1000000000)
      (((profitTarget.bind fun target => maxLoss.map (target - ·))).getD (peak - floor))
    let room := (num (pick row ["room_pct"])).getD (current - floor)
    some {
      state := state
      exitReason := filled (pick row ["exit_reason"])
      friction := (initial.map abs).getD 0
      currentPnl := current
      peakPnl := peak
      floorPnl := floor
      -- the floor is a finite number here
      hasFloor := true
      roomPct := room
      proximity := (num (pick row ["proximity"])).getD (max 0 (min 1 (1 - room / span)))
      downsidePressure := (num (pick row ["downside_pressure"])).getD 0
      downsideMagnitudeRatio := (num (pick row ["downside_magnitude_ratio"])).getD 0
      consecutiveDown := (num (pick row ["consecutive_down"])).getD 0
      openedAt := filled (pick row ["opened_at", "PreviousTime"])
      lastPeakTime := filled (pick row ["last_peak_time", "CurrentTime"]) }
  | _, _, _ => none

/-- `normalizeStoploss`. -/
def normalizeStoploss : Js → Option DynamicStoploss
  | .obj row => (stateFromWire row).bind (stopFromRow row)
  | _ => none

/-! ## The tape -/

/-- `tickUint`. -/
def tickUint : Js → Option ℚ
  | .num value => if 0 < value then some value else none
  | .str text =>
    let digits := trimSpace text.toList
    if digits ≠ [] ∧ digits.all Char.isDigit then some (Nat.ofDigitChars 10 digits 0) else none
  | _ => none

/-- The ticks of a closed lot: before its entry, its entry and its exit. -/
structure TapeMarks where
  a : ℚ
  b : ℚ
  c : ℚ

/-- `tapeMarksFromDeskRow`. -/
def tapeMarksFromDeskRow (row : Row) : Option TapeMarks :=
  match tickUint (row.get "entry_tick"), tickUint (row.get "exit_tick") with
  | some entry, some exit => if exit < entry then none else some ⟨entry, entry, exit⟩
  | _, _ => none

/-- `policyEpochFromRow`. -/
def policyEpochFromRow (host : Host) (row : Row) : Option String :=
  let epoch := row.get "policy_epoch"
  if epoch.isNullish ∨ epoch.string? = some "" then none else some (epoch.text host)

/-! ## Round trips -/

/-- `LifeEvent`, without the fields that no view of the store reads. -/
structure LifeEvent where
  «at» : String
  kind : String
  detail : String

/-- `LifeMark`. -/
structure LifeMark where
  «at» : String
  bid : ℚ
  quantity : ℚ
  entryPrice : ℚ
  unrealized : ℚ
  unrealizedReturn : ℚ

/-- `LifeOutcome`, without the members that the desk's rows do not carry. -/
structure LifeOutcome where
  pnl : ℚ
  pnlPct : ℚ
  money : Option ℚ
  holdNs : ℚ
  expectedHoldNs : Option ℚ
  triggers : Option (List String)

/-- `LearnedExitPolicy`. -/
structure LearnedExitPolicy where
  trailing : Option ℚ
  cut : Option ℚ
  maxBars : Option ℚ
  worst : Option ℚ

/-- The members of a round trip that a row of the desk need not have, and that are kept
where it does not. -/
structure Details where
  policyEpoch : Option String := none
  marksA : Option ℚ := none
  marksB : Option ℚ := none
  marksC : Option ℚ := none
  path : Option String := none
  pathFound : Option Bool := none
  stopState : Option DynamicStoploss := none
  policy : Option LearnedExitPolicy := none
  peakPct : Option ℚ := none
  realizedPct : Option ℚ := none
  barsHeld : Option ℚ := none
  pnlTrace : Option (List ℚ) := none
  exitTrigger : Option String := none
  officialExitPct : Option ℚ := none

/-- `Lifecycle`. Its close is undefined, null or a date. -/
structure Lifecycle extends Details where
  id : String
  symbol : String
  status : String
  openedAt : String
  closedAt : Option (Option String)
  events : List LifeEvent
  mark : Option LifeMark
  marks : List LifeMark
  outcome : Option LifeOutcome
  book : Option String
  desk : Bool
  history : Bool

/-- `bookFromRow`. -/
def bookFromRow (row : Row) : String := (filled (row.get "book")).getD "paper"

/-- `stopFieldsFromRow`, over what the rest of the row gave. -/
def stopFieldsFromRow (row : Row) (details : Details) : Details :=
  let stop := normalizeStoploss (row.get "stoploss")
  { details with
    stopState := stop
    policy := none
    peakPct := stop.map (·.peakPnl)
    realizedPct := decimal (row.get "pnl_pct")
    barsHeld := none
    pnlTrace := none
    exitTrigger := filled (row.get "exit_trigger")
    officialExitPct := decimal (row.get "pnl_pct") }

/-- The path on which the lot was opened, as the end of a line. -/
def pathText (entryPath : Option String) : String :=
  ((entryPath.filter (· ≠ "")).map (" · " ++ ·)).getD ""

/-- The mark of an open lot at the time. -/
def liveMark (now : String) (readout : PositionReadout) : Option LifeMark :=
  readout.mark.map fun mark =>
    { «at» := now
      bid := mark
      quantity := readout.qty.getD 0
      entryPrice := readout.entryPrice.getD 0
      unrealized := (readout.returnPct.bind fun returnPct => readout.entryPrice.bind fun price =>
        readout.qty.map fun qty => price * qty * returnPct).getD 0
      unrealizedReturn := readout.returnPct.getD 0 }

/-- `lifecycleFromDeskOpen`, at the time `now`. -/
def lifecycleFromDeskOpen (host : Host) (now : String) (row : Row) : Option Lifecycle :=
  if row.id = "" then none
  else
    let readout := positionReadout host row
    match readout.openedAt with
    | none => none
    | some openedAt =>
      if readout.closed then none
      else
        let live := liveMark now readout
        let entryPath := (row.get "entry_path").string?
        some {
          id := row.id
          symbol := row.symbol
          status := "holding"
          openedAt := openedAt
          closedAt := some none
          book := some (bookFromRow row)
          desk := true
          history := false
          mark := live
          marks := live.toList
          toDetails := stopFieldsFromRow row { pathFound := some false, path := entryPath }
          events := [⟨openedAt, "opened", "desk lot opened" ++ pathText entryPath⟩]
          outcome := none }

/-- What a closed lot came to, where its row gives a return. -/
def outcomeFromRow (host : Host) (row : Row) (openedAt closedAt : String) : Option LifeOutcome :=
  let readout := positionReadout host row
  let settle := settledOutcome host row
  match readout.returnPct <|> settle.bind (·.pnl),
    readout.returnPctDisplay <|> settle.bind (·.pnlPct) with
  | some pnl, some pnlPct => some {
      pnl := pnl
      pnlPct := pnlPct
      money := decimal (row.get "pnl")
      holdNs := (settle.bind (·.holdNs)).getD
        ((host.parse closedAt - host.parse openedAt) * 1000000)
      expectedHoldNs := none
      triggers := (settle.bind (·.triggers)) <|> some ["desk settle"] }
  | _, _ => none

/-- What is said of the close of a lot. -/
def closeDetail (host : Host) (row : Row) : String :=
  let settle := settledOutcome host row
  let triggers := (settle.bind (·.triggers)).getD []
  let exitTickText :=
    ((tapeMarksFromDeskRow row).map fun tape => " · tick " ++ host.text tape.c).getD ""
  if triggers ≠ [] then ", ".intercalate triggers ++ exitTickText
  else
    match (positionReadout host row).returnPctDisplay <|> settle.bind (·.pnlPct) with
    | none => "closed" ++ exitTickText
    | some pnlPct => "return " ++ host.toFixed2 pnlPct ++ "%" ++ exitTickText

/-- `lifecycleFromDeskClosed`. -/
def lifecycleFromDeskClosed (host : Host) (row : Row) : Option Lifecycle :=
  if row.id = "" then none
  else
    let readout := positionReadout host row
    if ¬ readout.closed then none
    else
      -- a row without one of its dates gives no life
      match readout.openedAt, readout.closedAt with
      | some openedAt, some closedAt =>
        let tape := tapeMarksFromDeskRow row
        let entryPath := (row.get "entry_path").string?
        some {
          id := row.id
          symbol := row.symbol
          status := "closed"
          openedAt := openedAt
          closedAt := some (some closedAt)
          book := some (bookFromRow row)
          desk := true
          history := false
          mark := none
          marks := []
          toDetails := stopFieldsFromRow row {
            pathFound := some false
            policyEpoch := policyEpochFromRow host row
            path := entryPath
            marksA := tape.map (·.a)
            marksB := tape.map (·.b)
            marksC := tape.map (·.c) }
          events := [
            ⟨openedAt, "opened", "desk open · tick " ++
              ((tape.map fun tape => host.text tape.b).getD "—") ++ pathText entryPath⟩,
            ⟨closedAt, "closed", closeDetail host row⟩]
          outcome := outcomeFromRow host row openedAt closedAt }
      | _, _ => none

/-! ## What they give -/

section

variable {host : Host} {now : String} {row : Row} {life : Lifecycle}

/-- An open lot as the desk's row gives it. -/
structure DeskOpen (row : Row) (life : Lifecycle) : Prop where
  id : life.id = row.id
  named : row.id ≠ ""
  status : life.status = "holding"
  closedAt : life.closedAt = some none
  desk : life.desk = true
  history : life.history = false
  marks : life.marks = life.mark.toList
  events : life.events ≠ []
  outcome : life.outcome = none

/-- A closed lot as the desk's row gives it. -/
structure DeskClosed (row : Row) (life : Lifecycle) : Prop where
  id : life.id = row.id
  named : row.id ≠ ""
  status : life.status = "closed"
  desk : life.desk = true
  history : life.history = false
  mark : life.mark = none
  marks : life.marks = []
  events : life.events ≠ []

/-- An open life is made of an open row alone. -/
theorem lifecycleFromDeskOpen_spec (h : lifecycleFromDeskOpen host now row = some life) :
    DeskOpen row life ∧ (positionReadout host row).closed = false := by
  unfold lifecycleFromDeskOpen at h
  split at h
  · cases h
  · next hid =>
    dsimp only at h
    split at h
    · cases h
    · split at h
      · cases h
      · next hclosed =>
        obtain rfl := Option.some.inj h
        exact ⟨⟨rfl, hid, rfl, rfl, rfl, rfl, rfl, by simp, rfl⟩, by simpa using hclosed⟩

/-- A closed life is made of a closed row alone. -/
theorem lifecycleFromDeskClosed_spec (h : lifecycleFromDeskClosed host row = some life) :
    DeskClosed row life ∧ (positionReadout host row).closed = true := by
  unfold lifecycleFromDeskClosed at h
  split at h
  · cases h
  · next hid =>
    dsimp only at h
    split at h
    · cases h
    · next hclosed =>
      split at h
      · obtain rfl := Option.some.inj h
        exact ⟨⟨rfl, hid, rfl, rfl, rfl, rfl, rfl, by simp⟩, by simpa using hclosed⟩
      · cases h

end

end Symm.Dashboard
