import Symm.Lib.Patches
import Symm.Strategy.Model
import Symm.Ui.SocketWorker

/-!
# The gate lab (`collections/gate-lab.ts`, `dashboard/gate-lab.tsx`, `ui/hub.go`, `system/`)

The gate lab edits drafts of the risk and resonance settings and sends them as commands.
The worker keeps every command it was given and sends all of them again on each new
socket. The hub reads each socket in order and patches its settings: a value of the
wrong type is passed over.

The runs are those of one page: it connects once, and only the gate lab sends commands
of these types. The rendered drafts are those of the store. Left out: the oracle lamps,
which nothing sends, and infinite floats, which no JSON text carries.

- `Risk.apply`, `applyResonance`, `handleCommand`: the hub;
- `Panel`: the gate lab;
- `State`, `Event`, `step`: the panel, the worker, and the hub with what it has read;
- `Setting`, `writes`: the configuration as a record of settings, and what a frame patches.
-/

namespace Symm.Ui.Tuning

open Symm.Lib Symm.System Symm.Ui.SocketWorker

/-! ## The hub -/

/-- A value of a `map[string]any`. -/
inductive Value
  | float (value : ℚ)
  | nan
  | int (value : ℤ)
  | bool (value : Bool)
  | other
  deriving DecidableEq

/-- `map[string]any`. -/
abbrev Members := String → Option Value

def setFloat (patch : Members) (key : String) (dst : ℚ) : ℚ :=
  match patch key with
  | some (.float value) => value
  | some (.int value) => value
  | _ => dst

def setInt (patch : Members) (key : String) (dst : ℤ) : ℤ :=
  match patch key with
  | some (.float value) => Strategy.truncInt (.finite value)
  | some (.int value) => value
  | _ => dst

/-- `system.Risk` with the members that `Apply` sets besides. -/
structure Risk extends System.Risk where
  minMoverVolumeUSD : ℚ
  minMoverChangePct : ℚ
  minTapeTrades : ℤ

/-- `Risk.Apply`. -/
def Risk.apply (risk : Risk) (patch : Members) : Risk :=
  { risk with
    minMoverVolumeUSD := setFloat patch "min_mover_volume_usd" risk.minMoverVolumeUSD
    minMoverChangePct := setFloat patch "min_mover_change_pct" risk.minMoverChangePct
    maxEntrySpreadPct := setFloat patch "max_entry_spread_pct" risk.maxEntrySpreadPct
    minTouchBidCash := setFloat patch "min_touch_bid_cash" risk.minTouchBidCash
    minBackingRatio := setFloat patch "min_backing_ratio" risk.minBackingRatio
    maxEntryOpenDragPct := setFloat patch "max_entry_open_drag_pct" risk.maxEntryOpenDragPct
    minTapeTrades := setInt patch "min_tape_trades" risk.minTapeTrades }

/-- The bypass of `ApplyResonance`; NaN is not zero. -/
def setBypass (patch : Members) (dst : Bool) : Bool :=
  match patch "bypass" with
  | some (.bool value) => value
  | some (.float value) => value ≠ 0
  | some .nan => true
  | _ => dst

/-- `ApplyResonance`. -/
def applyResonance (learning : Learning) (patch : Members) : Learning :=
  { learning with
    resonanceBypass := setBypass patch learning.resonanceBypass
    minTaskRelativePrecision :=
      setFloat patch "min_task_relative_precision" learning.minTaskRelativePrecision
    minSurprise := setFloat patch "min_surprise" learning.minSurprise
    minEnterZ := setFloat patch "min_enter_z" learning.minEnterZ
    minSupportedHorizon := setInt patch "min_supported_horizon" learning.minSupportedHorizon }

/-- `system.Cfg`, as far as commands reach it. -/
structure Config where
  risk : Risk
  learning : Learning

/-- `handleCommand`, as far as it reaches the settings. `unmarshal` decodes a payload
without its type. -/
def handleCommand (unmarshal : String → Option Members) (config : Config) (frame : Frame) :
    Config :=
  match frame with
  | .command command =>
    if command.type = some "risk" then
      match unmarshal command.payload with
      | some patch => { config with risk := config.risk.apply patch }
      | none => config
    else if command.type = some "resonance" then
      match unmarshal command.payload with
      | some patch => { config with learning := applyResonance config.learning patch }
      | none => config
    else config
  | _ => config

/-! ## The gate lab -/

/-- `keyof RiskDraft`. -/
inductive RiskField
  | minMoverVolumeUsd | minMoverChangePct | maxEntrySpreadPct | minTouchBidCash
  | minBackingRatio | minTapeTrades | maxEntryOpenDragPct
  deriving DecidableEq

def RiskField.name : RiskField → String
  | .minMoverVolumeUsd => "min_mover_volume_usd"
  | .minMoverChangePct => "min_mover_change_pct"
  | .maxEntrySpreadPct => "max_entry_spread_pct"
  | .minTouchBidCash => "min_touch_bid_cash"
  | .minBackingRatio => "min_backing_ratio"
  | .minTapeTrades => "min_tape_trades"
  | .maxEntryOpenDragPct => "max_entry_open_drag_pct"

/-- `keyof ResonanceDraft`, without `bypass`. -/
inductive ResonanceField
  | minTaskRelativePrecision | minSurprise | minSupportedHorizon | minEnterZ
  deriving DecidableEq

def ResonanceField.name : ResonanceField → String
  | .minTaskRelativePrecision => "min_task_relative_precision"
  | .minSurprise => "min_surprise"
  | .minSupportedHorizon => "min_supported_horizon"
  | .minEnterZ => "min_enter_z"

/-- `RiskDraft`. -/
abbrev RiskDraft := RiskField → ℚ

/-- `ResonanceDraft`; a number is none where it is not finite. -/
structure ResonanceDraft where
  bypass : Bool
  numbers : ResonanceField → Option ℚ

/-- `RISK_DEFAULTS`. -/
def riskDefaults : RiskDraft
  | .minMoverVolumeUsd => 100000
  | .minMoverChangePct => 1 / 2
  | .maxEntrySpreadPct => 2
  | .minTouchBidCash => 100
  | .minBackingRatio => 3 / 5
  | .minTapeTrades => 8
  | .maxEntryOpenDragPct => 2

/-- `RESONANCE_DEFAULTS`. -/
def resonanceDefaults : ResonanceDraft where
  bypass := false
  numbers
    | .minTaskRelativePrecision => some (1 / 2)
    | .minSurprise => some (1 / 2)
    | .minSupportedHorizon => some 2
    | .minEnterZ => some (7 / 20)

/-- `gateLabStore`. -/
structure Panel where
  risk : RiskDraft
  resonance : ResonanceDraft

def Panel.initial : Panel := ⟨riskDefaults, resonanceDefaults⟩

/-- The codec of the two sides: `JSON.stringify` of a draft, and what the hub decodes. -/
structure Codec where
  riskText : RiskDraft → String
  resonanceText : ResonanceDraft → String
  unmarshal : String → Option Members

/-- What is done in the gate lab. `Apply rez` hands its click to `applyResonance`, whose
members replace the draft and its type; it is posted where it can be cloned. -/
inductive PanelEvent
  | setRiskField (field : RiskField) (value : Option ℚ)
  | setResonanceField (field : ResonanceField) (value : Option ℚ)
  | toggleResonanceBypass
  | resetGateLab
  | applyRisk
  | applyRez (click : Option String)
  deriving DecidableEq

/-- The panel afterwards, and the command that is sent. -/
def Panel.step (codec : Codec) (panel : Panel) : PanelEvent → Panel × Option Command
  | .setRiskField field value =>
    match value with
    | some value => ({ panel with risk := Function.update panel.risk field value }, none)
    | none => (panel, none)
  | .setResonanceField field value =>
    ({ panel with resonance :=
        { panel.resonance with
          numbers := Function.update panel.resonance.numbers field value } }, none)
  | .toggleResonanceBypass =>
    let resonance := { panel.resonance with bypass := !panel.resonance.bypass }
    ({ panel with resonance }, some ⟨some "resonance", codec.resonanceText resonance⟩)
  | .resetGateLab => (.initial, none)
  | .applyRisk => (panel, some ⟨some "risk", codec.riskText panel.risk⟩)
  | .applyRez click => (panel, click.map fun payload => ⟨some "click", payload⟩)

/-! ## The page and the hub -/

/-- What was sent on a socket, in order. -/
def framesOf (i : ℕ) (log : List (ℕ × Frame)) : List Frame :=
  (log.filter (·.1 = i)).map (·.2)

/-- The page with its worker, and the hub with the frames it has read. -/
structure State where
  panel : Panel
  worker : Worker
  handled : List (ℕ × Frame)
  config : Config

inductive Event
  | panel (e : PanelEvent)
  | worker (e : SocketWorker.Event)
  /-- The hub reads the next frame of a socket. -/
  | read (i : ℕ)
  deriving DecidableEq

/-- The page has sent its route and connects. -/
def State.start (valid : String → Bool) (config : Config) (route url : String) : State where
  panel := .initial
  worker := (Worker.new.sendRoute route).connect valid url
  handled := []
  config := config

def step (codec : Codec) (valid : String → Bool) (state : State) : Event → State
  | .panel e =>
    match state.panel.step codec e with
    | (panel, none) => { state with panel }
    | (panel, some command) =>
      { state with panel, worker := SocketWorker.step valid state.worker (.command (some command)) }
  | .worker e => { state with worker := SocketWorker.step valid state.worker e }
  | .read i =>
    match (framesOf i state.worker.sent)[(framesOf i state.handled).length]? with
    | some frame =>
      { state with
        handled := state.handled ++ [(i, frame)]
        config := handleCommand codec.unmarshal state.config frame }
    | none => state

/-- The command is not one of the gate lab's. -/
def Plain (command : Command) : Prop :=
  command.type ≠ some "risk" ∧ command.type ≠ some "resonance"

instance (command : Command) : Decidable (Plain command) :=
  inferInstanceAs (Decidable (_ ∧ _))

/-- What the page does besides, once it has connected. -/
def Event.OfPage : Event → Prop
  | .worker (.connect _) => False
  | .worker .disconnect => False
  | .worker (.command (some command)) => Plain command
  | _ => True

instance : DecidablePred Event.OfPage := fun e =>
  match e with
  | .panel _ => isTrue trivial
  | .read _ => isTrue trivial
  | .worker (.connect _) => isFalse id
  | .worker .disconnect => isFalse id
  | .worker (.command (some command)) => inferInstanceAs (Decidable (Plain command))
  | .worker (.command none) => isTrue trivial
  | .worker (.focus _) => isTrue trivial
  | .worker (.route _) => isTrue trivial
  | .worker (.positionExit _) => isTrue trivial
  | .worker .timer => isTrue trivial
  | .worker (.opened _) => isTrue trivial
  | .worker (.closing _) => isTrue trivial
  | .worker (.closed _) => isTrue trivial
  | .worker (.error _ _) => isTrue trivial

/-! ## The settings as a record that is patched -/

/-- What a command may set. -/
inductive Setting
  | risk (field : RiskField)
  | resonance (field : ResonanceField)
  | bypass
  deriving DecidableEq

namespace Setting

def Carrier : Setting → Type
  | .risk .minTapeTrades => ℤ
  | .resonance .minSupportedHorizon => ℤ
  | .bypass => Bool
  | _ => ℚ

/-- The type of the commands that set it. -/
def kind : Setting → String
  | .risk _ => "risk"
  | _ => "resonance"

def key : Setting → String
  | .risk field => field.name
  | .resonance field => field.name
  | .bypass => "bypass"

def read (config : Config) : (k : Setting) → k.Carrier
  | .risk .minMoverVolumeUsd => config.risk.minMoverVolumeUSD
  | .risk .minMoverChangePct => config.risk.minMoverChangePct
  | .risk .maxEntrySpreadPct => config.risk.maxEntrySpreadPct
  | .risk .minTouchBidCash => config.risk.minTouchBidCash
  | .risk .minBackingRatio => config.risk.minBackingRatio
  | .risk .minTapeTrades => config.risk.minTapeTrades
  | .risk .maxEntryOpenDragPct => config.risk.maxEntryOpenDragPct
  | .resonance .minTaskRelativePrecision => config.learning.minTaskRelativePrecision
  | .resonance .minSurprise => config.learning.minSurprise
  | .resonance .minSupportedHorizon => config.learning.minSupportedHorizon
  | .resonance .minEnterZ => config.learning.minEnterZ
  | .bypass => config.learning.resonanceBypass

def floatOf : Value → Option ℚ
  | .float value => some value
  | .int value => some value
  | _ => none

def intOf : Value → Option ℤ
  | .float value => some (Strategy.truncInt (.finite value))
  | .int value => some value
  | _ => none

def boolOf : Value → Option Bool
  | .bool value => some value
  | .float value => some (value ≠ 0)
  | .nan => some true
  | _ => none

/-- What a value sets it to. -/
def parse : (k : Setting) → Value → Option k.Carrier
  | .risk .minTapeTrades => intOf
  | .resonance .minSupportedHorizon => intOf
  | .bypass => boolOf
  | .risk .minMoverVolumeUsd => floatOf
  | .risk .minMoverChangePct => floatOf
  | .risk .maxEntrySpreadPct => floatOf
  | .risk .minTouchBidCash => floatOf
  | .risk .minBackingRatio => floatOf
  | .risk .maxEntryOpenDragPct => floatOf
  | .resonance .minTaskRelativePrecision => floatOf
  | .resonance .minSurprise => floatOf
  | .resonance .minEnterZ => floatOf

end Setting

/-- The settings are written, and everything else is kept. -/
def Setting.write (config : Config) (settings : (k : Setting) → k.Carrier) : Config where
  risk := { config.risk with
    minMoverVolumeUSD := settings (.risk .minMoverVolumeUsd)
    minMoverChangePct := settings (.risk .minMoverChangePct)
    maxEntrySpreadPct := settings (.risk .maxEntrySpreadPct)
    minTouchBidCash := settings (.risk .minTouchBidCash)
    minBackingRatio := settings (.risk .minBackingRatio)
    maxEntryOpenDragPct := settings (.risk .maxEntryOpenDragPct)
    minTapeTrades := settings (.risk .minTapeTrades) }
  learning := { config.learning with
    minTaskRelativePrecision := settings (.resonance .minTaskRelativePrecision)
    minSurprise := settings (.resonance .minSurprise)
    minSupportedHorizon := settings (.resonance .minSupportedHorizon)
    minEnterZ := settings (.resonance .minEnterZ)
    resonanceBypass := settings .bypass }

/-- What a patch sets. -/
def sets (patch : Members) : Patch Setting.Carrier := fun k => (patch k.key).bind k.parse

/-- What a frame sets. -/
def writes (unmarshal : String → Option Members) (frame : Frame) : Patch Setting.Carrier := fun k =>
  match frame with
  | .command command =>
    if command.type = some k.kind then
      (unmarshal command.payload).bind fun patch => sets patch k
    else none
  | _ => none

section Refinement

variable {patch : Members} {key : String}

/-- A key that is missing or of another type leaves the float as it is. -/
theorem setFloat_eq (dst : ℚ) :
    setFloat patch key dst = ((patch key).bind Setting.floatOf).getD dst := by
  unfold setFloat
  rcases patch key with _ | _ | _ <;> rfl

theorem setInt_eq (dst : ℤ) :
    setInt patch key dst = ((patch key).bind Setting.intOf).getD dst := by
  unfold setInt
  rcases patch key with _ | _ | _ <;> rfl

theorem setBypass_eq (dst : Bool) :
    setBypass patch dst = ((patch "bypass").bind Setting.boolOf).getD dst := by
  unfold setBypass
  rcases patch "bypass" with _ | _ | _ <;> rfl

/-- The commands of the other type leave the risk settings alone. -/
theorem read_apply (config : Config) :
    Setting.read { config with risk := config.risk.apply patch } =
      patched (Setting.read config) fun k => if k.kind = "risk" then sets patch k else none := by
  funext k
  cases k with
  | risk field => cases field <;> first | exact setFloat_eq _ | exact setInt_eq _
  | resonance field => cases field <;> rfl
  | bypass => rfl

theorem read_applyResonance (config : Config) :
    Setting.read { config with learning := applyResonance config.learning patch } =
      patched (Setting.read config) fun k =>
        if k.kind = "resonance" then sets patch k else none := by
  funext k
  cases k with
  | risk field => cases field <;> rfl
  | resonance field => cases field <;> first | exact setFloat_eq _ | exact setInt_eq _
  | bypass => exact setBypass_eq _

/-- A command of another type sets nothing. -/
theorem writes_plain {unmarshal : String → Option Members} {command : Command}
    (h : Plain command) : writes unmarshal (.command command) = fun _ => none := by
  funext k
  have hkind : k.kind = "risk" ∨ k.kind = "resonance" := by
    cases k with
    | risk field => exact .inl rfl
    | resonance field => exact .inr rfl
    | bypass => exact .inr rfl
  refine if_neg fun htype => ?_
  rcases hkind with hkind | hkind
  · exact h.1 (htype.trans (congrArg some hkind))
  · exact h.2 (htype.trans (congrArg some hkind))

/-- The hub patches its settings by what a frame sets. -/
theorem read_handleCommand (unmarshal : String → Option Members) (config : Config)
    (frame : Frame) :
    Setting.read (handleCommand unmarshal config frame) =
      patched (Setting.read config) (writes unmarshal frame) := by
  have hnone : Setting.read config = patched (Setting.read config) fun _ => none := rfl
  cases frame with
  | command command =>
    unfold handleCommand
    dsimp only
    by_cases hrisk : command.type = some "risk"
    · have hwrites : writes unmarshal (.command command) = fun k =>
          if k.kind = "risk" then (unmarshal command.payload).bind fun patch => sets patch k
          else none := by
        funext k
        unfold writes
        simp only [hrisk, Option.some.injEq, eq_comm]
      rw [if_pos hrisk, hwrites]
      -- a payload that does not parse leaves the configuration
      cases unmarshal command.payload with
      | none => simpa only [Option.bind_none, ite_self] using hnone
      | some patch => exact read_apply config
    · rw [if_neg hrisk]
      by_cases hresonance : command.type = some "resonance"
      · have hwrites : writes unmarshal (.command command) = fun k =>
            if k.kind = "resonance" then
              (unmarshal command.payload).bind fun patch => sets patch k
            else none := by
          funext k
          unfold writes
          simp only [hresonance, Option.some.injEq, eq_comm]
        rw [if_pos hresonance, hwrites]
        cases unmarshal command.payload with
        | none => simpa only [Option.bind_none, ite_self] using hnone
        | some patch => exact read_applyResonance config
      · rw [if_neg hresonance, writes_plain ⟨hrisk, hresonance⟩]
        exact hnone
  | route route => exact hnone
  | focus symbol => exact hnone
  | positionExit symbol => exact hnone

/-- A command reaches nothing but the settings. -/
theorem write_handleCommand (unmarshal : String → Option Members) (config : Config)
    (frame : Frame) (settings : (k : Setting) → k.Carrier) :
    Setting.write (handleCommand unmarshal config frame) settings =
      Setting.write config settings := by
  cases frame with
  | command command =>
    unfold handleCommand
    dsimp only
    by_cases hrisk : command.type = some "risk"
    · rw [if_pos hrisk]
      cases unmarshal command.payload with
      | none => rfl
      | some patch => rfl
    · rw [if_neg hrisk]
      by_cases hresonance : command.type = some "resonance"
      · rw [if_pos hresonance]
        cases unmarshal command.payload with
        | none => rfl
        | some patch => rfl
      · rw [if_neg hresonance]
  | route route => rfl
  | focus symbol => rfl
  | positionExit symbol => rfl

/-- What was read is written back. -/
theorem write_read (config : Config) : Setting.write config (Setting.read config) = config := rfl

end Refinement

end Symm.Ui.Tuning
