import Symm.Strategy.Oracles
import Symm.Ui.GateLab

/-!
# The risk floors at the desk

From the gate lab to an entry: the page edits its drafts and sends them, the hub patches
the configuration, training paints the board of each symbol of a tick against the floors
in force, and the model enters on that board. All of these take their steps in any order,
so that a floor may change between the boards of one tick.

- `State`, `Event`, `step`: the gate lab with its hub, and the ticks of training and model;
- `Painted`: what a board of the tick says about the reading it was painted from;
- `floors_enforced`: an entry meets the floors its symbol was read against, unless the hub
  bypasses the gates, and only the button of the gate lab makes it do so.

A board is painted against the floors that the hub had then, and an entry is made on
that board, so what holds at the entry is stated with the floors of the board. The
message of the button that applies the resonance floors is a click event, so it sets no
floor.
-/

namespace Symm.Strategy.Floors

open Symm.Lib Symm.System Symm.Broker Symm.Ui Symm.Strategy.Oracles

/-- What the runs share: the page's codec and addresses, the number parser, the pair names,
the grid and the market. -/
structure Setup where
  codec : Tuning.Codec
  valid : String → Bool
  parse : String → Option ℚ
  name : String → String
  grid : Grid
  market : Market

/-- What training finds for a symbol of the tick. The board is none where the grid fails. -/
structure Observed where
  symbol : String
  board : Option (List Region)
  price : Price
  isOpen : Bool
  cut : Cut

structure State where
  lab : Tuning.State
  tickers : Tickers
  /-- `envelope.Paths`. -/
  paths : AList fun _ : String => Option Cut
  /-- `envelope.Regions`. -/
  regions : String → List (Option Region)
  /-- What the boards of the tick were painted from. -/
  read : String → Option Reading
  model : Model

inductive Event
  | lab (e : Tuning.Event)
  | refreshTicker (rows : List (String × TickerRow))
  | observe (o : Observed)
  | mark (env : TierType → Env) (symbol : String) (price : Option Decimal)
  | apply (report : (TierType → Env) × ExecutionData)
  /-- `Model.Step`, which ends the tick. -/
  | decide (resonance : String → Option (String → Option Floating)) (env : String → TierType → Env)

/-- The page connects to a hub with that configuration. -/
def State.start (setup : Setup) (config : Tuning.Config) (route url : String) (model : Model) :
    State where
  lab := .start setup.valid config route url
  tickers := fun _ => ⟨0, 0⟩
  paths := ∅
  regions := fun _ => []
  read := fun _ => none
  model := model

/-- What `Model.Step` is given. -/
def State.tick (setup : Setup) (s : State) (resonance : String → Option (String → Option Floating))
    (env : String → TierType → Env) : Tick where
  cfg := ⟨s.lab.config.risk.toRisk, s.lab.config.learning, setup.market⟩
  envelope := ⟨s.paths, resonance, s.regions⟩
  env := env

/-- The task of `Training.Step` for one symbol. -/
def State.observe (setup : Setup) (s : State) (o : Observed) : State :=
  if o.symbol = "" ∨ o.symbol = "aggregate" then s
  else match o.board with
    | none => s
    | some board =>
      match lightBroker setup.grid s.lab.config.risk s.tickers o.price o.symbol board with
      | .error _ => s
      | .ok painted =>
        { s with
          paths := s.paths.insert o.symbol (some o.cut)
          regions := Function.update s.regions o.symbol
            ((setup.grid.emit painted o.isOpen).map some)
          read := Function.update s.read o.symbol
            (some (reading s.lab.config.risk s.tickers o.price o.symbol)) }

def step (setup : Setup) (s : State) : Event → State
  | .lab e => { s with lab := Tuning.step setup.codec setup.valid s.lab e }
  | .refreshTicker rows =>
    { s with tickers := refreshTicker setup.parse setup.name s.tickers rows }
  | .observe o => s.observe setup o
  | .mark env symbol price => { s with model := s.model.next (.mark env symbol price) }
  | .apply report => { s with model := s.model.next (.apply report) }
  | .decide resonance env =>
    { s with
      model := (s.model.step (s.tick setup resonance env)).1
      paths := ∅
      regions := fun _ => []
      read := fun _ => none }

/-- The calls of `Desk.Enter` of an event. -/
def calls (setup : Setup) (s : State) : Event → List Call
  | .decide resonance env => Model.entered (s.tick setup resonance env) s.model
  | _ => []

/-- The hub bypasses the gates. -/
def State.bypassed (s : State) : Bool := s.lab.config.learning.resonanceBypass

/-- The grid hands out a board with its regions in place. -/
def Event.Laid : Event → Prop
  | .observe o => ∀ board ∈ o.board, Oracles.Laid board
  | _ => True

/-- Not the button of the gate lab, nor a page that does something else. -/
def Event.Quiet : Event → Prop
  | .lab e => e.OfPage ∧ e ≠ .panel .toggleResonanceBypass
  | _ => True

/-- A symbol with a path was read, and its board is tradable only where it passed. -/
def Painted (s : State) : Prop :=
  ∀ symbol cut, s.paths.lookup symbol = some (some cut) →
    ∃ r, s.read symbol = some r ∧ (tradable (s.regions symbol) false → r.Passes)

section Painted

variable {setup : Setup} {s : State}

/-- An observation paints its symbol by what it measures. -/
theorem painted_observe (hgrid : setup.grid.Lawful) (h : Painted s) {o : Observed}
    (hlaid : (Event.observe o).Laid) : Painted (s.observe setup o) := by
  unfold State.observe
  split
  · exact h
  split
  · exact h
  rename_i board hboard
  split
  · exact h
  rename_i painted hpainted
  intro symbol cut hlookup
  dsimp only at hlookup ⊢
  by_cases hsymbol : symbol = o.symbol
  · subst hsymbol
    rw [Function.update_self, Function.update_self]
    exact ⟨_, rfl, passes_of_tradable hgrid (hlaid board hboard) hpainted o.isOpen⟩
  · rw [AList.lookup_insert_ne hsymbol] at hlookup
    rw [Function.update_of_ne hsymbol, Function.update_of_ne hsymbol]
    exact h symbol cut hlookup

/-- Every event leaves each symbol painted by its last observation. -/
theorem painted_step (hgrid : setup.grid.Lawful) (h : Painted s) {e : Event} (hlaid : e.Laid) :
    Painted (step setup s e) := by
  cases e with
  | lab e => exact h
  | refreshTicker rows => exact h
  | observe o => exact painted_observe hgrid h hlaid
  | mark env symbol price => exact h
  | apply report => exact h
  | decide resonance env =>
    intro symbol cut hlookup
    cases hlookup

/-- A task that calls `Desk.Enter` has a tradable board. -/
theorem tradable_of_mem_task {tick : Tick} {symbol : String} {cut : Cut} {model : Model}
    {call : Call} (hbypass : tick.cfg.learning.resonanceBypass = false)
    (h : call ∈ Model.callsSince model (model.task tick symbol cut).1) :
    call.symbol = symbol ∧ tradable (tick.envelope.regions symbol) false := by
  obtain ⟨made, hmade, hasks, htiers⟩ := Model.calls_task hbypass symbol cut model
  rw [Model.callsSince_of_append hmade] at h
  obtain ⟨-, -, -, htradable, -⟩ := Model.of_asksEntry (hasks.mpr (List.ne_nil_of_mem h))
  exact ⟨(htiers call h).1, htradable⟩

/-- Without the bypass an entry meets the floors. -/
theorem passes_of_mem_calls (h : Painted s) (hbypass : s.bypassed = false) {e : Event}
    {call : Call} (hcall : call ∈ calls setup s e) :
    ∃ r, s.read call.symbol = some r ∧ r.Passes := by
  cases e with
  | decide resonance env =>
    obtain ⟨front, symbol, cut, back, hworks, hmem⟩ := (Model.mem_entered_iff hbypass).mp hcall
    have hlookup : (s.tick setup resonance env).envelope.paths.lookup symbol = some (some cut) :=
      Model.lookup_of_mem_works (hworks ▸ List.mem_append_right front List.mem_cons_self)
    obtain ⟨hsymbol, htradable⟩ := tradable_of_mem_task hbypass hmem
    obtain ⟨r, hread, hpasses⟩ := h symbol cut hlookup
    exact ⟨r, hsymbol ▸ hread, hpasses htradable⟩
  | lab e => exact absurd hcall List.not_mem_nil
  | refreshTicker rows => exact absurd hcall List.not_mem_nil
  | observe o => exact absurd hcall List.not_mem_nil
  | mark env symbol price => exact absurd hcall List.not_mem_nil
  | apply report => exact absurd hcall List.not_mem_nil

end Painted

/-- No command that sets the bypass was kept, so none was read. -/
structure Untouched (setup : Setup) (config : Tuning.Config) (s : State) : Prop where
  kept : Tuning.Kept setup.codec config s.lab
  unset : Tuning.lastKept setup.codec.unmarshal .bypass s.lab.worker = none

section Untouched

variable {setup : Setup} {config : Tuning.Config} {s : State}

theorem Untouched.bypassed (h : Untouched setup config s) :
    s.bypassed = config.learning.resonanceBypass :=
  h.kept.unset h.unset

/-- Events of the lab alone reach the lab. -/
theorem lab_step (s : State) {e : Event} (he : ∀ e', e ≠ .lab e') :
    (step setup s e).lab = s.lab := by
  cases e with
  | lab e => exact absurd rfl (he e)
  | refreshTicker rows => rfl
  | observe o =>
    show (s.observe setup o).lab = s.lab
    unfold State.observe
    split
    · rfl
    split
    · rfl
    split
    · rfl
    · rfl
  | mark env symbol price => rfl
  | apply report => rfl
  | decide resonance env => rfl

/-- No quiet event touches the bypass. -/
theorem untouched_step (h : Untouched setup config s) {e : Event} (he : e.Quiet) :
    Untouched setup config (step setup s e) := by
  by_cases hlab : ∃ e', e = .lab e'
  · obtain ⟨e, rfl⟩ := hlab
    obtain ⟨hpage, htoggle⟩ := he
    refine ⟨Tuning.kept_step h.kept hpage, ?_⟩
    show Tuning.lastKept setup.codec.unmarshal .bypass
      (Tuning.step setup.codec setup.valid s.lab e).worker = none
    rw [Tuning.lastKept_step hpage, Tuning.commandOf_bypass setup.codec s.lab.panel hpage htoggle,
      h.unset]
    rfl
  · have hsame : (step setup s e).lab = s.lab := lab_step s fun e' heq => hlab ⟨e', heq⟩
    constructor
    · rw [hsame]
      exact h.kept
    · rw [hsame]
      exact h.unset

theorem untouched_start (config : Tuning.Config) (route url : String) (model : Model) :
    Untouched setup config (.start setup config route url model) := by
  have hnone : ∀ e ∈ ([] : List Tuning.Event), e.OfPage := nofun
  exact ⟨Tuning.kept_run setup.codec setup.valid config route url hnone,
    Tuning.lastKept_start route url .bypass⟩

end Untouched

/-- **The floors are enforced at the desk.** In every run, an entry of a tick at which the
hub does not bypass the gates meets the floors its symbol was read against; and the hub
bypasses the gates as it did at first until the button of the gate lab is pressed. -/
theorem floors_enforced (setup : Setup) (hgrid : setup.grid.Lawful) (config : Tuning.Config)
    (route url : String) (model : Model) (events : List Event) (hlaid : ∀ e ∈ events, e.Laid) :
    Along (step setup) (fun s e => s.bypassed = false → ∀ call ∈ calls setup s e,
        ∃ r, s.read call.symbol = some r ∧ r.Passes)
      (.start setup config route url model) events ∧
    ((∀ e ∈ events, e.Quiet) → Everywhere (step setup)
      (fun s => s.bypassed = config.learning.resonanceBypass)
      (.start setup config route url model) events) := by
  constructor
  · have hstart : Painted (.start setup config route url model) := by
      intro symbol cut hlookup
      cases hlookup
    have hstep : ∀ (s : State) (e : Event), Painted s → e.Laid → Painted (step setup s e) :=
      fun s e h he => painted_step hgrid h he
    exact along_of_inv hstep
      (fun s e h _ hbypass call hcall => passes_of_mem_calls h hbypass hcall) hstart
      (along_of_forall hlaid _)
  · intro hquiet
    have hstep : ∀ (s : State) (e : Event), Untouched setup config s → e.Quiet →
        Untouched setup config (step setup s e) := fun s e h he => untouched_step h he
    exact everywhere_of_inv hstep (fun s h => h.bypassed)
      (untouched_start config route url model) (along_of_forall hquiet _)

section Sample

/-- A grid that emits what is lit. -/
def sampleGrid : Grid where
  shine region := { region with brightness := 1 }
  emit regions _ := regions.filter fun region => 0 < region.brightness

/-- The grid of the sample lights what it shines. -/
theorem lawful_sampleGrid : sampleGrid.Lawful where
  lit _ := one_pos
  key _ := rfl
  brighter _ _ _ veto _ _ hveto _ hlit _ :=
    ⟨veto, List.mem_filter.mpr ⟨List.mem_of_getElem? hveto, decide_eq_true hlit⟩, rfl, hlit⟩

def sampleSetup : Setup where
  codec := Tuning.sampleCodec
  valid _ := true
  parse
    | "1" => some 1
    | "100" => some 100
    | "102" => some 102
    | "200000" => some 200000
    | _ => none
  name pair := if pair = "ABUSD" then "A/B" else ""
  grid := sampleGrid
  market := Cfg.defaults.market

/-- A dark board. -/
def darkBoard : List Region := (List.range regionCount).map fun i => ⟨i, 0⟩

theorem laid_darkBoard : Oracles.Laid darkBoard where
  length := rfl
  key i region h := by
    obtain ⟨hlt, rfl⟩ := List.getElem?_eq_some_iff.mp h
    simp only [darkBoard, List.getElem_map, List.getElem_range]

/-- A liquid symbol on the move. -/
def sampleEvents : List Event :=
  [.refreshTicker [("ABUSD", ⟨["1", "200000"], ["1", "1"], ["102"], "100"⟩)],
    .observe ⟨"A/B", some darkBoard, (Desk.sampleEnv "x" 9 99).price, false, ⟨"a/b", 2, .finite 1⟩⟩,
    .decide (fun _ => some (bypassReading Cfg.defaults.learning))
      fun _ _ => Desk.sampleEnv "x" 9 99]

def sampleStart : State :=
  .start sampleSetup Tuning.sampleConfig "/" "ws://hub" (.new Desk.sample Model.enteringTree)

end Sample

/-- Its paper entry meets the floors. -/
theorem floors_enforced_entering :
    ∃ r, (runFrom (step sampleSetup) sampleStart (sampleEvents.take 2)).read "A/B" = some r ∧
      r.Passes := by
  have hlaid : ∀ e ∈ sampleEvents, e.Laid := by
    intro e he
    rcases List.mem_cons.mp he with rfl | he
    · trivial
    rcases List.mem_cons.mp he with rfl | he
    · rintro _ ⟨⟩
      exact laid_darkBoard
    · obtain rfl := List.mem_singleton.mp he
      trivial
  have h := (floors_enforced sampleSetup lawful_sampleGrid Tuning.sampleConfig "/" "ws://hub"
    (.new Desk.sample Model.enteringTree) sampleEvents hlaid).1
  exact h.2.2.1 (by decide +kernel) ⟨"A/B", "a/b", .paper, true⟩ (by decide +kernel)

end Symm.Strategy.Floors
