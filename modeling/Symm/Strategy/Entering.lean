import Symm.Strategy.ModelSpec
import Symm.Strategy.TreeSpec

/-!
# The gates of an entry (`strategy/model.go`)

The model logs its calls of `Desk.Enter`, and a step only adds to the log. Settling
adds nothing; a task adds something exactly where it comes to the tiers
(`asksEntry`), and then all that the branches before it asked for holds of the state
the task began in.

The branches ask `x < min` of float64s, which is not the same as `min ≤ x`: a reading
that is no number passes. So an entry is gated as it is meant to be exactly if no task
that comes to the tiers read such a number.

- `entered`: the calls a step makes;
- `Gated`: what is meant to stand behind a call;
- `Numbers`: the gate of a reading compared numbers;
- `step_gated_iff`: every call is gated exactly if the readings of the tasks that come
  to the tiers are numbers.

The log is part of the state of the model, so nothing here repeats the branches of a
task: `calls_task` follows them through the code and says when the log grows, and by
what.
-/

namespace Symm.Strategy

open Symm.System Symm.Lib Symm.Broker

namespace Model

/-! ## The log of calls -/

/-- The calls logged since an earlier state. -/
def callsSince (model model' : Model) : List Call := model'.calls.drop model.calls.length

/-- The calls of `Desk.Enter` that a step makes. -/
def entered (tick : Tick) (model : Model) : List Call := callsSince model (model.step tick).1

/-- What was appended to the log is what was called since. -/
theorem callsSince_of_append {model model' : Model} {made : List Call}
    (h : model'.calls = model.calls ++ made) : callsSince model model' = made := by
  unfold callsSince
  rw [h, List.drop_left]

theorem calls_modify (model : Model) (ref : TierType × LotId) (change : Position → Position) :
    (model.modify ref change).calls = model.calls := by
  unfold modify
  split <;> rfl

/-- Holding a lot calls nothing. -/
theorem calls_hold (path : String) (model : Model) (ref : TierType × LotId) :
    (model.hold path ref).calls = model.calls := by
  unfold hold
  split
  · rfl
  · split
    · rfl
    · exact calls_modify _ _ _

/-- Settling a lot calls nothing. -/
theorem calls_exit (learn : Learning) (path : String) (model : Model) (ref : TierType × LotId) :
    (model.exit learn path ref).calls = model.calls := by
  unfold exit
  split
  · rfl
  · dsimp only
    split
    · rfl
    · exact calls_modify _ _ _

theorem calls_foldl {f : Model → TierType × LotId → Model}
    (hf : ∀ model ref, (f model ref).calls = model.calls) (refs : List (TierType × LotId))
    (model : Model) : (refs.foldl f model).calls = model.calls := by
  induction refs generalizing model with
  | nil => rfl
  | cons ref rest ih => rw [List.foldl_cons, ih, hf]

theorem calls_settle (learn : Learning) (envelope : Envelope) (acc : Model × List String)
    (ref : TierType × LotId) : (settle learn envelope acc ref).1.calls = acc.1.calls := by
  unfold settle
  dsimp only
  split
  · rfl
  · split
    · rfl
    · split
      · rfl
      · split
        · rfl
        · exact calls_exit learn _ acc.1 ref

theorem calls_foldl_settle (learn : Learning) (envelope : Envelope)
    (refs : List (TierType × LotId)) (acc : Model × List String) :
    (refs.foldl (settle learn envelope) acc).1.calls = acc.1.calls := by
  induction refs generalizing acc with
  | nil => rfl
  | cons ref rest ih => rw [List.foldl_cons, ih, calls_settle]

theorem calls_flushSettled (learn : Learning) (envelope : Envelope) (model : Model) :
    (model.flushSettled learn envelope).calls = model.calls := by
  simp only [flushSettled, List.foldl_cons, List.foldl_nil, settleTier, calls_foldl_settle]

theorem perform_flush (tick : Tick) (model : Model) : (model.perform tick .flush).1 =
    model.flushSettled tick.cfg.learning tick.envelope := by
  simp only [perform]

/-! ## Where a call comes from -/

/-- An attempt calls `Desk.Enter` once, whether or not the desk takes the lot. -/
theorem calls_tryEnter (tick : Tick) (symbol path : String) (tt : TierType) (pathFound : Bool)
    (reason : String) (model : Model) :
    (model.tryEnter tick symbol path tt pathFound reason).1.calls =
      model.calls ++ [⟨symbol, path, tt, pathFound⟩] := by
  unfold tryEnter
  dsimp only
  split <;> rfl

/-- A sample goes to the virtual tier; paper and real are entered on a found path
whose resistance does not compare as above the floor. -/
theorem calls_enterTiers (tick : Tick) (symbol path : String) (resistance : Floating)
    (pathFound : Bool) (model : Model) :
    ∃ made, made ≠ [] ∧
      (model.enterTiers tick symbol path resistance pathFound).1.calls = model.calls ++ made ∧
      ∀ call ∈ made, call.symbol = symbol ∧ (call.tier = .virtual ∨ (pathFound = true ∧
        Floating.lt (.finite tick.cfg.learning.paperEligibleResistance) resistance = false)) := by
  unfold enterTiers
  dsimp only
  split
  · refine ⟨_, List.cons_ne_nil _ [], calls_tryEnter _ _ _ _ _ _ _, fun call hcall => ?_⟩
    rw [List.mem_singleton.mp hcall]
    exact ⟨rfl, .inl rfl⟩
  -- paper is entered first, and real only if it was
  · rename_i hpaper
    simp only [not_or, Bool.not_eq_true, Bool.not_eq_false] at hpaper
    have hfirst := calls_tryEnter tick symbol path .paper true "paper enter" model
    rcases htry : model.tryEnter tick symbol path .paper true "paper enter" with
      ⟨model', _ | paper⟩
    · rw [htry] at hfirst
      refine ⟨_, List.cons_ne_nil _ [], hfirst, fun call hcall => ?_⟩
      rw [List.mem_singleton.mp hcall]
      exact ⟨rfl, .inr hpaper.2⟩
    · rw [htry] at hfirst
      have hsecond := calls_tryEnter tick symbol path .real true "real enter" model'
      rw [hfirst, List.append_assoc] at hsecond
      refine ⟨_, List.cons_ne_nil _ _, hsecond, fun call hcall => ?_⟩
      rcases List.mem_cons.mp hcall with rfl | hcall
      · exact ⟨rfl, .inr hpaper.2⟩
      · rw [List.mem_singleton.mp hcall]
        exact ⟨rfl, .inr hpaper.2⟩

/-- Only an enter leaf calls `Desk.Enter` when it is applied. -/
theorem calls_applyAction {action : Action} (haction : action ≠ .enter) (tick : Tick)
    (symbol path : String) (resistance : Floating) (bull : Bool)
    (lots : List (TierType × LotId)) (model : Model) :
    (model.applyAction tick symbol path action resistance bull lots).1.calls = model.calls := by
  unfold applyAction
  dsimp only
  cases action with
  | none => rfl
  | enter => exact absurd rfl haction
  | hold =>
    dsimp only
    split
    · exact calls_foldl (calls_hold path) lots model
    · rfl
  | exit =>
    dsimp only
    split
    · exact calls_foldl (calls_exit _ path) lots model
    · rfl

section Conclude

variable {tick : Tick} (hbypass : tick.cfg.learning.resonanceBypass = false)
include hbypass

/-- The returns of a task that stand before the tiers: it comes to them with an enter
leaf, or with none and a path of its own, or it logs nothing. -/
theorem conclude_cases (symbol : String) (cut : Cut) (bull : Bool) (action : Action)
    (resistance : Floating) (lots : List (TierType × LotId)) (model : Model) :
    ((tradable (tick.envelope.regions symbol) false ∧ bull ∧ (action = .enter ∨
        (action = .none ∧ 0 < cut.len ∧ tick.cfg.learning.minPathLength ≤ cut.len ∧
          (lots = [] ∨ cut.text = "")))) ∧
      (model.conclude tick symbol cut bull action resistance lots).1 =
        (model.enterTiers tick symbol cut.text resistance (action = .enter)).1) ∨
    (¬ (tradable (tick.envelope.regions symbol) false ∧ bull ∧ (action = .enter ∨
        (action = .none ∧ 0 < cut.len ∧ tick.cfg.learning.minPathLength ≤ cut.len ∧
          (lots = [] ∨ cut.text = "")))) ∧
      (model.conclude tick symbol cut bull action resistance lots).1.calls = model.calls) := by
  have hopen : ¬ tick.cfg.learning.resonanceBypass = true := by rw [hbypass]; decide
  unfold conclude
  dsimp only
  split
  · -- a veto is lit
    rename_i horacle
    exact .inr ⟨fun h => horacle.2.2 h.1, rfl⟩
  · rename_i horacle
    split
    · rename_i haction
      by_cases henter : action = .enter
      · subst henter
        have htradable : tradable (tick.envelope.regions symbol) false := by
          by_contra hnot
          exact horacle ⟨by simp, hopen, hnot⟩
        unfold applyAction
        dsimp only
        cases bull with
        | false => exact .inr ⟨fun h => Bool.false_ne_true h.2.1, rfl⟩
        | true => exact .inl ⟨⟨htradable, rfl, .inl rfl⟩, rfl⟩
      · refine .inr ⟨fun h => ?_, calls_applyAction henter tick symbol _ _ _ _ model⟩
        exact h.2.2.elim henter fun hnone => haction hnone.1
    · rename_i haction
      rw [not_not] at haction
      subst haction
      -- no leaf: held lots, a bearish story and a short cut each return before the tiers
      split
      · rename_i hheld
        refine .inr ⟨fun h => ?_, calls_foldl (calls_hold cut.text) lots model⟩
        obtain ⟨-, -, -, hlots⟩ := h.2.2.resolve_left nofun
        exact hlots.elim hheld.1 hheld.2.1
      · rename_i hheld
        split
        · rename_i hbear
          exact .inr ⟨fun h => hbear.2.2 h.2.1, rfl⟩
        · split
          · rename_i hshort
            refine .inr ⟨fun h => ?_, rfl⟩
            obtain ⟨-, -, hlong, -⟩ := h.2.2.resolve_left nofun
            exact absurd hlong (not_le.mpr hshort.2)
          · rename_i hshort
            have hlong : tick.cfg.learning.minPathLength ≤ cut.len := by
              by_contra hnot
              exact hshort ⟨hopen, not_le.mp hnot⟩
            split
            · rename_i hwant
              obtain ⟨-, hbull, hlen⟩ := (of_decide_eq_true hwant).resolve_left nofun
              have htradable : tradable (tick.envelope.regions symbol) false := by
                by_contra hnot
                exact horacle ⟨hwant, hopen, hnot⟩
              refine .inl ⟨⟨htradable, hbull, .inr ⟨rfl, hlen, hlong, ?_⟩⟩, rfl⟩
              by_contra hnot
              rw [not_or] at hnot
              exact hheld ⟨hnot.1, hnot.2, hlong⟩
            · rename_i hwant
              refine .inr ⟨fun h => hwant ?_, rfl⟩
              obtain ⟨-, hlen, -, -⟩ := h.2.2.resolve_left nofun
              exact decide_eq_true (.inr ⟨rfl, h.2.1, hlen⟩)

/-- A task comes to the tiers exactly if it asks for an entry. -/
theorem task_cases (symbol : String) (cut : Cut) (model : Model) :
    (model.asksEntry tick symbol cut = true ∧ (model.task tick symbol cut).1 =
      (enterTiers tick symbol cut.text (model.tree.predict tick.cfg.learning cut).2.2.1
        ((model.tree.predict tick.cfg.learning cut).2.1 = .enter)
        { model with tree := (model.tree.predict tick.cfg.learning cut).1 }).1) ∨
    (model.asksEntry tick symbol cut = false ∧
      (model.task tick symbol cut).1.calls = model.calls) := by
  unfold asksEntry task
  dsimp only
  generalize model.tree.predict tick.cfg.learning cut = answer
  obtain ⟨tree, action, resistance, disagreed⟩ := answer
  dsimp only
  cases story tick.cfg.learning (tick.envelope.resonance symbol) symbol cut.text with
  | error decision => exact .inr ⟨rfl, rfl⟩
  | ok nets =>
    dsimp only
    split
    · rename_i hdisagreed
      exact .inr ⟨decide_eq_false fun h => h.1 hdisagreed, rfl⟩
    · rename_i hagreed
      rcases conclude_cases hbypass symbol cut (bullish tick.cfg.learning nets) action
        resistance (model.openLots symbol) { model with tree := tree } with
        ⟨hasks, heq⟩ | ⟨hnot, hcalls⟩
      · exact .inl ⟨decide_eq_true ⟨hagreed, hasks⟩, heq⟩
      · exact .inr ⟨decide_eq_false fun h => hnot h.2, hcalls⟩

/-- The calls of a task: some of its symbol if it asks for an entry, and none if not. -/
theorem calls_task (symbol : String) (cut : Cut) (model : Model) :
    ∃ made, (model.task tick symbol cut).1.calls = model.calls ++ made ∧
      (model.asksEntry tick symbol cut = true ↔ made ≠ []) ∧
      ∀ call ∈ made, call.symbol = symbol ∧ (call.tier = .virtual ∨
        ((model.tree.predict tick.cfg.learning cut).2.1 = .enter ∧
          Floating.lt (.finite tick.cfg.learning.paperEligibleResistance)
            (model.tree.predict tick.cfg.learning cut).2.2.1 = false)) := by
  have hcases := task_cases hbypass symbol cut model
  generalize model.tree.predict tick.cfg.learning cut = answer at hcases ⊢
  obtain ⟨tree, action, resistance, disagreed⟩ := answer
  rcases hcases with ⟨hasks, heq⟩ | ⟨hnot, hcalls⟩
  · obtain ⟨made, hmade, hcalls, htiers⟩ := calls_enterTiers tick symbol cut.text resistance
      (action = .enter) { model with tree := tree }
    refine ⟨made, by rw [heq, hcalls], iff_of_true hasks hmade, fun call hcall => ?_⟩
    obtain ⟨hsymbol, htier⟩ := htiers call hcall
    exact ⟨hsymbol, htier.imp_right fun h => ⟨of_decide_eq_true h.1, h.2⟩⟩
  · refine ⟨[], by rw [hcalls, List.append_nil], ?_, nofun⟩
    rw [hnot]
    exact iff_of_false Bool.false_ne_true fun h => h rfl

/-- A piece of work only adds to the log. -/
theorem calls_perform (model : Model) (work : Work) :
    ∃ made, (model.perform tick work).1.calls = model.calls ++ made := by
  cases work with
  | flush => exact ⟨[], by rw [perform_flush, calls_flushSettled, List.append_nil]⟩
  | task symbol cut =>
    obtain ⟨made, hmade, -⟩ := calls_task hbypass symbol cut model
    exact ⟨made, hmade⟩

/-- The calls of a run are those of its parts, each from the state it begins in. -/
theorem calls_runWorks (works : List Work) (model : Model) :
    ∃ made, (runWorks tick works model).1.calls = model.calls ++ made ∧
      ∀ call, call ∈ made ↔ ∃ front work back, works = front ++ work :: back ∧
        call ∈ callsSince (runWorks tick front model).1
          ((runWorks tick front model).1.perform tick work).1 := by
  induction works generalizing model with
  | nil => exact ⟨[], (List.append_nil _).symm, fun call => by simp⟩
  | cons work rest ih =>
    obtain ⟨made, hmade⟩ := calls_perform hbypass model work
    obtain ⟨more, hmore, hmem⟩ := ih (model.perform tick work).1
    have hruns : (runWorks tick (work :: rest) model).1 =
        (runWorks tick rest (model.perform tick work).1).1 := rfl
    refine ⟨made ++ more, by rw [hruns, hmore, hmade, List.append_assoc], fun call => ?_⟩
    rw [List.mem_append, hmem]
    constructor
    · rintro (hcall | ⟨front, work', back, rfl, hcall⟩)
      · exact ⟨[], work, rest, rfl, (callsSince_of_append hmade).symm ▸ hcall⟩
      · exact ⟨work :: front, work', back, rfl, hcall⟩
    · rintro ⟨front, work', back, hsplit, hcall⟩
      cases front with
      | nil =>
        obtain ⟨rfl, -⟩ := List.cons.inj hsplit
        exact .inl ((callsSince_of_append hmade) ▸ hcall)
      | cons first front =>
        obtain ⟨rfl, rfl⟩ := List.cons.inj hsplit
        exact .inr ⟨front, work', back, rfl, hcall⟩

/-- Every call of a step is made by the task of a cut. -/
theorem mem_entered_iff {model : Model} {call : Call} :
    call ∈ entered tick model ↔ ∃ front symbol cut back,
      works tick = front ++ .task symbol cut :: back ∧
      call ∈ callsSince (runWorks tick front model).1
        ((runWorks tick front model).1.task tick symbol cut).1 := by
  obtain ⟨made, hmade, hmem⟩ := calls_runWorks hbypass (works tick) model
  have hentered : entered tick model = made := callsSince_of_append hmade
  rw [hentered, hmem]
  constructor
  · rintro ⟨front, work, back, hworks, hcall⟩
    cases work with
    | flush =>
      have hnone : callsSince (runWorks tick front model).1
          ((runWorks tick front model).1.perform tick .flush).1 = [] :=
        callsSince_of_append (by rw [perform_flush, calls_flushSettled, List.append_nil])
      rw [hnone] at hcall
      exact absurd hcall List.not_mem_nil
    | task symbol cut => exact ⟨front, symbol, cut, back, hworks, hcall⟩
  · rintro ⟨front, symbol, cut, back, hworks, hcall⟩
    exact ⟨front, .task symbol cut, back, hworks, hcall⟩

end Conclude

/-! ## What the branches before the tiers ask for -/

/-- The readings of a symbol that are meant to pass the resonance gate. -/
structure Resonant (learn : Learning) (rez : String → Option Floating) : Prop where
  calibrated : Floating.le (.finite 1) (orZero (rez "calibrated")) = true
  horizon : learn.minSupportedHorizon ≤ truncInt (orZero (rez "supported_horizon"))
  precision : ∃ precision, rez "task_relative_precision" = some precision ∧
    Floating.le (.finite learn.minTaskRelativePrecision) precision = true
  surprise : Floating.le (.finite learn.minSurprise) (orZero (rez "surprise")) = true

/-- What the gate compares with its minima are numbers. -/
structure Numbers (rez : String → Option Floating) : Prop where
  calibrated : rez "calibrated" ≠ some .nan
  precision : rez "task_relative_precision" ≠ some .nan
  surprise : rez "surprise" ≠ some .nan

/-- A reading that is missing counts as zero, which is a number. -/
theorem orZero_ne_nan {value : Option Floating} : orZero value ≠ .nan ↔ value ≠ some .nan := by
  cases value with
  | none => exact iff_of_true nofun nofun
  | some number => exact (Option.some_inj.not).symm

theorem finite_ne_nan (q : ℚ) : Floating.finite q ≠ .nan := nofun

/-- A reading that passes the gate and is made of numbers meets the minima. -/
theorem resonant_of_resonates {learn : Learning} {rez : String → Option Floating}
    (h : resonates learn rez = true) (hnumbers : Numbers rez) : Resonant learn rez := by
  have hgate := of_decide_eq_true h
  simp only [not_or, Bool.not_eq_true, not_lt] at hgate
  obtain ⟨hcal, hhor, hprec, hsur⟩ := hgate
  refine ⟨?_, hhor, ?_, ?_⟩
  · exact (Floating.lt_eq_false_iff (orZero_ne_nan.mpr hnumbers.calibrated)
      (finite_ne_nan 1)).mp hcal
  · cases hp : rez "task_relative_precision" with
    | none =>
      rw [hp] at hprec
      cases hprec
    | some precision =>
      rw [hp] at hprec
      have hnumber : precision ≠ .nan := fun hnan => hnumbers.precision (by rw [hp, hnan])
      exact ⟨precision, rfl, (Floating.lt_eq_false_iff hnumber (finite_ne_nan _)).mp hprec⟩
  · exact (Floating.lt_eq_false_iff (orZero_ne_nan.mpr hnumbers.surprise)
      (finite_ne_nan _)).mp hsur

/-- Only numbers meet a minimum. -/
theorem Resonant.numbers {learn : Learning} {rez : String → Option Floating}
    (h : Resonant learn rez) : Numbers rez where
  calibrated := orZero_ne_nan.mp (Floating.ne_nan_of_le h.calibrated).2
  precision := by
    obtain ⟨precision, hp, hle⟩ := h.precision
    rw [hp]
    exact fun hnan => (Floating.ne_nan_of_le hle).2 (Option.some.inj hnan)
  surprise := orZero_ne_nan.mp (Floating.ne_nan_of_le h.surprise).2

/-- With the bypass off, a story that is past comes from a reading that resonates. -/
theorem story_ok {learn : Learning} {rez : Option (String → Option Floating)}
    {symbol path : String} {nets : StoryNets} (hbypass : learn.resonanceBypass = false)
    (h : story learn rez symbol path = .ok nets) :
    ∃ reading, rez = some reading ∧ resonates learn reading = true ∧
      forwardStoryNets (forwardCurve reading) = some nets := by
  cases rez with
  | none =>
    unfold story at h
    rw [hbypass] at h
    cases h
  | some reading =>
    change (if ¬ learn.resonanceBypass ∧ ¬ resonates learn reading then _ else _ :
      Except Decision StoryNets) = _ at h
    rw [hbypass] at h
    split at h
    · cases h
    · rename_i hgate
      have hres : resonates learn reading = true := by
        by_contra hnot
        exact hgate ⟨Bool.false_ne_true, hnot⟩
      refine ⟨reading, rfl, hres, ?_⟩
      split at h
      · rename_i nets' hnets
        rw [hnets, Except.ok.inj h]
      · cases h

/-- With the bypass off, bullish nets are those the four comparisons let through. -/
theorem bullish_iff {learn : Learning} {nets : StoryNets} (hbypass : learn.resonanceBypass = false) :
    bullish learn nets = true ↔ Floating.le (.finite learn.minEnterZ) nets.enterNet = true ∧
      Floating.le (.finite learn.minEnterZ) nets.holdNet = true ∧
      nets.exitNet.le nets.holdNet = true ∧ nets.risk.lt (.finite learn.minEnterZ) = true := by
  unfold bullish
  rw [decide_eq_true_iff, hbypass]
  exact or_iff_right Bool.false_ne_true

/-- A prediction that names an action looked its cut up. -/
theorem long_of_predict {learn : Learning} {tokens : Cut} {tree : Tree}
    (h : (tree.predict learn tokens).2.1 ≠ .none) : learn.minPathLength ≤ tokens.len := by
  by_contra hshort
  rw [Tree.predict_eq, if_pos (not_le.mp hshort)] at h
  exact h rfl

/-- Without open lots, every lot in the open caches of the symbol is closed. -/
theorem closed_of_openLots_nil {model : Model} {symbol : String}
    (h : model.openLots symbol = []) (tt : TierType) (id : LotId)
    (hid : id ∈ (model.desk.tiers tt).positions.openOf symbol) (p : Position)
    (hp : model.desk.lot tt id = some p) : p.closedAt.isSome := by
  have hmem : (tt, id) ∈ model.desk.positionsOf symbol := by
    unfold Desk.positionsOf
    refine List.mem_flatMap.mpr ⟨tt, ?_, List.mem_map.mpr ⟨id, hid, rfl⟩⟩
    cases tt <;> decide
  unfold openLots at h
  have hno := List.filter_eq_nil_iff.mp h (tt, id) hmem
  rw [lot, hp, Option.any_some] at hno
  rw [← Option.not_isNone, Bool.not_eq_true', ← Bool.not_eq_true]
  exact hno

/-! ## No entry without every gate -/

/-- What is meant to stand behind a call of `Desk.Enter` made by the task of a cut: the
gates of every entry, those of the paper and real tiers, and those of a sample. -/
structure Gated (tick : Tick) (cut : Cut) (model : Model) (call : Call) : Prop where
  story : ∃ rez nets, tick.envelope.resonance call.symbol = some rez ∧
    Resonant tick.cfg.learning rez ∧ forwardStoryNets (forwardCurve rez) = some nets ∧
    Floating.le (.finite tick.cfg.learning.minEnterZ) nets.enterNet = true ∧
    Floating.le (.finite tick.cfg.learning.minEnterZ) nets.holdNet = true ∧
    nets.exitNet.le nets.holdNet = true ∧
    nets.risk.lt (.finite tick.cfg.learning.minEnterZ) = true
  agreed : (model.tree.predict tick.cfg.learning cut).2.2.2 = false
  board : tradable (tick.envelope.regions call.symbol) false
  long : tick.cfg.learning.minPathLength ≤ cut.len
  eligible : call.tier ≠ .virtual →
    (model.tree.predict tick.cfg.learning cut).2.1 = .enter ∧
      (model.tree.predict tick.cfg.learning cut).2.2.1.le
        (.finite tick.cfg.learning.paperEligibleResistance) = true
  sample : (model.tree.predict tick.cfg.learning cut).2.1 ≠ .enter →
    call.tier = .virtual ∧ ∀ tt, ∀ id ∈ (model.desk.tiers tt).positions.openOf call.symbol,
      ∀ p, model.desk.lot tt id = some p → p.closedAt.isSome

/-- What a task that asks for an entry has come past. -/
theorem of_asksEntry {tick : Tick} {symbol : String} {cut : Cut} {model : Model}
    (h : model.asksEntry tick symbol cut = true) :
    ∃ nets, Strategy.story tick.cfg.learning (tick.envelope.resonance symbol) symbol cut.text =
        .ok nets ∧
      (model.tree.predict tick.cfg.learning cut).2.2.2 = false ∧
      tradable (tick.envelope.regions symbol) false = true ∧
      bullish tick.cfg.learning nets = true ∧
      ((model.tree.predict tick.cfg.learning cut).2.1 = .enter ∨
        ((model.tree.predict tick.cfg.learning cut).2.1 = .none ∧ 0 < cut.len ∧
          tick.cfg.learning.minPathLength ≤ cut.len ∧
          (model.openLots symbol = [] ∨ cut.text = ""))) := by
  unfold asksEntry at h
  cases hstory : Strategy.story tick.cfg.learning (tick.envelope.resonance symbol) symbol
      cut.text with
  | error decision =>
    rw [hstory] at h
    cases h
  | ok nets =>
    rw [hstory] at h
    obtain ⟨hagreed, htradable, hbull, hleaf⟩ := of_decide_eq_true h
    exact ⟨nets, rfl, Bool.eq_false_iff.mpr hagreed, htradable, hbull, hleaf⟩

/-- Where the task that asks reads numbers, each of its calls is gated. -/
theorem gated_of_mem_task {tick : Tick} {symbol : String} {cut : Cut} {model : Model}
    {call : Call} (hbypass : tick.cfg.learning.resonanceBypass = false)
    (htext : 0 < cut.len → cut.text ≠ "")
    (hnumbers : model.asksEntry tick symbol cut = true →
      ∀ rez, tick.envelope.resonance symbol = some rez → Numbers rez)
    (h : call ∈ callsSince model (model.task tick symbol cut).1) :
    call.symbol = symbol ∧ Gated tick cut model call := by
  obtain ⟨made, hmade, hasks, htiers⟩ := calls_task hbypass symbol cut model
  rw [callsSince_of_append hmade] at h
  -- a task that calls has asked for an entry, so every gate was passed
  have hask := hasks.mpr (List.ne_nil_of_mem h)
  obtain ⟨hsymbol, htier⟩ := htiers call h
  obtain ⟨nets, hstory, hagreed, htradable, hbull, hleaf⟩ := of_asksEntry hask
  obtain ⟨rez, hrez, hres, hnets⟩ := story_ok hbypass hstory
  have hresonant := resonant_of_resonates hres (hnumbers hask rez hrez)
  refine ⟨hsymbol, ?_, hagreed, ?_, ?_, ?_, ?_⟩
  · rw [hsymbol]
    exact ⟨rez, nets, hrez, hresonant, hnets, (bullish_iff hbypass).mp hbull⟩
  · rw [hsymbol]
    exact htradable
  · rcases hleaf with henter | ⟨-, -, hlong, -⟩
    · exact long_of_predict (by rw [henter]; decide)
    · exact hlong
  -- paper and real follow a leaf that was found, and its resistance
  · intro hne
    obtain ⟨henter, hfloor⟩ := htier.resolve_left hne
    exact ⟨henter, (Floating.lt_eq_false_iff (finite_ne_nan _)
      (Tree.predict_resistance_ne_nan _ _ _)).mp hfloor⟩
  -- without a leaf only a free symbol is probed, on the virtual tier
  · intro hnone
    obtain ⟨-, hlen, -, hlots⟩ := hleaf.resolve_left hnone
    have hopen : model.openLots symbol = [] := hlots.resolve_right (htext hlen)
    rw [hsymbol]
    exact ⟨htier.resolve_right fun hfound => hnone hfound.1, closed_of_openLots_nil hopen⟩

/-- A task of a step works on a cut of the envelope. -/
theorem lookup_of_mem_works {tick : Tick} {symbol : String} {cut : Cut}
    (h : Work.task symbol cut ∈ works tick) :
    tick.envelope.paths.lookup symbol = some (some cut) := by
  rcases List.mem_cons.mp h with h | h
  · cases h
  · obtain ⟨⟨s, c⟩, hentry, hwork⟩ := List.mem_filterMap.mp h
    cases c with
    | none => cases hwork
    | some c =>
      cases hwork
      exact AList.mem_lookup_iff.mpr hentry

/-- Every call of `Desk.Enter` in a step comes from the task of its symbol's cut, and the
gates hold in the state that task began in, exactly if every task that asks for an entry
reads numbers. -/
theorem step_gated_iff (tick : Tick) (model : Model)
    (hbypass : tick.cfg.learning.resonanceBypass = false)
    (htext : ∀ symbol cut, tick.envelope.paths.lookup symbol = some (some cut) →
      0 < cut.len → cut.text ≠ "") :
    (∀ call ∈ entered tick model, ∃ front cut back,
      works tick = front ++ .task call.symbol cut :: back ∧
      tick.envelope.paths.lookup call.symbol = some (some cut) ∧
      Gated tick cut (runWorks tick front model).1 call) ↔
    ∀ front symbol cut back, works tick = front ++ .task symbol cut :: back →
      (runWorks tick front model).1.asksEntry tick symbol cut = true →
      ∀ rez, tick.envelope.resonance symbol = some rez → Numbers rez := by
  constructor
  · -- a task that asks makes a call, and what is gated reads numbers
    intro h front symbol cut back hworks hask rez hrez
    obtain ⟨made, hmade, hasks, htiers⟩ :=
      calls_task hbypass symbol cut (runWorks tick front model).1
    obtain ⟨call, hcall⟩ := List.exists_mem_of_ne_nil made (hasks.mp hask)
    have hentered : call ∈ entered tick model := (mem_entered_iff hbypass).mpr
      ⟨front, symbol, cut, back, hworks, (callsSince_of_append hmade).symm ▸ hcall⟩
    obtain ⟨front', cut', back', -, -, hgated⟩ := h call hentered
    obtain ⟨rez', nets, hrez', hresonant, -⟩ := hgated.story
    rw [(htiers call hcall).1, hrez] at hrez'
    exact Option.some.inj hrez' ▸ hresonant.numbers
  · intro hnumbers call hcall
    obtain ⟨front, symbol, cut, back, hworks, hmem⟩ := (mem_entered_iff hbypass).mp hcall
    have hlookup : tick.envelope.paths.lookup symbol = some (some cut) :=
      lookup_of_mem_works (hworks ▸ List.mem_append_right front List.mem_cons_self)
    obtain ⟨rfl, hgated⟩ := gated_of_mem_task hbypass (htext symbol cut hlookup)
      (hnumbers front symbol cut back hworks) hmem
    exact ⟨front, cut, back, hworks, hlookup, hgated⟩

theorem nodupKeys_entering :
    ([⟨"A/B", some ⟨"a/b", 2, .finite 1⟩⟩] :
      List (Sigma fun _ : String => Option Cut)).NodupKeys :=
  List.nodup_singleton _

theorem ascending_entering : Ascending [("a/b", ⟨"enter", "a/b", 1 / 10⟩)] :=
  List.pairwise_singleton _ _

/-- A bullish symbol on a tradable board whose cut has an enter leaf. -/
def enteringTick (rez : String → Option Floating) : Tick where
  cfg := Cfg.defaults
  envelope := {
    paths := ⟨[⟨"A/B", some ⟨"a/b", 2, .finite 1⟩⟩], nodupKeys_entering⟩
    resonance := fun _ => some rez
    regions := fun _ => [some ⟨10, 1⟩] }
  env := fun _ _ => Desk.sampleEnv "x" 9 99

/-- The enter leaf of that cut, under the paper floor. -/
def enteringTree : Tree := ⟨[("a/b", ⟨"enter", "a/b", 1 / 10⟩)], ascending_entering⟩

/-- Its one cut has a text. -/
theorem text_entering (rez : String → Option Floating) (symbol : String) (cut : Cut)
    (h : (enteringTick rez).envelope.paths.lookup symbol = some (some cut)) :
    0 < cut.len → cut.text ≠ "" := by
  intro _ hempty
  obtain rfl | hne := eq_or_ne symbol "A/B"
  · cases h
    exact absurd hempty (by decide)
  · have hnone : (enteringTick rez).envelope.paths.lookup symbol = none :=
      AList.lookup_eq_none.mpr fun hmem => hne (List.mem_singleton.mp hmem)
    rw [hnone] at h
    cases h

/-- A reading of numbers. -/
def enteringReading : String → Option Floating := bypassReading Cfg.defaults.learning

/-- The same reading with a surprise that is no number. -/
def surpriseless (key : String) : Option Floating :=
  if key = "surprise" then some .nan else enteringReading key

/-- Under a reading of numbers, the paper entry of that symbol passes every gate. -/
theorem step_gated_entering :
    ⟨"A/B", "a/b", .paper, true⟩ ∈
      entered (enteringTick enteringReading) (new Desk.sample enteringTree) ∧
    ∀ call ∈ entered (enteringTick enteringReading) (new Desk.sample enteringTree),
      ∃ front cut back,
        works (enteringTick enteringReading) = front ++ .task call.symbol cut :: back ∧
        (enteringTick enteringReading).envelope.paths.lookup call.symbol = some (some cut) ∧
        Gated (enteringTick enteringReading) cut
          (runWorks (enteringTick enteringReading) front (new Desk.sample enteringTree)).1 call := by
  refine ⟨by decide +kernel, ?_⟩
  refine (step_gated_iff (enteringTick enteringReading) (new Desk.sample enteringTree) rfl
    (text_entering enteringReading)).mpr ?_
  rintro front symbol cut back - - rez ⟨⟩
  exact ⟨by decide, by decide, by decide⟩

/-- A surprise that is no number passes its test, and the symbol is entered. -/
theorem surpriseless_enters : ¬ ∀ (tick : Tick) (model : Model),
    tick.cfg.learning.resonanceBypass = false →
    (∀ symbol cut, tick.envelope.paths.lookup symbol = some (some cut) →
      0 < cut.len → cut.text ≠ "") →
    ∀ call ∈ entered tick model, ∃ front cut back,
      works tick = front ++ .task call.symbol cut :: back ∧
      tick.envelope.paths.lookup call.symbol = some (some cut) ∧
      Gated tick cut (runWorks tick front model).1 call := by
  intro h
  obtain ⟨front, cut, back, -, -, hgated⟩ :=
    h (enteringTick surpriseless) (new Desk.sample enteringTree)
    rfl (text_entering surpriseless) ⟨"A/B", "a/b", .paper, true⟩ (by decide +kernel)
  obtain ⟨rez, nets, hrez, hresonant, -⟩ := hgated.story
  cases hrez
  exact Bool.false_ne_true hresonant.surprise

end Model

end Symm.Strategy
