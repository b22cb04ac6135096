import Symm.Ui.Replays

/-!
# The gate lab and the hub over whole runs

However often the socket is lost and made anew, and whatever was lost with it, once the
hub has read the current socket (and no older one after it) its configuration is the one
it had if each command of the page had been handled once, in order.

- `Kept`: the hub has read every socket in order;
- `issued`: the commands of the page;
- `replay_settles`: the hub against the commands that were issued;
- `lamp_settles`: the bypass lamp against the hub, after a toggle and until a reset.

Every command sets some settings and leaves the others, so a configuration is what the
commands set last (`Lib.Patches`), and a command that is covered by later ones may be
lost. The worker keeps its commands and sends them again on a new socket. Hence the two
halves of the argument: what is kept sets what was issued (`lastKept_run`), and a hub
that has read a socket in order has been told what is kept (`Kept.settled`).

`Settled` is the one condition on the hub: it has read the current socket to its end,
and none of an older one after that. How sockets are lost, and how much of them was read
before, is left to the run.
-/

namespace Symm.Ui.Tuning

open Symm.Lib Symm.Ui.SocketWorker

/-- The hub after the frames, each handled once and in order. -/
def configured (unmarshal : String → Option Members) (config : Config) (frames : List Frame) :
    Config :=
  frames.foldl (handleCommand unmarshal) config

section Configured

variable {unmarshal : String → Option Members}

/-- A setting of the model is what the frames set last, or what it was. -/
theorem read_configured (config : Config) (frames : List Frame) (k : Setting) :
    Setting.read (configured unmarshal config frames) k =
      (lastSet unmarshal k frames).getD (Setting.read config k) :=
  read_foldl (read_handleCommand unmarshal) config frames k

/-- Frames change nothing but the settings. -/
theorem write_configured (config : Config) (frames : List Frame)
    (settings : (k : Setting) → k.Carrier) :
    Setting.write (configured unmarshal config frames) settings =
      Setting.write config settings := by
  induction frames generalizing config with
  | nil => rfl
  | cons frame frames ih => exact (ih _).trans (write_handleCommand unmarshal config frame settings)

/-- The configuration is that of its settings. -/
theorem configured_eq (config : Config) {frames frames' : List Frame}
    (h : ∀ k, (lastSet unmarshal k frames).getD (Setting.read config k) =
      (lastSet unmarshal k frames').getD (Setting.read config k)) :
    configured unmarshal config frames = configured unmarshal config frames' := by
  have hread : Setting.read (configured unmarshal config frames) =
      Setting.read (configured unmarshal config frames') := by
    funext k
    rw [read_configured, read_configured, h]
  rw [← write_read (configured unmarshal config frames),
    ← write_read (configured unmarshal config frames'), hread, write_configured, write_configured]

end Configured

/-- Where nothing comes back from `i`, what is of `i` comes last. -/
theorem eq_filter_append {A : Type} {i : ℕ} {log : List (ℕ × A)}
    (h : log.Pairwise fun entry later => entry.1 = i → later.1 = i) :
    log = log.filter (·.1 ≠ i) ++ log.filter (·.1 = i) := by
  induction log with
  | nil => rfl
  | cons entry log ih =>
    obtain ⟨hentry, hrest⟩ := List.pairwise_cons.mp h
    -- from the first entry of the socket on there is no other
    by_cases hi : entry.1 = i
    · have hall : ∀ later ∈ log, later.1 = i := fun later hlater => hentry later hlater hi
      have hnone : (entry :: log).filter (·.1 ≠ i) = [] := by
        refine List.filter_eq_nil_iff.mpr fun later hlater => ?_
        have hlater' : later.1 = i := by
          rcases List.mem_cons.mp hlater with rfl | hlater
          · exact hi
          · exact hall later hlater
        simpa using hlater'
      have hkeep : (entry :: log).filter (·.1 = i) = entry :: log := by
        refine List.filter_eq_self.mpr fun later hlater => ?_
        rcases List.mem_cons.mp hlater with rfl | hlater
        · exact decide_eq_true hi
        · exact decide_eq_true (hall later hlater)
      rw [hnone, hkeep, List.nil_append]
    · have hold : (entry :: log).filter (·.1 ≠ i) = entry :: log.filter (·.1 ≠ i) :=
        List.filter_cons_of_pos (decide_eq_true hi)
      have hnew : (entry :: log).filter (·.1 = i) = log.filter (·.1 = i) :=
        List.filter_cons_of_neg (by simpa using hi)
      rw [hold, hnew, List.cons_append, ← ih hrest]

/-- The command that an event gives the worker. -/
def commandOf (codec : Codec) (panel : Panel) : Event → Option Command
  | .panel e => (panel.step codec e).2
  | .worker (.command command) => command
  | _ => none

/-- The commands of the page, in order. -/
def issued (codec : Codec) (valid : String → Bool) : State → List Event → List Command
  | _, [] => []
  | s, e :: events =>
    (commandOf codec s.panel e).toList ++ issued codec valid (step codec valid s e) events

/-! ## Runs -/

section Runs

variable {codec : Codec} {valid : String → Bool} {initial : Config} {s : State}

/-- The hub has read the sockets in order, and its settings are those of what it read. -/
structure Kept (codec : Codec) (initial : Config) (s : State) : Prop where
  replays : Replays codec.unmarshal s.worker
  inOrder : ∀ i, framesOf i s.handled <+: framesOf i s.worker.sent
  config : s.config = configured codec.unmarshal initial (s.handled.map (·.2))

/-- What the hub has read was sent. -/
theorem Kept.mem_sent (h : Kept codec initial s) {entry : ℕ × Frame} (hentry : entry ∈ s.handled) :
    entry ∈ s.worker.sent := by
  have hframe : entry.2 ∈ framesOf entry.1 s.handled :=
    List.mem_map.mpr ⟨entry, List.mem_filter.mpr ⟨hentry, decide_eq_true rfl⟩, rfl⟩
  obtain ⟨found, hfound, heq⟩ := List.mem_map.mp ((h.inOrder entry.1).subset hframe)
  obtain ⟨hsent, hsocket⟩ := List.mem_filter.mp hfound
  rwa [Prod.ext (of_decide_eq_true hsocket) heq] at hsent

theorem Kept.work (h : Kept codec initial s) {w : Worker} (hreplays : Replays codec.unmarshal w)
    (hsent : s.worker.sent <+: w.sent) (panel : Panel) :
    Kept codec initial { s with panel, worker := w } :=
  ⟨hreplays, fun i => (h.inOrder i).trans (grows_framesOf hsent i), h.config⟩

/-- A frame that is read is the next one of its socket. -/
theorem Kept.read (h : Kept codec initial s) (i : ℕ) {frame : Frame}
    (hframe : (framesOf i s.worker.sent)[(framesOf i s.handled).length]? = some frame) :
    Kept codec initial { s with
      handled := s.handled ++ [(i, frame)]
      config := handleCommand codec.unmarshal s.config frame } := by
  refine ⟨h.replays, fun j => ?_, ?_⟩
  · show framesOf j (s.handled ++ [(i, frame)]) <+: framesOf j s.worker.sent
    rw [framesOf_append]
    by_cases hj : i = j
    · subst hj
      obtain ⟨rest, hrest⟩ := h.inOrder i
      rw [← hrest, List.getElem?_append_right le_rfl, Nat.sub_self] at hframe
      cases rest with
      | nil => cases hframe
      | cons next rest =>
        obtain rfl : next = frame := Option.some.inj hframe
        have hnew : framesOf i [(i, next)] = [next] := framesOf_self i [next]
        rw [hnew, ← hrest]
        exact ⟨rest, List.append_assoc _ _ _⟩
    · have hnew : framesOf j [(i, frame)] = [] := framesOf_other hj [frame]
      rw [hnew, List.append_nil]
      exact h.inOrder j
  · show handleCommand codec.unmarshal s.config frame = _
    rw [List.map_append, configured, List.foldl_append, h.config]
    rfl

/-- Every step of the page and the hub keeps the hub a prefix behind the worker. -/
theorem kept_step (h : Kept codec initial s) {e : Event} (he : e.OfPage) :
    Kept codec initial (step codec valid s e) := by
  cases e with
  | panel e =>
    unfold step
    dsimp only
    rcases s.panel.step codec e with ⟨panel, _ | command⟩
    · exact h.work h.replays List.prefix_rfl panel
    · exact h.work (h.replays.onCommand (some command)) (grows_onCommand _ _) panel
  | worker e => exact h.work (h.replays.step valid he) (grows_step valid _ he) s.panel
  | read i =>
    unfold step
    dsimp only
    split
    · rename_i frame hframe
      exact h.read i hframe
    · exact h

theorem Kept.run (h : Kept codec initial s) {events : List Event}
    (hpage : ∀ e ∈ events, e.OfPage) :
    Kept codec initial (runFrom (step codec valid) s events) := by
  induction events generalizing s with
  | nil => exact h
  | cons e events ih =>
    obtain ⟨he, hrest⟩ := List.forall_mem_cons.mp hpage
    exact ih (kept_step h he) hrest

theorem kept_run (codec : Codec) (valid : String → Bool) (config : Config) (route url : String)
    {events : List Event} (hpage : ∀ e ∈ events, e.OfPage) :
    Kept codec config (runFrom (step codec valid) (.start valid config route url) events) := by
  have hstart : Kept codec config (.start valid config route url) :=
    ⟨replays_start valid route url, fun _ => List.nil_prefix, rfl⟩
  exact hstart.run hpage

/-- What a command sets is kept. -/
theorem lastKept_step {e : Event} (he : e.OfPage) (s : State) (k : Setting) :
    lastKept codec.unmarshal k (step codec valid s e).worker =
      (lastSet codec.unmarshal k ((commandOf codec s.panel e).toList.map .command)).or
        (lastKept codec.unmarshal k s.worker) := by
  cases e with
  | panel e =>
    unfold step commandOf
    dsimp only
    rcases s.panel.step codec e with ⟨panel, _ | command⟩
    · rfl
    · exact lastKept_onCommand s.worker command
  | worker e =>
    -- a command is kept whoever issues it; nothing else changes what is kept
    by_cases hcommand : ∃ command, e = .command (some command)
    · obtain ⟨command, rfl⟩ := hcommand
      exact lastKept_onCommand s.worker command
    · have hnone : commandOf codec s.panel (.worker e) = none := by
        cases e with
        | command command =>
          cases command with
          | none => rfl
          | some command => exact absurd ⟨command, rfl⟩ hcommand
        | _ => rfl
      have hpending := pending_step valid s.worker he fun command h => hcommand ⟨command, h⟩
      rw [hnone]
      unfold step lastKept
      dsimp only
      rw [hpending]
      rfl
  | read i =>
    unfold step
    dsimp only
    split
    · rfl
    · rfl

/-- What the kept commands set after a run is what the issued ones set last, or what they
set before. -/
theorem lastKept_run {events : List Event} (hpage : ∀ e ∈ events, e.OfPage) (s : State)
    (k : Setting) :
    lastKept codec.unmarshal k (runFrom (step codec valid) s events).worker =
      (lastSet codec.unmarshal k ((issued codec valid s events).map .command)).or
        (lastKept codec.unmarshal k s.worker) := by
  induction events generalizing s with
  | nil => rfl
  | cons e events ih =>
    obtain ⟨he, hrest⟩ := List.forall_mem_cons.mp hpage
    rw [runFrom_cons, ih hrest, lastKept_step he, issued, List.map_append, lastSet_append,
      Option.or_assoc]

theorem lastKept_start (route url : String) (k : Setting) :
    lastKept codec.unmarshal k (State.start valid initial route url).worker = none := by
  have hpending : (State.start valid initial route url).worker.pendingCommands = [] :=
    (pending_connect valid _ url).trans (pending_send _ _)
  unfold lastKept
  rw [hpending]
  rfl

/-- The hub has read the current socket, and none of the older ones after it. -/
structure Settled (s : State) (i : ℕ) : Prop where
  socket : openSocket s.worker = some i
  all : framesOf i s.handled = framesOf i s.worker.sent
  last : s.handled.Pairwise fun entry later => entry.1 = i → later.1 = i

/-- What the hub has read is among what the kept commands set. -/
theorem Kept.isSome_kept (h : Kept codec initial s) {k : Setting} {log : List (ℕ × Frame)}
    (hlog : log ⊆ s.handled) (hset : (lastSet codec.unmarshal k (log.map (·.2))).isSome) :
    (lastKept codec.unmarshal k s.worker).isSome := by
  obtain ⟨_, hmem, hset⟩ := lastWrite_isSome.mp hset
  obtain ⟨frame, hframe, rfl⟩ := List.mem_map.mp hmem
  obtain ⟨entry, hentry, rfl⟩ := List.mem_map.mp hframe
  exact h.replays.queued entry (h.mem_sent (hlog hentry)) k hset

/-- What the hub has read sets what the kept commands set. -/
theorem Kept.settled (h : Kept codec initial s) {i : ℕ} (hs : Settled s i) (k : Setting) :
    Setting.read s.config k =
      (lastKept codec.unmarshal k s.worker).getD (Setting.read initial k) := by
  have hread : Setting.read s.config k = (lastSet codec.unmarshal k
      (s.handled.map (·.2))).getD (Setting.read initial k) := by
    rw [h.config, read_configured]
  -- the older sockets come first
  have hsplit : s.handled.map (·.2) =
      (s.handled.filter (·.1 ≠ i)).map (·.2) ++ framesOf i s.handled := by
    unfold framesOf
    rw [← List.map_append]
    exact congrArg _ (eq_filter_append hs.last)
  rw [hread, hsplit, lastSet_append, hs.all, h.replays.replayed i hs.socket]
  cases hkept : lastKept codec.unmarshal k s.worker with
  | some value => rfl
  | none =>
    rw [Option.none_or]
    cases hold : lastSet codec.unmarshal k ((s.handled.filter (·.1 ≠ i)).map (·.2)) with
    | none => rfl
    | some value =>
      have hqueued := h.isSome_kept (k := k) (List.filter_subset_self _)
        (by rw [hold, Option.isSome_some])
      rw [hkept] at hqueued
      cases hqueued

/-- What no kept command sets is as it was. -/
theorem Kept.unset (h : Kept codec initial s) {k : Setting}
    (hnone : lastKept codec.unmarshal k s.worker = none) :
    Setting.read s.config k = Setting.read initial k := by
  have hset : lastSet codec.unmarshal k (s.handled.map (·.2)) = none := by
    refine Option.not_isSome_iff_eq_none.mp fun hsome => ?_
    have hqueued := h.isSome_kept (List.Subset.refl _) hsome
    rw [hnone] at hqueued
    cases hqueued
  rw [h.config, read_configured, hset]
  rfl

/-- What the bypass lamp shows is kept as the setting. -/
def Lit (codec : Codec) (s : State) : Prop :=
  lastKept codec.unmarshal .bypass s.worker = some s.panel.resonance.bypass

/-- The draft that is sent keeps its bypass. -/
def Codec.KeepsBypass (codec : Codec) : Prop :=
  ∀ draft, ∃ patch, codec.unmarshal (codec.resonanceText draft) = some patch ∧
    patch "bypass" = some (.bool draft.bypass)

/-- Pressing the bypass issues a command with the bypass that the panel then shows. -/
theorem lit_toggle (hcodec : codec.KeepsBypass) (s : State) :
    Lit codec (step codec valid s (.panel .toggleResonanceBypass)) := by
  let draft := { s.panel.resonance with bypass := !s.panel.resonance.bypass }
  have hkept : lastKept codec.unmarshal .bypass
        (step codec valid s (.panel .toggleResonanceBypass)).worker =
      (writes codec.unmarshal (.command ⟨some "resonance", codec.resonanceText draft⟩) .bypass).or
        (lastKept codec.unmarshal .bypass s.worker) :=
    lastKept_onCommand s.worker _
  obtain ⟨patch, hpatch, hbypass⟩ := hcodec draft
  have hwrites : writes codec.unmarshal
      (.command ⟨some "resonance", codec.resonanceText draft⟩) .bypass = some draft.bypass := by
    show (codec.unmarshal (codec.resonanceText draft)).bind (fun patch => sets patch .bypass) = _
    rw [hpatch]
    show (patch "bypass").bind _ = _
    rw [hbypass]
    rfl
  show lastKept codec.unmarshal .bypass _ = some draft.bypass
  rw [hkept, hwrites]
  rfl

/-- No command but that of the toggle sets the bypass. -/
theorem commandOf_bypass (codec : Codec) (panel : Panel) {e : Event} (he : e.OfPage)
    (htoggle : e ≠ .panel .toggleResonanceBypass) :
    lastSet codec.unmarshal .bypass ((commandOf codec panel e).toList.map .command) = none := by
  cases e with
  | panel e =>
    cases e with
    | toggleResonanceBypass => exact absurd rfl htoggle
    | setRiskField field value =>
      cases value with
      | none => rfl
      | some value => rfl
    | setResonanceField field value => rfl
    | resetGateLab => rfl
    | applyRisk => rfl
    | applyRez click =>
      cases click with
      | none => rfl
      | some payload => rfl
  | worker e =>
    cases e with
    | command command =>
      cases command with
      | none => rfl
      | some command => exact congrFun (writes_plain he) Setting.bypass
    | _ => rfl
  | read i => rfl

/-- Nothing but a reset parts the lamp from what was sent. -/
theorem lit_step (hcodec : codec.KeepsBypass) (h : Lit codec s) {e : Event} (he : e.OfPage)
    (hreset : e ≠ .panel .resetGateLab) : Lit codec (step codec valid s e) := by
  by_cases htoggle : e = .panel .toggleResonanceBypass
  · subst htoggle
    exact lit_toggle hcodec s
  -- nothing else issues a command that sets the bypass
  have hnone := commandOf_bypass codec s.panel he htoggle
  -- and nothing else writes it on the panel
  have hpanel : (step codec valid s e).panel.resonance.bypass = s.panel.resonance.bypass := by
    cases e with
    | panel e =>
      cases e with
      | toggleResonanceBypass => exact absurd rfl htoggle
      | setRiskField field value =>
        cases value with
        | none => rfl
        | some value => rfl
      | setResonanceField field value => rfl
      | resetGateLab => exact absurd rfl hreset
      | applyRisk => rfl
      | applyRez click =>
        cases click with
        | none => rfl
        | some payload => rfl
    | worker e => rfl
    | read i =>
      unfold step
      dsimp only
      split
      · rfl
      · rfl
  unfold Lit
  rw [lastKept_step he, hnone, Option.none_or, hpanel]
  exact h

theorem lit_run (hcodec : codec.KeepsBypass) (h : Lit codec s) {events : List Event}
    (hpage : ∀ e ∈ events, e.OfPage) (hreset : ∀ e ∈ events, e ≠ .panel .resetGateLab) :
    Lit codec (runFrom (step codec valid) s events) := by
  induction events generalizing s with
  | nil => exact h
  | cons e events ih =>
    obtain ⟨he, hpage⟩ := List.forall_mem_cons.mp hpage
    obtain ⟨hne, hreset⟩ := List.forall_mem_cons.mp hreset
    exact ih (lit_step hcodec h he hne) hpage hreset

end Runs

/-- **The hub ends where the page's commands lead**, however often the socket is lost and
whatever is lost with it, once it has read the current socket. -/
theorem replay_settles (codec : Codec) (valid : String → Bool) (config : Config)
    (route url : String) (events : List Event) (hpage : ∀ e ∈ events, e.OfPage) (i : ℕ)
    (hsettled : Settled (runFrom (step codec valid) (.start valid config route url) events) i) :
    (runFrom (step codec valid) (.start valid config route url) events).config =
      configured codec.unmarshal config
        ((issued codec valid (.start valid config route url) events).map .command) := by
  have hkept := kept_run codec valid config route url hpage
  rw [hkept.config]
  refine configured_eq config fun k => ?_
  rw [← read_configured, ← hkept.config, hkept.settled hsettled, lastKept_run hpage,
    lastKept_start, Option.or_none]

section Sample

/-- The command of the default draft, but for its bypass. -/
def bypassText (bypass : Bool) : String :=
  "\x7b\"type\":\"resonance\",\"bypass\":" ++ (if bypass then "true" else "false") ++
    ",\"min_task_relative_precision\":0.5,\"min_surprise\":0.5" ++
    ",\"min_supported_horizon\":2,\"min_enter_z\":0.35\x7d"

/-- The members of that text. -/
def bypassMembers (bypass : Bool) : Members
  | "bypass" => some (.bool bypass)
  | "min_task_relative_precision" => some (.float (1 / 2))
  | "min_surprise" => some (.float (1 / 2))
  | "min_supported_horizon" => some (.float 2)
  | "min_enter_z" => some (.float (7 / 20))
  | _ => none

/-- The codec at the default draft, whatever its bypass. -/
def sampleCodec : Codec where
  riskText _ := "\x7b\"type\":\"risk\"\x7d"
  resonanceText draft := bypassText draft.bypass
  unmarshal text :=
    if text = bypassText true then some (bypassMembers true)
    else if text = bypassText false then some (bypassMembers false)
    else if text = "\x7b\"type\":\"risk\"\x7d" then some fun _ => none
    else none

def sampleConfig : Config where
  risk := ⟨System.Cfg.defaults.risk, 100000, 1 / 2, 8⟩
  learning := System.Cfg.defaults.learning

/-- The bypass is toggled, and its command is lost with the socket. -/
def sampleEvents : List Event :=
  [.worker (.opened 0), .read 0, .panel .toggleResonanceBypass, .worker (.closed 0),
    .worker .timer, .worker (.opened 1), .read 1, .read 1]

def sampleEnd : State :=
  runFrom (step sampleCodec fun _ => true) (.start (fun _ => true) sampleConfig "/" "ws://hub")
    sampleEvents

theorem settled_sample : Settled sampleEnd 1 := ⟨by decide, by decide, by decide⟩

end Sample

theorem replay_settles_sample : sampleEnd.config = configured sampleCodec.unmarshal sampleConfig
    [.command ⟨some "resonance", bypassText true⟩] :=
  replay_settles sampleCodec (fun _ => true) sampleConfig "/" "ws://hub" sampleEvents
    (by decide) 1 settled_sample

/-- **The bypass lamp tells the truth** after a toggle and until the lab is reset, once the
hub has read the current socket. -/
theorem lamp_settles (codec : Codec) (valid : String → Bool) (config : Config)
    (route url : String) (earlier later : List Event) (hcodec : codec.KeepsBypass)
    (hpage : ∀ e ∈ earlier ++ .panel .toggleResonanceBypass :: later, e.OfPage)
    (hreset : ∀ e ∈ later, e ≠ .panel .resetGateLab) (i : ℕ)
    (hsettled : Settled (runFrom (step codec valid) (.start valid config route url)
      (earlier ++ .panel .toggleResonanceBypass :: later)) i) :
    (runFrom (step codec valid) (.start valid config route url)
        (earlier ++ .panel .toggleResonanceBypass :: later)).config.learning.resonanceBypass =
      (runFrom (step codec valid) (.start valid config route url)
        (earlier ++ .panel .toggleResonanceBypass :: later)).panel.resonance.bypass := by
  have hkept := kept_run codec valid config route url hpage
  have hlater : ∀ e ∈ later, e.OfPage := fun e he =>
    hpage e (List.mem_append_right _ (List.mem_cons_of_mem _ he))
  have hlit : Lit codec (runFrom (step codec valid) (.start valid config route url)
      (earlier ++ .panel .toggleResonanceBypass :: later)) := by
    rw [runFrom_append, runFrom_cons]
    exact lit_run hcodec (lit_toggle hcodec _) hlater hreset
  have hread := hkept.settled hsettled .bypass
  rw [hlit] at hread
  exact hread

theorem lamp_settles_sample : sampleEnd.config.learning.resonanceBypass = true := by
  have hcodec : sampleCodec.KeepsBypass := by
    rintro ⟨bypass, numbers⟩
    cases bypass with
    | true => exact ⟨bypassMembers true, rfl, rfl⟩
    | false => exact ⟨bypassMembers false, rfl, rfl⟩
  exact lamp_settles sampleCodec (fun _ => true) sampleConfig "/" "ws://hub"
    [.worker (.opened 0), .read 0]
    [.worker (.closed 0), .worker .timer, .worker (.opened 1), .read 1, .read 1] hcodec
    (by decide) (by decide) 1 settled_sample

end Symm.Ui.Tuning
