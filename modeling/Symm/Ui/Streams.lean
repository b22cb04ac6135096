import Symm.Lib.Threads

/-!
# Streams of one kind (`ui/hub.go`)

A run of a kind replaces the one before it. The maps of the hub change under
`streamMu`, but the replaced run is cancelled after the lock is released, and a run
that finishes takes the lock again and clears its own entry.

- `Hub`, `Stage`, `step`: the maps with every run ever started, where a call is, and
  what its next turn does;
- `Tied`: the invariant between entries, generations and runs;
- `one_live_stream`: the run of a kind that is live is the one its entry cancels.

A cancel function is the number of the run whose context it cancels.

Between the lock and the cancel a call owes the old run its cancel (`Owed`); a run that
is live and has no entry is always owed one. Once no call owes anything, the live run of
a kind is the one that has the entry.
-/

namespace Symm.Ui.Streams

open Symm.Lib

/-- A run of `startStream`: what its goroutine closes over, and what has become of it
and of its context. -/
structure Stream where
  kind : String
  gen : ℕ
  started : Bool
  cancelled : Bool
  finished : Bool

/-- The hub, with the contexts that its cancel functions reach. `nextStream`, and with it
every generation, is a `uint64` of the source; it is a natural number here, so that it does
not come round to a generation that is still in use after 2^64 streams. -/
structure Hub where
  streams : String → Option ℕ
  streamGen : String → Option ℕ
  nextStream : ℕ
  runs : List Stream
  /-- `hub.ctx`, from which the contexts of the runs derive, is cancelled. -/
  done : Bool

def Hub.new : Hub := ⟨fun _ => none, fun _ => none, 0, [], false⟩

/-- Where a call of `startStream` or `cancelStream` is. -/
inductive Stage
  | idle
  /-- `startStream` has released the lock and is to cancel `prev`. -/
  | replacing (run : ℕ) (prev : Option ℕ)
  /-- `startStream` is to start the goroutine of its run. -/
  | spawning (run : ℕ)
  /-- `cancelStream` has released the lock and is to call `cancel`. -/
  | cancelling (cancel : Option ℕ)

/-- What a turn does. -/
inductive Turn
  | startStream (kind : String)
  | cancelStream (kind : String)
  /-- The call at hand goes on. -/
  | go
  /-- The goroutine of this run takes the lock after its run has returned. -/
  | finish (run : ℕ)
  /-- `hub.ctx` is cancelled. -/
  | shutdown

namespace Hub

def cancel (hub : Hub) : Option ℕ → Hub
  | none => hub
  | some run => { hub with runs := hub.runs.modify run fun run => { run with cancelled := true } }

def spawn (hub : Hub) (run : ℕ) : Hub :=
  { hub with runs := hub.runs.modify run fun run => { run with started := true } }

/-- The function of a run has returned. -/
def ended (hub : Hub) (run : ℕ) : Hub :=
  { hub with runs := hub.runs.modify run fun run => { run with finished := true } }

/-- The locked section of `startStream`. -/
def startStream (hub : Hub) (kind : String) : Hub :=
  let gen := hub.nextStream + 1
  { hub with
    streams := Function.update hub.streams kind (some hub.runs.length)
    streamGen := Function.update hub.streamGen kind (some gen)
    nextStream := gen
    runs := hub.runs ++ [⟨kind, gen, false, false, false⟩] }

/-- The locked section of `cancelStream`. -/
def cancelStream (hub : Hub) (kind : String) : Hub :=
  { hub with streams := Function.update hub.streams kind none }

/-- The locked section of a goroutine. A generation that is missing reads zero. -/
def clear (hub : Hub) (kind : String) (gen : ℕ) : Hub :=
  if (hub.streamGen kind).getD 0 = gen then
    { hub with
      streams := Function.update hub.streams kind none
      streamGen := Function.update hub.streamGen kind none }
  else hub

/-- A goroutine that was started and has not finished does so. -/
def finish (hub : Hub) (run : ℕ) : Hub :=
  match hub.runs[run]? with
  | some ⟨kind, gen, true, _, false⟩ => (hub.ended run).clear kind gen
  | _ => hub

end Hub

/-- A turn, of a call that is at this stage. -/
def step : Turn → Hub → Stage → Hub × Stage
  | .startStream kind, hub, .idle =>
    (hub.startStream kind, .replacing hub.runs.length (hub.streams kind))
  | .cancelStream kind, hub, .idle => (hub.cancelStream kind, .cancelling (hub.streams kind))
  | .go, hub, .replacing run prev => (hub.cancel prev, .spawning run)
  | .go, hub, .spawning run => (hub.spawn run, .idle)
  | .go, hub, .cancelling cancel => (hub.cancel cancel, .idle)
  | .finish run, hub, stage => (hub.finish run, stage)
  | .shutdown, hub, stage => ({ hub with done := true }, stage)
  | _, hub, stage => (hub, stage)

abbrev State := Threads Hub Stage

/-- A new hub, and no call of it. -/
def State.new : State := ⟨Hub.new, fun _ => .idle⟩

/-- The run that a call has replaced and not cancelled yet. -/
def Stage.owes : Stage → Option ℕ
  | .replacing _ prev => prev
  | .cancelling cancel => cancel
  | _ => none

/-- No call is between its locked section and its cancel of the replaced run. -/
def Quiet (s : State) : Prop := ∀ i, (s.calls i).owes = none

/-- A run of this kind has not finished, and its context is not cancelled. -/
def Hub.Live (hub : Hub) (kind : String) (run : ℕ) : Prop :=
  ∃ stream, hub.runs[run]? = some stream ∧ stream.kind = kind ∧ stream.finished = false ∧
    stream.cancelled = false ∧ hub.done = false

/-- The run has finished, or its context is cancelled. -/
def Hub.Stopped (hub : Hub) (run : ℕ) : Prop :=
  ∃ stream, hub.runs[run]? = some stream ∧ (stream.finished = true ∨ stream.cancelled = true)

/-- Generations number the runs, an entry has the generation of its run, and a run
that is neither cancelled nor finished has its entry or is owed a cancel. -/
structure Tied (owed : ℕ → Prop) (hub : Hub) : Prop where
  next : hub.nextStream = hub.runs.length
  gens : ∀ r stream, hub.runs[r]? = some stream → stream.gen = r + 1
  entry : ∀ kind r, hub.streams kind = some r → hub.streamGen kind = some (r + 1)
  live : ∀ r stream, hub.runs[r]? = some stream → stream.cancelled = false →
    stream.finished = false → hub.streams stream.kind = some r ∨ owed r

/-- Some call owes the run a cancel. -/
def Owed (calls : ℕ → Stage) (run : ℕ) : Prop := ∃ i, (calls i).owes = some run

/-! ## Sections -/

section Sections

variable {owed owed' : ℕ → Prop} {hub : Hub}

/-- Owing more cancels keeps the tie. -/
theorem Tied.mono (h : Tied owed hub) (howed : ∀ r, owed r → owed' r) : Tied owed' hub :=
  ⟨h.next, h.gens, h.entry, fun r stream hstream hcan hfin =>
    (h.live r stream hstream hcan hfin).imp_right (howed r)⟩

/-- A run of a list in which one was changed. -/
theorem modify_some {runs : List Stream} {f : Stream → Stream} {run r : ℕ} {stream : Stream}
    (h : (runs.modify run f)[r]? = some stream) :
    ∃ old, runs[r]? = some old ∧ stream = if run = r then f old else old := by
  rw [List.getElem?_modify] at h
  obtain ⟨old, hold, rfl⟩ := Option.map_eq_some_iff.mp h
  exact ⟨old, hold, rfl⟩

/-- A run of a list to which one was added. -/
theorem append_some {runs : List Stream} {new stream : Stream} {r : ℕ}
    (h : (runs ++ [new])[r]? = some stream) :
    runs[r]? = some stream ∨ r = runs.length ∧ stream = new := by
  rcases Nat.lt_trichotomy r runs.length with hlt | rfl | hgt
  · rw [List.getElem?_append_left hlt] at h
    exact .inl h
  · rw [List.getElem?_concat_length] at h
    exact .inr ⟨rfl, (Option.some.inj h).symm⟩
  · rw [List.getElem?_append_right (Nat.le_of_lt hgt), List.getElem?_singleton,
      if_neg (by omega)] at h
    cases h

/-- A change of one run after which it is as live as before, or is not owed. -/
theorem Tied.modify (h : Tied owed hub) {f : Stream → Stream} (run : ℕ)
    (hkind : ∀ stream, (f stream).kind = stream.kind)
    (hgen : ∀ stream, (f stream).gen = stream.gen)
    (hlive : ∀ stream, (f stream).cancelled = false → (f stream).finished = false →
      stream.cancelled = false ∧ stream.finished = false ∧ (owed run → owed' run))
    (howed : ∀ r, owed r → run = r ∨ owed' r) :
    Tied owed' { hub with runs := hub.runs.modify run f } := by
  refine ⟨?_, fun r stream hstream => ?_, h.entry, fun r stream hstream hcan hfin => ?_⟩
  · show hub.nextStream = (hub.runs.modify run f).length
    rw [List.length_modify]
    exact h.next
  · obtain ⟨old, hold, rfl⟩ := modify_some hstream
    have hgens := h.gens r old hold
    split
    · rw [hgen]
      exact hgens
    · exact hgens
  · obtain ⟨old, hold, rfl⟩ := modify_some hstream
    by_cases hrun : run = r
    · subst hrun
      rw [if_pos rfl] at hcan hfin ⊢
      obtain ⟨hcan, hfin, hkeep⟩ := hlive old hcan hfin
      rw [hkind]
      exact (h.live run old hold hcan hfin).imp_right hkeep
    · rw [if_neg hrun] at hcan hfin ⊢
      exact (h.live r old hold hcan hfin).imp_right fun hr => (howed r hr).resolve_left hrun

/-- A cancel pays what was owed. -/
theorem Tied.cancel {prev : Option ℕ} (h : Tied (fun r => owed r ∨ prev = some r) hub) :
    Tied owed (hub.cancel prev) := by
  cases prev with
  | none => exact h.mono fun r hr => hr.resolve_right nofun
  | some run =>
    exact h.modify run (fun _ => rfl) (fun _ => rfl) (fun _ => nofun)
      fun r hr => hr.symm.imp_left Option.some.inj

/-- Setting a run off changes nothing of its entry. -/
theorem Tied.spawn (h : Tied owed hub) (run : ℕ) : Tied owed (hub.spawn run) :=
  h.modify run (fun _ => rfl) (fun _ => rfl) (fun _ hcan hfin => ⟨hcan, hfin, id⟩) fun _ => .inr

/-- The new run has the entry, and the one that had it is owed a cancel. -/
theorem Tied.startStream (h : Tied owed hub) (kind : String) :
    Tied (fun r => owed r ∨ hub.streams kind = some r) (hub.startStream kind) := by
  refine ⟨?_, fun r stream hstream => ?_, fun kind' r hentry => ?_,
    fun r stream hstream hcan hfin => ?_⟩
  · show hub.nextStream + 1 = (hub.runs ++ [_]).length
    rw [h.next, List.length_append, List.length_singleton]
  · rcases append_some hstream with hold | ⟨rfl, rfl⟩
    · exact h.gens r stream hold
    · show hub.nextStream + 1 = _
      rw [h.next]
  · show Function.update hub.streamGen kind (some (hub.nextStream + 1)) kind' = _
    replace hentry : Function.update hub.streams kind (some hub.runs.length) kind' = some r :=
      hentry
    by_cases hkind : kind' = kind
    · subst hkind
      rw [Function.update_self] at hentry ⊢
      rw [h.next, Option.some.inj hentry]
    · rw [Function.update_of_ne hkind] at hentry ⊢
      exact h.entry kind' r hentry
  · show Function.update hub.streams kind (some hub.runs.length) stream.kind = some r ∨ _
    rcases append_some hstream with hold | ⟨rfl, rfl⟩
    · have hlive := h.live r stream hold hcan hfin
      by_cases hkind : stream.kind = kind
      · rw [hkind] at hlive
        exact .inr hlive.symm
      · rw [Function.update_of_ne hkind]
        exact hlive.imp_right .inl
    -- the new run has the entry; the one that had it is owed its cancel
    · exact .inl (Function.update_self _ _ _)

/-- The run that had the entry is owed a cancel. -/
theorem Tied.cancelStream (h : Tied owed hub) (kind : String) :
    Tied (fun r => owed r ∨ hub.streams kind = some r) (hub.cancelStream kind) := by
  refine ⟨h.next, h.gens, fun kind' r hentry => ?_, fun r stream hstream hcan hfin => ?_⟩
  · replace hentry : Function.update hub.streams kind none kind' = some r := hentry
    by_cases hkind : kind' = kind
    · subst hkind
      rw [Function.update_self] at hentry
      cases hentry
    · rw [Function.update_of_ne hkind] at hentry
      exact h.entry kind' r hentry
  · show Function.update hub.streams kind none stream.kind = some r ∨ _
    have hlive := h.live r stream hstream hcan hfin
    by_cases hkind : stream.kind = kind
    · rw [hkind] at hlive
      exact .inr hlive.symm
    · rw [Function.update_of_ne hkind]
      exact hlive.imp_right .inl

/-- The section of a goroutine leaves every entry but that of its own run. -/
theorem Tied.clear_streams (h : Tied owed hub) {kind kind' : String} {run r : ℕ}
    (hentry : hub.streams kind' = some r) (hne : r ≠ run) :
    (hub.clear kind (run + 1)).streams kind' = some r ∧
      (hub.clear kind (run + 1)).streamGen kind' = hub.streamGen kind' := by
  have hgen := h.entry kind' r hentry
  unfold Hub.clear
  split
  · rename_i hmatch
    have hkind : kind' ≠ kind := by
      rintro rfl
      rw [hgen] at hmatch
      exact hne (Nat.succ.inj hmatch)
    exact ⟨(Function.update_of_ne hkind _ _).trans hentry,
      Function.update_of_ne hkind _ _⟩
  · exact ⟨hentry, rfl⟩

/-- Once its run has finished, the section of a goroutine takes nothing from a live
run. -/
theorem Tied.clear (h : Tied owed hub) (kind : String) {run : ℕ}
    (hfinished : ∀ stream, hub.runs[run]? = some stream → stream.finished = true) :
    Tied owed (hub.clear kind (run + 1)) := by
  have hruns : (hub.clear kind (run + 1)).runs = hub.runs ∧
      (hub.clear kind (run + 1)).nextStream = hub.nextStream := by
    unfold Hub.clear
    split <;> exact ⟨rfl, rfl⟩
  refine ⟨?_, ?_, fun kind' r hentry => ?_, fun r stream hstream hcan hfin => ?_⟩
  · rw [hruns.1, hruns.2]
    exact h.next
  · rw [hruns.1]
    exact h.gens
  · unfold Hub.clear at hentry ⊢
    split at hentry
    · rename_i hmatch
      rw [if_pos hmatch]
      dsimp only at hentry ⊢
      by_cases hkind : kind' = kind
      · subst hkind
        rw [Function.update_self] at hentry
        cases hentry
      · rw [Function.update_of_ne hkind] at hentry ⊢
        exact h.entry kind' r hentry
    · rename_i hmatch
      rw [if_neg hmatch]
      exact h.entry kind' r hentry
  · rw [hruns.1] at hstream
    refine (h.live r stream hstream hcan hfin).imp_left fun hentry => ?_
    refine (h.clear_streams hentry ?_).1
    -- the run whose entry goes has finished, so it is not one of the live ones
    rintro rfl
    rw [hfinished stream hstream] at hfin
    cases hfin

/-- A run that ends is no longer live. -/
theorem Tied.ended (h : Tied owed hub) (run : ℕ) : Tied owed (hub.ended run) :=
  h.modify run (fun _ => rfl) (fun _ => rfl) (fun _ _ => nofun) fun _ => .inr

/-- A finish clears the entry of its own generation alone. -/
theorem Tied.finish (h : Tied owed hub) (run : ℕ) : Tied owed (hub.finish run) := by
  unfold Hub.finish
  split
  · rename_i kind gen cancelled hrun
    obtain rfl : gen = run + 1 := h.gens run _ hrun
    refine (h.ended run).clear kind fun stream hstream => ?_
    obtain ⟨old, -, rfl⟩ := modify_some hstream
    rw [if_pos rfl]
  · exact h

/-- A run that finishes leaves the entry of any other run. -/
theorem Tied.finish_streams (h : Tied owed hub) {kind : String} {run r : ℕ}
    (hentry : hub.streams kind = some r) (hne : r ≠ run) :
    (hub.finish run).streams kind = some r ∧
      (hub.finish run).streamGen kind = hub.streamGen kind := by
  unfold Hub.finish
  split
  · rename_i kind' gen cancelled hrun
    obtain rfl : gen = run + 1 := h.gens run _ hrun
    exact (h.ended run).clear_streams hentry hne
  · exact ⟨hentry, rfl⟩

end Sections

/-! ## Turns and runs -/

section Turns

variable {calls : ℕ → Stage} {i : ℕ} {hub : Hub}

/-- A move of one call leaves the others owing what they owed. -/
theorem owed_update (stage : Stage) {r : ℕ} (h : Owed calls r) :
    Owed (Function.update calls i stage) r ∨ (calls i).owes = some r := by
  obtain ⟨j, hj⟩ := h
  by_cases hji : j = i
  · exact .inr (hji ▸ hj)
  · refine .inl ⟨j, ?_⟩
    rwa [Function.update_of_ne hji]

theorem owed_self {stage : Stage} {r : ℕ} (h : stage.owes = some r) :
    Owed (Function.update calls i stage) r := by
  refine ⟨i, ?_⟩
  rwa [Function.update_self]

/-- A section that takes an entry leaves its call owing what the entry was. -/
theorem Tied.taken {prev : Option ℕ} (h : Tied (fun r => Owed calls r ∨ prev = some r) hub)
    (hidle : (calls i).owes = none) {stage : Stage} (hstage : stage.owes = prev) :
    Tied (Owed (Function.update calls i stage)) hub := by
  subst hstage
  refine h.mono fun r hr => ?_
  rcases hr with hr | hr
  · refine (owed_update stage hr).resolve_right ?_
    rw [hidle]
    nofun
  · exact owed_self hr

/-- A call that goes on pays what it owed. -/
theorem Tied.paid (h : Tied (Owed calls) hub) {prev : Option ℕ} (howes : (calls i).owes = prev)
    (stage : Stage) : Tied (Owed (Function.update calls i stage)) (hub.cancel prev) := by
  subst howes
  exact (h.mono fun r hr => owed_update stage hr).cancel

/-- Every turn ties what it leaves. -/
theorem tied_turns (s : State) (e : ℕ × Turn) (h : Tied (Owed s.calls) s.shared) :
    Tied (Owed (turns step s e).calls) (turns step s e).shared := by
  obtain ⟨i, turn⟩ := e
  obtain ⟨hub, calls⟩ := s
  show Tied (Owed (Function.update calls i (step turn hub (calls i)).2))
    (step turn hub (calls i)).1
  have hsame : Tied (Owed (Function.update calls i (calls i))) hub := by
    rw [Function.update_eq_self]
    exact h
  generalize hstage : calls i = stage at hsame ⊢
  unfold step
  split
  · exact (h.startStream _).taken (congrArg Stage.owes hstage) rfl
  · exact (h.cancelStream _).taken (congrArg Stage.owes hstage) rfl
  · exact h.paid (congrArg Stage.owes hstage) _
  · exact (h.paid (congrArg Stage.owes hstage) (.idle)).spawn _
  · exact h.paid (congrArg Stage.owes hstage) _
  · exact hsame.finish _
  · exact ⟨hsame.next, hsame.gens, hsame.entry, hsame.live⟩
  · exact hsame

end Turns

theorem tied_new : Tied (Owed State.new.calls) State.new.shared := by
  refine ⟨rfl, fun r stream hstream => ?_, fun kind r hentry => ?_, fun r stream hstream => ?_⟩
  · cases hstream
  · cases hentry
  · cases hstream

/-- Whatever turns a new hub has taken, everything is tied. -/
theorem tied_runFrom (es : List (ℕ × Turn)) :
    Tied (Owed (runFrom (turns step) State.new es).calls)
      (runFrom (turns step) State.new es).shared :=
  always_runFrom tied_turns tied_new es

/-! ## Runs that stop -/

section Stops

variable {s : State} {hub : Hub} {r : ℕ}

theorem Hub.Stopped.not_live (h : hub.Stopped r) (kind : String) : ¬ hub.Live kind r := by
  obtain ⟨stream, hstream, hstop⟩ := h
  rintro ⟨stream', hstream', -, hfin, hcan, -⟩
  obtain rfl : stream = stream' := Option.some.inj (hstream.symm.trans hstream')
  rcases hstop with hstop | hstop
  · rw [hfin] at hstop
    cases hstop
  · rw [hcan] at hstop
    cases hstop

/-- A stopped run stays stopped under what starts no run again. -/
theorem Hub.Stopped.modify (h : hub.Stopped r) {f : Stream → Stream} (run : ℕ)
    (hf : ∀ stream, stream.finished = true ∨ stream.cancelled = true →
      (f stream).finished = true ∨ (f stream).cancelled = true) :
    ∃ stream, (hub.runs.modify run f)[r]? = some stream ∧
      (stream.finished = true ∨ stream.cancelled = true) := by
  obtain ⟨stream, hstream, hstop⟩ := h
  by_cases hrun : run = r
  · subst hrun
    refine ⟨f stream, ?_, hf stream hstop⟩
    rw [List.getElem?_modify_eq, hstream]
    rfl
  · refine ⟨stream, ?_, hstop⟩
    rwa [List.getElem?_modify_ne _ _ hrun]

theorem Hub.Stopped.cancel (h : hub.Stopped r) (prev : Option ℕ) : (hub.cancel prev).Stopped r := by
  cases prev with
  | none => exact h
  | some run => exact h.modify run fun _ _ => .inr rfl

theorem clear_runs (kind : String) (gen : ℕ) : (hub.clear kind gen).runs = hub.runs := by
  unfold Hub.clear
  split <;> rfl

theorem Hub.Stopped.finish (h : hub.Stopped r) (run : ℕ) : (hub.finish run).Stopped r := by
  unfold Hub.finish
  split
  · unfold Hub.Stopped
    rw [clear_runs]
    exact h.modify run fun _ _ => .inl rfl
  · exact h

/-- No turn makes a stopped run go on. -/
theorem Hub.Stopped.turns (h : s.shared.Stopped r) (e : ℕ × Turn) :
    (turns step s e).shared.Stopped r := by
  obtain ⟨i, turn⟩ := e
  show (step turn s.shared (s.calls i)).1.Stopped r
  unfold step
  split
  · obtain ⟨stream, hstream, hstop⟩ := h
    refine ⟨stream, ?_, hstop⟩
    show (s.shared.runs ++ [_])[r]? = some stream
    rw [List.getElem?_append_left (List.getElem?_eq_some_iff.mp hstream).1]
    exact hstream
  · exact h
  · exact h.cancel _
  · exact h.modify _ fun _ => id
  · exact h.cancel _
  · exact h.finish _
  · exact h
  · exact h

/-- A stopped run stays stopped in every run of the calls. -/
theorem Hub.Stopped.runFrom (h : s.shared.Stopped r) (es : List (ℕ × Turn)) :
    (runFrom (Lib.turns step) s es).shared.Stopped r := by
  have hstep : ∀ (s : State) (e : ℕ × Turn), s.shared.Stopped r →
      (Lib.turns step s e).shared.Stopped r := fun _ e h => h.turns e
  exact always_runFrom hstep h es

theorem length_cancel (hub : Hub) (prev : Option ℕ) :
    (hub.cancel prev).runs.length = hub.runs.length := by
  cases prev with
  | none => rfl
  | some run => exact List.length_modify _ _ _

theorem length_finish (hub : Hub) (run : ℕ) :
    (hub.finish run).runs.length = hub.runs.length := by
  unfold Hub.finish
  split
  · rw [clear_runs]
    exact List.length_modify _ _ _
  · rfl

/-- No turn forgets a run. -/
theorem length_turns (s : State) (e : ℕ × Turn) :
    s.shared.runs.length ≤ (turns step s e).shared.runs.length := by
  obtain ⟨i, turn⟩ := e
  show _ ≤ (step turn s.shared (s.calls i)).1.runs.length
  unfold step
  split
  · show _ ≤ (s.shared.runs ++ [_]).length
    rw [List.length_append]
    exact Nat.le_add_right _ _
  · exact Nat.le_refl _
  · exact Nat.le_of_eq (length_cancel _ _).symm
  · exact Nat.le_of_eq (List.length_modify _ _ _).symm
  · exact Nat.le_of_eq (length_cancel _ _).symm
  · exact Nat.le_of_eq (length_finish _ _).symm
  · exact Nat.le_refl _
  · exact Nat.le_refl _

theorem length_runFrom (h : r < s.shared.runs.length) (es : List (ℕ × Turn)) :
    r < (runFrom (Lib.turns step) s es).shared.runs.length := by
  have hstep : ∀ (s : State) (e : ℕ × Turn), r < s.shared.runs.length →
      r < (Lib.turns step s e).shared.runs.length := fun s e h =>
    Nat.lt_of_lt_of_le h (length_turns s e)
  exact always_runFrom hstep h es

/-- Who is cancelled is stopped. -/
theorem Hub.stopped_cancel (hrun : r < hub.runs.length) : (hub.cancel (some r)).Stopped r := by
  refine ⟨{ hub.runs[r] with cancelled := true }, ?_, .inr rfl⟩
  show (hub.runs.modify r _)[r]? = _
  rw [List.getElem?_modify_eq, List.getElem?_eq_getElem hrun]
  rfl

end Stops

/-! ## One live run of a kind -/

section Live

variable {s : State} {kind : String} {r : ℕ}

/-- Where no call owes a cancel, a live run has the entry of its kind. -/
theorem Tied.entry_of_live (h : Tied (Owed s.calls) s.shared) (hquiet : Quiet s)
    (hlive : s.shared.Live kind r) : s.shared.streams kind = some r := by
  obtain ⟨stream, hstream, rfl, hfin, hcan, -⟩ := hlive
  refine (h.live r stream hstream hcan hfin).resolve_right ?_
  rintro ⟨i, hi⟩
  rw [hquiet i] at hi
  cases hi

/-- A run that finishes leaves the entry of any other run, and it has stopped. -/
theorem Tied.entry_finish {owed : ℕ → Prop} {hub : Hub} (h : Tied owed hub)
    (hentry : hub.streams kind = some r) (run : ℕ) :
    (hub.finish run).streams kind = some r ∨ (hub.finish run).Stopped r := by
  by_cases hrun : r = run
  · subst hrun
    unfold Hub.finish
    split
    · rename_i kind' gen cancelled hstream
      refine .inr ⟨⟨kind', gen, true, cancelled, true⟩, ?_, .inl rfl⟩
      rw [clear_runs]
      show (hub.runs.modify r _)[r]? = _
      rw [List.getElem?_modify_eq, hstream]
      rfl
    · exact .inl hentry
  · exact .inl (h.finish_streams hentry hrun).1

/-- A turn that neither starts nor cancels a stream of the kind leaves its entry, or
the run has stopped. -/
theorem Tied.entry_turns (h : Tied (Owed s.calls) s.shared)
    (hentry : s.shared.streams kind = some r) (e : ℕ × Turn)
    (hstart : e.2 ≠ .startStream kind) (hcancel : e.2 ≠ .cancelStream kind) :
    (turns step s e).shared.streams kind = some r ∨ (turns step s e).shared.Stopped r := by
  obtain ⟨i, turn⟩ := e
  show (step turn s.shared (s.calls i)).1.streams kind = some r ∨
    (step turn s.shared (s.calls i)).1.Stopped r
  unfold step
  split
  · rename_i kind' _
    have hkind : kind ≠ kind' := fun hkind => hstart (hkind ▸ rfl)
    exact .inl ((Function.update_of_ne hkind _ _).trans hentry)
  · rename_i kind' _
    have hkind : kind ≠ kind' := fun hkind => hcancel (hkind ▸ rfl)
    exact .inl ((Function.update_of_ne hkind _ _).trans hentry)
  · rename_i prev _
    cases prev <;> exact .inl hentry
  · exact .inl hentry
  · rename_i prev _
    cases prev <;> exact .inl hentry
  · exact h.entry_finish hentry _
  · exact .inl hentry
  · exact .inl hentry

/-- Without a start or cancel of its kind, a run keeps its entry until it stops. -/
theorem Tied.entry_runFrom (h : Tied (Owed s.calls) s.shared)
    (hentry : s.shared.streams kind = some r) {es : List (ℕ × Turn)}
    (hes : ∀ e ∈ es, e.2 ≠ .startStream kind ∧ e.2 ≠ .cancelStream kind) :
    (runFrom (turns step) s es).shared.streams kind = some r ∨
      (runFrom (turns step) s es).shared.Stopped r := by
  induction es generalizing s with
  | nil => exact .inl hentry
  | cons e es ih =>
    obtain ⟨hstart, hcancel⟩ := hes e List.mem_cons_self
    rcases h.entry_turns hentry e hstart hcancel with hentry' | hstop
    · exact ih (tied_turns s e h) hentry' fun e' he' => hes e' (List.mem_cons_of_mem e he')
    · exact .inr (hstop.runFrom es)

/-- A call that starts or cancels a stream of the kind owes the entry a cancel. -/
theorem owes_of_turn {i : ℕ} {turn : Turn} (hidle : s.calls i = .idle)
    (hturn : turn = .startStream kind ∨ turn = .cancelStream kind) :
    ((turns step s (i, turn)).calls i).owes = s.shared.streams kind := by
  rw [turns_self, hidle]
  rcases hturn with rfl | rfl <;> rfl

/-- A call that goes on calls the cancel function that it owes. -/
theorem go_shared {i : ℕ} (howes : (s.calls i).owes = some r) :
    (turns step s (i, .go)).shared = s.shared.cancel (some r) := by
  show (step .go s.shared (s.calls i)).1 = _
  generalize s.calls i = stage at howes
  cases stage with
  | idle => cases howes
  | spawning run => cases howes
  | replacing run prev =>
    obtain rfl : prev = some r := howes
    rfl
  | cancelling cancel =>
    obtain rfl : cancel = some r := howes
    rfl

/-- The next call that starts or cancels a stream of the kind stops the run that has
the entry, whatever happens before, meanwhile and after. -/
theorem Tied.stopped_of_call (h : Tied (Owed s.calls) s.shared) (hrun : r < s.shared.runs.length)
    (hentry : s.shared.streams kind = some r) {es fs gs : List (ℕ × Turn)} {i : ℕ} {turn : Turn}
    (hes : ∀ e ∈ es, e.2 ≠ .startStream kind ∧ e.2 ≠ .cancelStream kind)
    (hidle : (runFrom (turns step) s es).calls i = .idle)
    (hturn : turn = .startStream kind ∨ turn = .cancelStream kind)
    (hfs : ∀ e ∈ fs, e.1 ≠ i) :
    (runFrom (turns step) s (es ++ (i, turn) :: (fs ++ (i, .go) :: gs))).shared.Stopped r := by
  rw [runFrom_append, runFrom_cons, runFrom_append, runFrom_cons]
  refine Hub.Stopped.runFrom ?_ gs
  rcases h.entry_runFrom hentry hes with hentry' | hstop
  · have howes : ((runFrom (turns step) (turns step (runFrom (turns step) s es) (i, turn))
        fs).calls i).owes = some r := by
      rw [calls_runFrom_of_not_mem _ hfs, owes_of_turn hidle hturn, hentry']
    rw [go_shared howes]
    refine Hub.stopped_cancel (length_runFrom ?_ fs)
    exact Nat.lt_of_lt_of_le (length_runFrom hrun es) (length_turns _ _)
  · exact ((hstop.turns _).runFrom fs).turns _

end Live

/-- In every state that a hub reaches by interleaved turns of its calls and its
goroutines, and in which no call is between its section and its cancel, at most one
run of a kind is live, and its entry is that run's cancel function: it has stopped
once the next `cancelStream` or `startStream` of the kind, whatever happens before it
and meanwhile, has made its cancel. A run that finishes leaves the entry of any other
run. -/
theorem one_live_stream (es : List (ℕ × Turn)) :
    (Quiet (runFrom (turns step) State.new es) → ∀ kind,
      (∀ r r', (runFrom (turns step) State.new es).shared.Live kind r →
        (runFrom (turns step) State.new es).shared.Live kind r' → r = r') ∧
      ∀ r, (runFrom (turns step) State.new es).shared.Live kind r →
        (runFrom (turns step) State.new es).shared.streams kind = some r ∧
        ∀ fs gs hs i turn, (∀ e ∈ fs, e.2 ≠ .startStream kind ∧ e.2 ≠ .cancelStream kind) →
          (runFrom (turns step) State.new (es ++ fs)).calls i = .idle →
          (turn = .startStream kind ∨ turn = .cancelStream kind) → (∀ e ∈ gs, e.1 ≠ i) →
          ¬ (runFrom (turns step) State.new
            (es ++ (fs ++ (i, turn) :: (gs ++ (i, .go) :: hs)))).shared.Live kind r) ∧
    ∀ i r r' kind, (runFrom (turns step) State.new es).shared.streams kind = some r' → r' ≠ r →
      (runFrom (turns step) State.new (es ++ [(i, .finish r)])).shared.streams kind = some r' ∧
      (runFrom (turns step) State.new (es ++ [(i, .finish r)])).shared.streamGen kind =
        (runFrom (turns step) State.new es).shared.streamGen kind := by
  have htied := tied_runFrom es
  refine ⟨fun hquiet kind => ⟨fun r r' hlive hlive' => ?_, fun r hlive => ⟨?_, ?_⟩⟩,
    fun i r r' kind hentry hne => ?_⟩
  -- a live run that nobody owes a cancel has the entry of its kind
  · have hentry := htied.entry_of_live hquiet hlive
    rw [htied.entry_of_live hquiet hlive'] at hentry
    exact (Option.some.inj hentry).symm
  · exact htied.entry_of_live hquiet hlive
  -- the call finds the entry that the run still has, or the run has stopped
  · intro fs gs hs i turn hfs hidle hturn hgs
    have hentry := htied.entry_of_live hquiet hlive
    obtain ⟨stream, hstream, -⟩ := hlive
    rw [runFrom_append] at hidle ⊢
    exact (htied.stopped_of_call (List.getElem?_eq_some_iff.mp hstream).1 hentry hfs hidle hturn
      hgs).not_live kind
  · rw [runFrom_append]
    exact htied.finish_streams hentry hne

/-- A run is started, replaced while a second call waits for the lock, and the second
run is cancelled; the first has finished in the meantime. -/
def sampleTurns : List (ℕ × Turn) := [
  (0, .startStream "s3"), (0, .go), (0, .go),
  (1, .startStream "s3"), (2, .finish 0), (1, .go), (1, .go)]

theorem one_live_stream_sample :
    (runFrom (turns step) State.new sampleTurns).shared.streams "s3" = some 1 ∧
      ¬ (runFrom (turns step) State.new
        (sampleTurns ++ ([] ++ (0, .cancelStream "s3") :: ([] ++ (0, .go) :: [])))).shared.Live
          "s3" 1 := by
  have hquiet : Quiet (runFrom (turns step) State.new sampleTurns) := by
    intro i
    rcases i with _ | _ | _ | i <;> rfl
  have hlive : (runFrom (turns step) State.new sampleTurns).shared.Live "s3" 1 :=
    ⟨⟨"s3", 2, true, false, false⟩, rfl, rfl, rfl, rfl, rfl⟩
  obtain ⟨hentry, hnext⟩ := ((one_live_stream sampleTurns).1 hquiet "s3").2 1 hlive
  exact ⟨hentry, hnext [] [] [] 0 (.cancelStream "s3") (by simp) rfl (.inr rfl) (by simp)⟩

end Symm.Ui.Streams
