import Mathlib.Algebra.Order.Group.Int
import Mathlib.Logic.Function.Basic
import Symm.Lib.Machine

/-!
# The attached dashboard (`ui/hub.go`)

The hub keeps one socket in `conn`, and `connected` says that it may be written to.
A websocket handler attaches its socket, reads it until it fails and tears it down;
the pump retires a socket on which a write failed. Both swap `conn` first and store
`connected` afterwards, so that the store may come after another dashboard has
attached.

- `Hub`, `Turn`, `step`: where every handler and the pump are, and what each atomic
  step does; the socket of a handler has its number;
- `Timely`: the stores of `connected` that are not overtaken;
- `attached_seen`: along runs of timely stores an attached dashboard is seen.

Each atomic step of an attach and of a teardown is a turn; what the hub says at rest
(`Quiet`) is what the last store of the flag said. `Placed` is the invariant of every
run, on the socket in `conn` and its handler, and needs no condition; `Seen` is the one
of timely runs, on the flag.
-/

namespace Symm.Ui.Attached

open Symm.Lib

/-- Where a handler is: what it has done last. -/
inductive Phase
  | idle
  /-- It has stored that nothing is connected. -/
  | paused
  /-- It has reset the attach instant. -/
  | reset
  | swapped
  /-- Its socket is in `conn`. -/
  | stored
  | dated
  /-- It has stored that it is connected, and reads. -/
  | reading
  /-- It has left the loop and closed its socket. -/
  | closing
  /-- Its teardown has taken the socket out of `conn`. -/
  | removed
  | done
  deriving DecidableEq

/-- Where the pump is. -/
inductive PumpPhase
  | idle
  /-- It has loaded a socket and writes. -/
  | writing (conn : ℕ)
  /-- `retireConnection` has found the socket in `conn` and closed it. -/
  | retiring (conn : ℕ)
  /-- It has taken the socket out of `conn`. -/
  | removed
  deriving DecidableEq

/-- The hub, with the sockets in the order in which they were attached, newest
first, and those that were closed. -/
structure Hub where
  conn : Option ℕ
  connected : Bool
  connectedSince : ℤ
  handlers : ℕ → Phase
  pump : PumpPhase
  order : List ℕ
  closed : ℕ → Bool

def Hub.new : Hub := ⟨none, false, 0, fun _ => .idle, .idle, [], fun _ => false⟩

/-- Whose turn it is. -/
inductive Turn
  /-- A handler, at this time. -/
  | handler (i : ℕ) (now : ℤ)
  /-- The pump, whose write fails or not. -/
  | pump (failed : Bool)

namespace Hub

def close (hub : Hub) : Option ℕ → Hub
  | none => hub
  | some conn => { hub with closed := Function.update hub.closed conn true }

def move (hub : Hub) (i : ℕ) (phase : Phase) : Hub :=
  { hub with handlers := Function.update hub.handlers i phase }

/-- `wsHandler`, by its atomic steps. -/
def handler (hub : Hub) (i : ℕ) (now : ℤ) : Hub :=
  match hub.handlers i with
  | .idle => { hub with connected := false }.move i .paused
  | .paused => { hub with connectedSince := 0 }.move i .reset
  | .reset => ({ hub with conn := none }.close hub.conn).move i .swapped
  | .swapped => { hub with conn := some i, order := i :: hub.order }.move i .stored
  | .stored => { hub with connectedSince := now }.move i .dated
  | .dated => { hub with connected := true }.move i .reading
  | .reading => (hub.close (some i)).move i .closing
  | .closing =>
    if hub.conn = some i then { hub with conn := none }.move i .removed else hub.move i .done
  | .removed => { hub with connected := false }.move i .done
  | .done => hub

/-- `pump` and `retireConnection`, by their atomic steps. -/
def pumped (hub : Hub) (failed : Bool) : Hub :=
  match hub.pump with
  | .idle =>
    match hub.conn with
    | none => hub
    | some conn => { hub with pump := .writing conn }
  | .writing conn =>
    if failed ∧ hub.conn = some conn then
      { hub with pump := .retiring conn }.close (some conn)
    else { hub with pump := .idle }
  | .retiring conn =>
    if hub.conn = some conn then { hub with conn := none, pump := .removed }
    else { hub with pump := .idle }
  | .removed => { hub with connected := false, pump := .idle }

/-- `active`, at this time. -/
def active (hub : Hub) (now : ℤ) : Bool :=
  if hub.connected ∧ hub.conn.isSome then true
  else if hub.connectedSince = 0 then false
  else now - hub.connectedSince < 5000000000

end Hub

def step (hub : Hub) : Turn → Hub
  | .handler i now => hub.handler i now
  | .pump failed => hub.pumped failed

/-! ## States and steps that the results are about -/

/-- The handler has paused delivery, and its `Swap` is to come. -/
def Phase.Pausing (phase : Phase) : Prop := phase = .paused ∨ phase = .reset

/-- The handler is between its `Swap` and its store of `connected`. -/
def Phase.Attaching (phase : Phase) : Prop := phase = .swapped ∨ phase = .stored ∨ phase = .dated

/-- No handler is between its `Swap` and its store of `connected`, and no teardown or
retirement is in progress. -/
structure Quiet (hub : Hub) : Prop where
  handlers : ∀ i, ¬ (hub.handlers i).Attaching ∧ hub.handlers i ≠ .closing ∧
    hub.handlers i ≠ .removed
  pump : (∀ conn, hub.pump ≠ .retiring conn) ∧ hub.pump ≠ .removed

/-- Some handler is going to store that it is connected. -/
def Coming (hub : Hub) : Prop :=
  ∃ i, (hub.handlers i).Pausing ∨ (hub.handlers i).Attaching

/-- A handler other than this one is attaching, or a store that nothing is connected
is due. -/
def Pending (hub : Hub) (own : ℕ) : Prop :=
  (∃ i, i ≠ own ∧ (hub.handlers i).Attaching) ∨ (∃ i, hub.handlers i = .removed) ∨
    hub.pump = .removed

/-- The store of `connected` that this turn makes, if it does, is not overtaken: the
one after a removal comes before another socket is attached or while its handler has
yet to store, and the one of an attach comes while a socket is in `conn`, or before a
store that is due. -/
def Timely (hub : Hub) : Turn → Prop
  | .handler i _ =>
    (hub.handlers i = .removed → hub.conn = none ∨ Coming hub) ∧
      (hub.handlers i = .dated → hub.conn ≠ none ∨ Pending hub i)
  | .pump _ => hub.pump = .removed → hub.conn = none ∨ Coming hub

/-! ## Where the socket in `conn` is -/

/-- The handler has put its socket into `conn`. -/
def Phase.HasStored (phase : Phase) : Prop :=
  phase ≠ .idle ∧ phase ≠ .paused ∧ phase ≠ .reset ∧ phase ≠ .swapped

/-- The handler of the socket in `conn`. -/
def Phase.Holding (phase : Phase) : Prop :=
  phase = .stored ∨ phase = .dated ∨ phase = .reading ∨ phase = .closing

/-- The socket in `conn` is the newest one, its handler has not torn it down, and it
is open unless it is about to be taken out. -/
structure Placed (hub : Hub) : Prop where
  newest : ∀ c, hub.conn = some c → hub.order.head? = some c
  holder : ∀ c, hub.conn = some c → (hub.handlers c).Holding
  fresh : ∀ c, hub.closed c = true → (hub.handlers c).HasStored
  target : ∀ c, hub.pump = .writing c ∨ hub.pump = .retiring c → (hub.handlers c).HasStored
  unclosed : ∀ c, hub.conn = some c → hub.closed c = true →
    hub.handlers c = .closing ∨ hub.pump = .retiring c

theorem Phase.Holding.hasStored {phase : Phase} (h : phase.Holding) : phase.HasStored := by
  rcases h with rfl | rfl | rfl | rfl <;> exact ⟨nofun, nofun, nofun, nofun⟩

section Placed

variable {hub : Hub} {i : ℕ}

theorem close_of_ne {conn c : ℕ} (h : c ≠ conn) :
    (hub.close (some conn)).closed c = hub.closed c := Function.update_of_ne h _ _

/-- A handler that moves on and keeps what its socket needs. -/
theorem Placed.move (h : Placed hub) {phase : Phase}
    (hstored : (hub.handlers i).HasStored → phase.HasStored)
    (hconn : hub.conn = some i → phase.Holding ∧ (hub.handlers i = .closing → phase = .closing)) :
    Placed (hub.move i phase) := by
  -- what has stored its socket stays past that
  have hkeep : ∀ c, (hub.handlers c).HasStored → ((hub.move i phase).handlers c).HasStored := by
    intro c hc
    by_cases hci : c = i
    · subst hci
      show (Function.update hub.handlers c phase c).HasStored
      rw [Function.update_self]
      exact hstored hc
    · show (Function.update hub.handlers i phase c).HasStored
      rwa [Function.update_of_ne hci]
  refine ⟨h.newest, fun c hc => ?_, fun c hc => hkeep c (h.fresh c hc),
    fun c hc => hkeep c (h.target c hc), fun c hc hclosed => ?_⟩
  · by_cases hci : c = i
    · subst hci
      show (Function.update hub.handlers c phase c).Holding
      rw [Function.update_self]
      exact (hconn hc).1
    · show (Function.update hub.handlers i phase c).Holding
      rw [Function.update_of_ne hci]
      exact h.holder c hc
  · by_cases hci : c = i
    · subst hci
      show Function.update hub.handlers c phase c = .closing ∨ _
      rw [Function.update_self]
      exact (h.unclosed c hc hclosed).imp_left (hconn hc).2
    · show Function.update hub.handlers i phase c = .closing ∨ _
      rw [Function.update_of_ne hci]
      exact h.unclosed c hc hclosed

/-- A handler that has not stored its socket moves on. -/
theorem Placed.move_before (h : Placed hub) (hbefore : ¬ (hub.handlers i).HasStored)
    (phase : Phase) : Placed (hub.move i phase) :=
  h.move (fun hstored => absurd hstored hbefore)
    fun hconn => absurd (h.holder i hconn).hasStored hbefore

/-- What was in `conn` is taken out and closed. -/
theorem Placed.swap (h : Placed hub) : Placed ({ hub with conn := none }.close hub.conn) := by
  cases hconn : hub.conn with
  | none => exact ⟨nofun, nofun, h.fresh, h.target, nofun⟩
  | some old =>
    refine ⟨nofun, nofun, fun c hc => ?_, h.target, nofun⟩
    by_cases hold : c = old
    · subst hold
      exact (h.holder c hconn).hasStored
    · refine h.fresh c ?_
      rwa [← Function.update_of_ne hold true hub.closed]

theorem Placed.remove (h : Placed hub) : Placed { hub with conn := none } :=
  ⟨nofun, nofun, h.fresh, h.target, nofun⟩

/-- The socket of a handler that has just swapped is open, and becomes the newest. -/
theorem Placed.store (h : Placed hub) (hswapped : hub.handlers i = .swapped) :
    Placed ({ hub with conn := some i, order := i :: hub.order }.move i .stored) := by
  have hbefore : ¬ (hub.handlers i).HasStored := fun hstored => hstored.2.2.2 hswapped
  have hself : Function.update hub.handlers i .stored i = .stored := Function.update_self _ _ _
  have hkeep : ∀ c, (hub.handlers c).HasStored →
      (Function.update hub.handlers i .stored c).HasStored := by
    intro c hc
    have hci : c ≠ i := by
      rintro rfl
      exact hbefore hc
    rwa [Function.update_of_ne hci]
  refine ⟨fun c hc => ?_, fun c hc => ?_, fun c hc => hkeep c (h.fresh c hc),
    fun c hc => hkeep c (h.target c hc), fun c hc hclosed => ?_⟩
  · cases hc
    rfl
  · cases hc
    exact .inl hself
  · cases hc
    exact absurd (h.fresh i hclosed) hbefore

/-- A handler that leaves its loop closes its socket. -/
theorem Placed.leave (h : Placed hub) (hreading : hub.handlers i = .reading) :
    Placed ((hub.close (some i)).move i .closing) := by
  have hstored : (hub.handlers i).HasStored := by
    rw [hreading]
    exact ⟨nofun, nofun, nofun, nofun⟩
  have hmoved : Placed (hub.move i .closing) :=
    h.move (fun _ => ⟨nofun, nofun, nofun, nofun⟩)
      fun _ => ⟨.inr (.inr (.inr rfl)), fun _ => rfl⟩
  have hself : Function.update hub.handlers i .closing i = .closing := Function.update_self _ _ _
  refine ⟨h.newest, hmoved.holder, fun c hc => ?_, hmoved.target, fun c hc hclosed => ?_⟩
  · by_cases hci : c = i
    · subst hci
      show (Function.update hub.handlers c .closing c).HasStored
      rw [hself]
      exact ⟨nofun, nofun, nofun, nofun⟩
    · exact hmoved.fresh c ((close_of_ne hci).symm.trans hc)
  · by_cases hci : c = i
    · subst hci
      exact .inl hself
    · exact hmoved.unclosed c hc ((close_of_ne hci).symm.trans hclosed)

/-- A turn of a handler keeps every socket where the handlers have it. -/
theorem handler_placed (h : Placed hub) (i : ℕ) (now : ℤ) : Placed (hub.handler i now) := by
  unfold Hub.handler
  split
  · rename_i hphase
    have hpaused : Placed { hub with connected := false } :=
      ⟨h.newest, h.holder, h.fresh, h.target, h.unclosed⟩
    exact hpaused.move_before (fun hstored => hstored.1 hphase) _
  · rename_i hphase
    have hreset : Placed { hub with connectedSince := 0 } :=
      ⟨h.newest, h.holder, h.fresh, h.target, h.unclosed⟩
    exact hreset.move_before (fun hstored => hstored.2.1 hphase) _
  · rename_i hphase
    refine h.swap.move_before (fun hstored => hstored.2.2.1 ?_) _
    cases hconn : hub.conn <;> exact hphase
  · rename_i hphase
    exact h.store hphase
  · rename_i hphase
    have hdated : Placed { hub with connectedSince := now } :=
      ⟨h.newest, h.holder, h.fresh, h.target, h.unclosed⟩
    refine hdated.move (fun _ => ⟨nofun, nofun, nofun, nofun⟩) fun _ => ⟨.inr (.inl rfl), ?_⟩
    intro hclosing
    cases hphase.symm.trans hclosing
  · rename_i hphase
    have hconnected : Placed { hub with connected := true } :=
      ⟨h.newest, h.holder, h.fresh, h.target, h.unclosed⟩
    refine hconnected.move (fun _ => ⟨nofun, nofun, nofun, nofun⟩)
      fun _ => ⟨.inr (.inr (.inl rfl)), ?_⟩
    intro hclosing
    cases hphase.symm.trans hclosing
  · rename_i hphase
    exact h.leave hphase
  · split
    · exact h.remove.move (fun _ => ⟨nofun, nofun, nofun, nofun⟩) nofun
    · -- another socket is in `conn`, and stays there
      rename_i hconn
      exact h.move (fun _ => ⟨nofun, nofun, nofun, nofun⟩) fun hsome => absurd hsome hconn
  · rename_i hphase
    have hremoved : Placed { hub with connected := false } :=
      ⟨h.newest, h.holder, h.fresh, h.target, h.unclosed⟩
    refine hremoved.move (fun _ => ⟨nofun, nofun, nofun, nofun⟩) fun hconn => ?_
    have hholding := h.holder i hconn
    rw [hphase] at hholding
    rcases hholding with hpast | hpast | hpast | hpast <;> cases hpast
  · exact h

/-- A retired socket is closed, and leaves `conn` before the pump goes on. -/
theorem pumped_placed (h : Placed hub) (failed : Bool) : Placed (hub.pumped failed) := by
  -- the pump may rest where no socket it retires is still in `conn`
  have hidle : (∀ c, hub.conn = some c → hub.pump ≠ .retiring c) →
      Placed { hub with pump := .idle } := by
    intro hpump
    refine ⟨h.newest, h.holder, h.fresh, nofun, fun c hc hclosed => .inl ?_⟩
    exact (h.unclosed c hc hclosed).resolve_right (hpump c hc)
  unfold Hub.pumped
  split
  · rename_i hpump
    split
    · exact h
    · rename_i conn hconn
      refine ⟨h.newest, h.holder, h.fresh, fun c hc => ?_, fun c hc hclosed => .inl ?_⟩
      · rcases hc with hc | hc
        · cases hc
          exact (h.holder _ hconn).hasStored
        · cases hc
      · refine (h.unclosed c hc hclosed).resolve_right ?_
        rw [hpump]
        nofun
  · rename_i conn hpump
    have hpump' : ∀ c, hub.conn = some c → hub.pump ≠ .retiring c := by
      intro c _
      rw [hpump]
      nofun
    split
    · rename_i hfailed
      -- the write failed: the socket is closed, and `conn` still holds it
      have hstored := h.target conn (.inl hpump)
      refine ⟨h.newest, h.holder, fun c hc => ?_, fun c hc => ?_, fun c hc hclosed => ?_⟩
      · by_cases hcc : c = conn
        · subst hcc
          exact hstored
        · exact h.fresh c ((close_of_ne hcc).symm.trans hc)
      · rcases hc with hc | hc
        · cases hc
        · cases hc
          exact hstored
      · by_cases hcc : c = conn
        · subst hcc
          exact .inr rfl
        · refine .inl ((h.unclosed c hc ?_).resolve_right (hpump' c hc))
          exact (close_of_ne hcc).symm.trans hclosed
    · exact hidle hpump'
  · rename_i conn hpump
    split
    · -- the retired socket was the one in `conn`
      exact ⟨nofun, nofun, h.fresh, nofun, nofun⟩
    · rename_i hconn
      refine hidle fun c hc hretiring => hconn ?_
      rw [hpump] at hretiring
      cases hretiring
      exact hc
  · rename_i hpump
    have hidle' : Placed { hub with pump := .idle } := by
      refine hidle fun c _ => ?_
      rw [hpump]
      nofun
    exact ⟨hidle'.newest, hidle'.holder, hidle'.fresh, hidle'.target, hidle'.unclosed⟩

theorem placed_step (hub : Hub) (turn : Turn) (h : Placed hub) : Placed (step hub turn) := by
  cases turn with
  | handler i now => exact handler_placed h i now
  | pump failed => exact pumped_placed h failed

end Placed

/-! ## What `connected` says -/

/-- While a socket is in `conn` the hub is connected or a handler is to say so, and
otherwise it is not, or a store of `connected` is due. -/
structure Seen (hub : Hub) : Prop where
  attached : hub.conn ≠ none → hub.connected = true ∨ Coming hub
  detached : hub.conn = none → hub.connected = false ∨ (∃ i, (hub.handlers i).Attaching) ∨
    (∃ i, hub.handlers i = .removed) ∨ hub.pump = .removed

section Seen

variable {hub : Hub} {i : ℕ}

theorem handlers_self (phase : Phase) : (hub.move i phase).handlers i = phase :=
  Function.update_self _ _ _

/-- What some handler meets some handler still meets after a move that keeps it. -/
theorem exists_move {P : Phase → Prop} {phase : Phase} (h : ∃ j, P (hub.handlers j))
    (hi : P (hub.handlers i) → P phase) : ∃ j, P ((hub.move i phase).handlers j) := by
  obtain ⟨j, hj⟩ := h
  by_cases hji : j = i
  · subst hji
    refine ⟨j, ?_⟩
    rw [handlers_self]
    exact hi hj
  · refine ⟨j, ?_⟩
    show P (Function.update hub.handlers i phase j)
    rwa [Function.update_of_ne hji]

/-- A handler that moves on without touching `conn` or `connected`. -/
theorem Seen.move (h : Seen hub) {phase : Phase}
    (hcoming : (hub.handlers i).Pausing ∨ (hub.handlers i).Attaching →
      phase.Pausing ∨ phase.Attaching)
    (hattaching : (hub.handlers i).Attaching → phase.Attaching)
    (hremoved : hub.handlers i ≠ .removed) : Seen (hub.move i phase) := by
  refine ⟨fun hconn => ?_, fun hconn => ?_⟩
  · exact (h.attached hconn).imp_right fun hsome =>
      exists_move (P := fun phase => phase.Pausing ∨ phase.Attaching) hsome hcoming
  · refine (h.detached hconn).imp_right (.imp ?_ (.imp_left ?_))
    · exact fun hsome => exists_move hsome hattaching
    · exact fun hsome => exists_move (P := (· = .removed)) hsome fun hi => absurd hi hremoved

/-- A timely turn of a handler keeps what the flag says of `conn`. -/
theorem handler_seen (h : Seen hub) (i : ℕ) (now : ℤ) (ht : Timely hub (.handler i now)) :
    Seen (hub.handler i now) := by
  obtain ⟨hlate, hattach⟩ := ht
  unfold Hub.handler
  split
  · refine ⟨fun _ => .inr ⟨i, .inl (.inl ?_)⟩, fun _ => .inl rfl⟩
    exact handlers_self _
  · rename_i hphase
    have hreset : Seen { hub with connectedSince := 0 } := ⟨h.attached, h.detached⟩
    refine hreset.move (fun _ => .inl (.inr rfl)) ?_ ?_
    · rintro (hpast | hpast | hpast) <;> cases hphase.symm.trans hpast
    · exact fun hpast => nomatch hphase.symm.trans hpast
  · refine ⟨fun hconn => absurd ?_ hconn, fun _ => .inr (.inl ⟨i, .inl ?_⟩)⟩
    · cases hub.conn <;> rfl
    · exact handlers_self _
  · refine ⟨fun _ => .inr ⟨i, .inr (.inr (.inl ?_))⟩, nofun⟩
    exact handlers_self _
  · rename_i hphase
    have hdated : Seen { hub with connectedSince := now } := ⟨h.attached, h.detached⟩
    refine hdated.move (fun _ => .inr (.inr (.inr rfl))) (fun _ => .inr (.inr rfl)) ?_
    exact fun hpast => nomatch hphase.symm.trans hpast
  · rename_i hphase
    refine ⟨fun _ => .inl rfl, fun hconn => .inr ?_⟩
    -- nothing is in `conn`: another handler attaches, or the store that says so is due
    rcases (hattach hphase).resolve_left (fun hne => hne hconn) with
      ⟨j, hji, hj⟩ | hremoved | hpump
    · refine .inl ⟨j, ?_⟩
      show (Function.update hub.handlers i .reading j).Attaching
      rwa [Function.update_of_ne hji]
    · refine .inr (.inl (exists_move (P := (· = .removed)) hremoved fun hpast => ?_))
      cases hphase.symm.trans hpast
    · exact .inr (.inr hpump)
  · rename_i hphase
    have hclosed : Seen (hub.close (some i)) := ⟨h.attached, h.detached⟩
    refine hclosed.move ?_ ?_ ?_
    · rintro ((hpast | hpast) | hpast | hpast | hpast) <;> cases hphase.symm.trans hpast
    · rintro (hpast | hpast | hpast) <;> cases hphase.symm.trans hpast
    · exact fun hpast => nomatch hphase.symm.trans hpast
  · rename_i hphase
    split
    · refine ⟨fun hconn => absurd rfl hconn, fun _ => .inr (.inr (.inl ⟨i, ?_⟩))⟩
      exact handlers_self _
    · refine h.move ?_ ?_ ?_
      · rintro ((hpast | hpast) | hpast | hpast | hpast) <;> cases hphase.symm.trans hpast
      · rintro (hpast | hpast | hpast) <;> cases hphase.symm.trans hpast
      · exact fun hpast => nomatch hphase.symm.trans hpast
  · rename_i hphase
    refine ⟨fun hconn => .inr ?_, fun _ => .inl rfl⟩
    -- a socket that is in `conn` has a handler that is going to store so
    refine exists_move (P := fun phase => phase.Pausing ∨ phase.Attaching)
      ((hlate hphase).resolve_left hconn) ?_
    rintro ((hpast | hpast) | hpast | hpast | hpast) <;> cases hphase.symm.trans hpast
  · exact h

/-- So does a timely turn of the pump, which may retire the socket. -/
theorem pumped_seen (h : Seen hub) (failed : Bool) (ht : Timely hub (.pump failed)) :
    Seen (hub.pumped failed) := by
  have hpump : ∀ pump, hub.pump ≠ .removed → Seen { hub with pump := pump } := by
    refine fun pump hne => ⟨h.attached, fun hconn => ?_⟩
    exact (h.detached hconn).imp_right (.imp_right (.imp_right fun hpast => absurd hpast hne))
  unfold Hub.pumped
  split
  · rename_i hphase
    have hne : hub.pump ≠ .removed := fun hpast => nomatch hphase.symm.trans hpast
    split
    · exact h
    · exact hpump _ hne
  · rename_i conn hphase
    have hne : hub.pump ≠ .removed := fun hpast => nomatch hphase.symm.trans hpast
    split
    · exact ⟨(hpump (.retiring conn) hne).attached, (hpump (.retiring conn) hne).detached⟩
    · exact hpump _ hne
  · rename_i hphase
    have hne : hub.pump ≠ .removed := fun hpast => nomatch hphase.symm.trans hpast
    split
    · exact ⟨fun hconn => absurd rfl hconn, fun _ => .inr (.inr (.inr rfl))⟩
    · exact hpump _ hne
  · rename_i hphase
    exact ⟨fun hconn => .inr ((ht hphase).resolve_left hconn), fun _ => .inl rfl⟩

/-- Every timely turn keeps it. -/
theorem seen_step (hub : Hub) (turn : Turn) (h : Seen hub) (ht : Timely hub turn) :
    Seen (step hub turn) := by
  cases turn with
  | handler i now => exact handler_seen h i now ht
  | pump failed => exact pumped_seen h failed ht

end Seen

/-! ## Runs -/

theorem placed_new : Placed Hub.new := by
  refine ⟨?_, ?_, ?_, ?_, ?_⟩
  · intro c hc
    cases hc
  · intro c hc
    cases hc
  · intro c hc
    cases hc
  · intro c hc
    rcases hc with hc | hc <;> cases hc
  · intro c hc
    cases hc

/-- Along every interleaving of handlers and pump, in a quiet state the socket in
`conn` is the one attached last, it is open and its handler reads it. -/
theorem quiet_holder (turns : List Turn) (hquiet : Quiet (runFrom step Hub.new turns)) {c : ℕ}
    (hconn : (runFrom step Hub.new turns).conn = some c) :
    (runFrom step Hub.new turns).order.head? = some c ∧
      (runFrom step Hub.new turns).handlers c = .reading ∧
      (runFrom step Hub.new turns).closed c = false := by
  have hplaced := always_runFrom placed_step placed_new turns
  obtain ⟨hattaching, hclosing, -⟩ := hquiet.handlers c
  refine ⟨hplaced.newest c hconn, ?_, ?_⟩
  · rcases hplaced.holder c hconn with hc | hc | hc | hc
    · exact absurd (.inr (.inl hc)) hattaching
    · exact absurd (.inr (.inr hc)) hattaching
    · exact hc
    · exact absurd hc hclosing
  · rw [← Bool.not_eq_true]
    intro hclosed
    rcases hplaced.unclosed c hconn hclosed with hc | hc
    · exact hclosing hc
    · exact hquiet.pump.1 c hc

/-- Along every interleaving of handlers and pump in which no store of `connected` is
overtaken, in every quiet state in which no handler has paused a socket in `conn`,
`connected` says whether there is one; it is then the socket attached last, open and
read by its handler, and frames are enqueued for it at any time. -/
theorem attached_seen (turns : List Turn) (htimely : Along step Timely Hub.new turns)
    (hquiet : Quiet (runFrom step Hub.new turns))
    (hpaused : (runFrom step Hub.new turns).conn = none ∨
      ∀ i, ¬ ((runFrom step Hub.new turns).handlers i).Pausing) :
    ((runFrom step Hub.new turns).connected = true ↔ (runFrom step Hub.new turns).conn ≠ none) ∧
      ∀ c, (runFrom step Hub.new turns).conn = some c →
        (runFrom step Hub.new turns).order.head? = some c ∧
        (runFrom step Hub.new turns).handlers c = .reading ∧
        (runFrom step Hub.new turns).closed c = false ∧
        ∀ now, (runFrom step Hub.new turns).active now = true := by
  -- the invariant of every timely run
  have hseen : Seen (runFrom step Hub.new turns) :=
    inv_runFrom seen_step ⟨fun hconn => absurd rfl hconn, fun _ => .inl rfl⟩ htimely
  have hsaid : (runFrom step Hub.new turns).connected = true ↔
      (runFrom step Hub.new turns).conn ≠ none := by
    constructor
    · intro hconnected hconn
      -- a quiet hub has nobody left who could still store
      rcases hseen.detached hconn with hnot | ⟨i, hi⟩ | ⟨i, hi⟩ | hpump
      · rw [hconnected] at hnot
        cases hnot
      · exact (hquiet.handlers i).1 hi
      · exact (hquiet.handlers i).2.2 hi
      · exact hquiet.pump.2 hpump
    · intro hconn
      refine (hseen.attached hconn).resolve_right ?_
      rintro ⟨i, hi | hi⟩
      · exact (hpaused.resolve_left hconn) i hi
      · exact (hquiet.handlers i).1 hi
  refine ⟨hsaid, fun c hconn => ?_⟩
  obtain ⟨hnewest, hreading, hopen⟩ := quiet_holder turns hquiet hconn
  refine ⟨hnewest, hreading, hopen, fun now => ?_⟩
  have hconnected : (runFrom step Hub.new turns).connected = true := by
    rw [hsaid, hconn]
    nofun
  unfold Hub.active
  rw [if_pos ⟨hconnected, by rw [hconn]; rfl⟩]

/-- Where every handler is before, in or after its read loop and the pump is idle, the
hub is quiet. -/
theorem quiet_of_phases {hub : Hub}
    (h : ∀ i, hub.handlers i = .idle ∨ hub.handlers i = .reading ∨ hub.handlers i = .done)
    (hpump : hub.pump = .idle) : Quiet hub := by
  refine ⟨fun i => ?_, fun conn => ?_, ?_⟩
  · refine ⟨?_, ?_, ?_⟩
    · rintro (hpast | hpast | hpast) <;> rcases h i with hi | hi | hi <;>
        cases hi.symm.trans hpast
    · rcases h i with hi | hi | hi <;> rw [hi] <;> nofun
    · rcases h i with hi | hi | hi <;> rw [hi] <;> nofun
  · rw [hpump]
    nofun
  · rw [hpump]
    nofun

/-- The turns of a handler from its start to its read loop, at this time. -/
def attach (i : ℕ) (now : ℤ) : List Turn := List.replicate 6 (.handler i now)

/-- The store of this turn finds `conn` as the removal or the attach before it left it. -/
def Undisturbed (hub : Hub) : Turn → Prop
  | .handler i _ =>
    (hub.handlers i = .removed → hub.conn = none) ∧ (hub.handlers i = .dated → hub.conn ≠ none)
  | .pump _ => hub.pump = .removed → hub.conn = none

instance (hub : Hub) : (turn : Turn) → Decidable (Undisturbed hub turn)
  | .handler _ _ => inferInstanceAs (Decidable (_ ∧ _))
  | .pump _ => inferInstanceAs (Decidable (_ → _))

/-- A store that nothing overtook is timely. -/
theorem Undisturbed.timely {hub : Hub} {turn : Turn} (h : Undisturbed hub turn) :
    Timely hub turn := by
  cases turn with
  | handler i now => exact ⟨fun hi => .inl (h.1 hi), fun hi => .inl (h.2 hi)⟩
  | pump failed => exact fun hpump => .inl (h hpump)

/-- The pump retires the first dashboard, whose handler then leaves, the second one goes
away by itself, and a third one comes. -/
def relieving : List Turn :=
  attach 0 1 ++ [.pump false, .pump true, .pump false, .pump false] ++
    List.replicate 2 (.handler 0 2) ++ attach 1 3 ++ List.replicate 3 (.handler 1 4) ++ attach 2 5

/-- The third dashboard is seen. -/
theorem attached_seen_relieved :
    (runFrom step Hub.new relieving).conn = some 2 ∧
      (runFrom step Hub.new relieving).active 6000000000 = true := by
  have hphases : ∀ i, (runFrom step Hub.new relieving).handlers i = .idle ∨
      (runFrom step Hub.new relieving).handlers i = .reading ∨
      (runFrom step Hub.new relieving).handlers i = .done := by
    rintro (_ | _ | _ | i)
    · exact .inr (.inr rfl)
    · exact .inr (.inr rfl)
    · exact .inr (.inl rfl)
    · exact .inl rfl
  have hpaused : ∀ i, ¬ ((runFrom step Hub.new relieving).handlers i).Pausing := by
    intro i
    rcases hphases i with hi | hi | hi <;> rw [hi] <;> rintro (hpast | hpast) <;> cases hpast
  have hundisturbed : Along step Undisturbed Hub.new relieving := by
    decide +kernel
  have htimely : Along step Timely Hub.new relieving :=
    along_of_inv (fun _ _ _ _ => trivial) (fun _ _ (_ : True) h => h.timely) trivial hundisturbed
  exact ⟨rfl, ((attached_seen relieving htimely (quiet_of_phases hphases rfl)
    (.inr hpaused)).2 2 rfl).2.2.2 6000000000⟩

/-- A dashboard goes away, and another one comes before the last store of its
teardown. -/
def overtaking : List Turn :=
  attach 0 1 ++ List.replicate 2 (.handler 0 1) ++ attach 1 2 ++ [.handler 0 1]

/-- A handler whose socket was replaced can store last: the hub comes to rest with a socket
in `conn` and the flag down. -/
theorem attached_not_seen :
    ¬ ∀ turns, Quiet (runFrom step Hub.new turns) →
      ((runFrom step Hub.new turns).connected = true ↔
        (runFrom step Hub.new turns).conn ≠ none) := by
  intro h
  have hphases : ∀ i, (runFrom step Hub.new overtaking).handlers i = .idle ∨
      (runFrom step Hub.new overtaking).handlers i = .reading ∨
      (runFrom step Hub.new overtaking).handlers i = .done := by
    rintro (_ | _ | i)
    · exact .inr (.inr rfl)
    · exact .inr (.inl rfl)
    · exact .inl rfl
  have hconn : (runFrom step Hub.new overtaking).conn = some 1 := rfl
  have hconnected := (h overtaking (quiet_of_phases hphases rfl)).mpr (by rw [hconn]; nofun)
  cases hconnected

end Symm.Ui.Attached
