import Mathlib.Algebra.Group.Nat.Defs
import Mathlib.Logic.Function.Basic
import Mathlib.Order.Nat
import Symm.Lib.Machine

/-!
# The websocket worker (`providers/ws-worker.ts`)

The worker holds one socket variable, a generation that tells the handlers of older
sockets that they are stale, and the handle of a reconnect timer. `connect` tears the
current socket down and makes a new one; the close event of the current socket sets
the timer, and the timer connects again.

Sockets live in a heap in the order they were made, and the browser moves them on:
an event that it cannot deliver changes nothing. `valid` says which addresses
`new WebSocket` accepts; on any other it throws. The `message` event of a socket
touches no state of the worker and is left out.

- `Worker`, `Event`, `step`: what each handler does;
- `Timely`: no `CONNECT` while a reconnect timer is pending;
- `reconnect_safe_iff`: exactly then no timer kills a live socket.

- `Quiet`: what a piece of a handler leaves alone, for the pieces that touch no socket;
- `Inv`: the current socket has the newest generation, no older one is live, and a timer
  waits only while the current one is closed;
- `Safe`: one live socket at most, and the worker knows it.
-/

namespace Symm.Ui.SocketWorker

open Symm.Lib

inductive ReadyState
  | connecting
  | opened
  | closing
  | closed
  deriving DecidableEq, Repr

/-- A socket, with the generation its handlers captured. -/
structure Socket where
  url : String
  generation : ℕ
  readyState : ReadyState
  deriving DecidableEq, Repr

/-- `Record<string, unknown>`: its `type`, and the rest as text. -/
structure Command where
  type : Option String
  payload : String
  deriving DecidableEq, Repr

/-- What is sent over a socket. -/
inductive Frame
  | route (route : String)
  | focus (symbol : String)
  | positionExit (symbol : String)
  | command (command : Command)
  deriving DecidableEq, Repr

/-- What is posted to the page. -/
inductive Post
  | ready
  | online
  | offline
  | error (error : String)
  | commandFailed (error : String)
  deriving DecidableEq, Repr

structure Worker where
  /-- The current socket, by its number. -/
  socket : Option ℕ
  connectUrl : String
  /-- The delay the pending timer was set with. -/
  reconnectTimer : Option ℕ
  reconnectAttempts : ℕ
  socketGeneration : ℕ
  currentRoute : String
  pendingCommands : List Command
  /-- The sockets made so far. -/
  sockets : ℕ → Option Socket
  created : ℕ
  sent : List (ℕ × Frame)
  posts : List Post

def Worker.new : Worker where
  socket := none
  connectUrl := ""
  reconnectTimer := none
  reconnectAttempts := 0
  socketGeneration := 0
  currentRoute := "dashboard"
  pendingCommands := []
  sockets := fun _ => none
  created := 0
  sent := []
  posts := [.ready]

def reconnectBaseMs : ℕ := 500

def reconnectMaxMs : ℕ := 10000

namespace Worker

/-- `readyState` of the socket of that number. -/
def ready (w : Worker) (i : ℕ) : Option ReadyState := (w.sockets i).map Socket.readyState

def setReady (w : Worker) (i : ℕ) (state : ReadyState) : Worker :=
  { w with sockets :=
      Function.update w.sockets i ((w.sockets i).map fun s => { s with readyState := state }) }

def post (w : Worker) (message : Post) : Worker := { w with posts := w.posts ++ [message] }

/-- `socket.send` where the current socket is open. -/
def send (w : Worker) (frame : Frame) : Worker :=
  match w.socket with
  | none => w
  | some i => if w.ready i = some .opened then { w with sent := w.sent ++ [(i, frame)] } else w

def queueCommand (w : Worker) (command : Command) : Worker :=
  let pending :=
    if command.type = some "hindsight" then
      w.pendingCommands.filter fun item => item.type ≠ some "hindsight"
    else w.pendingCommands
  { w with pendingCommands := pending ++ [command] }

def flushCommands (w : Worker) : Worker :=
  w.pendingCommands.foldl (fun w command => w.send (.command command)) w

def sendRoute (w : Worker) (route : String) : Worker :=
  { w with currentRoute := route }.send (.route route)

/-- `socket.close()` where the current socket is open or connecting. -/
def closeSocket (w : Worker) : Worker :=
  match w.socket with
  | none => w
  | some i =>
    if w.ready i = some .opened ∨ w.ready i = some .connecting then w.setReady i .closing else w

def teardownSocket (w : Worker) : Worker :=
  { { w with socketGeneration := w.socketGeneration + 1 }.closeSocket with socket := none }

def scheduleReconnect (w : Worker) : Worker :=
  match w.reconnectTimer with
  | some _ => w
  | none =>
    { w with
      reconnectTimer := some (min (reconnectBaseMs * 2 ^ w.reconnectAttempts) reconnectMaxMs) }

/-- `connect`; where `new WebSocket` throws, the torn down socket is not replaced. -/
def connect (valid : String → Bool) (w : Worker) (url : String) : Worker :=
  if url = "" then w
  else
    let w := w.teardownSocket
    let w := { w with connectUrl := url }
    if valid url then
      { w with
        socket := some w.created
        sockets := Function.update w.sockets w.created
          (some { url := url, generation := w.socketGeneration, readyState := .connecting })
        created := w.created + 1 }
    else w

/-- Whether an event of the socket is not stale. -/
def current (w : Worker) (i : ℕ) : Bool :=
  (w.sockets i).any fun s => s.generation = w.socketGeneration

/-- The `open` handler. -/
def onOpen (w : Worker) (i : ℕ) : Worker :=
  if w.current i then
    let w := { w with reconnectAttempts := 0 }.post .online
    let w := if w.currentRoute = "" then w else w.sendRoute w.currentRoute
    w.flushCommands
  else w

/-- The `close` handler. -/
def onClose (w : Worker) (i : ℕ) : Worker :=
  if w.current i then (w.post .offline).scheduleReconnect else w

/-- The `error` handler. -/
def onError (w : Worker) (i : ℕ) (error : String) : Worker :=
  if w.current i then w.post (.error error) else w

def disconnect (w : Worker) : Worker :=
  { w with reconnectTimer := none, reconnectAttempts := 0, pendingCommands := [] }.teardownSocket

/-- The callback of the reconnect timer. -/
def onTimer (valid : String → Bool) (w : Worker) : Worker :=
  { w with
    reconnectTimer := none
    reconnectAttempts := w.reconnectAttempts + 1 }.connect valid w.connectUrl

def onCommand (w : Worker) : Option Command → Worker
  | none => w.post (.commandFailed "hub command is empty")
  | some command => (w.queueCommand command).send (.command command)

end Worker

/-- What the worker is woken by: a message of the page, its timer, or a step of the
browser with one of its sockets. -/
inductive Event
  | connect (url : Option String)
  | disconnect
  | focus (symbol : Option String)
  | route (route : Option String)
  | positionExit (symbol : Option String)
  | command (command : Option Command)
  | timer
  | opened (i : ℕ)
  /-- The other side has begun to close. -/
  | closing (i : ℕ)
  | closed (i : ℕ)
  | error (i : ℕ) (error : String)
  deriving DecidableEq, Repr

def step (valid : String → Bool) (w : Worker) : Event → Worker
  | .connect url => w.connect valid (url.getD "")
  | .disconnect => w.disconnect
  | .focus symbol => w.send (.focus (symbol.getD ""))
  | .route route => w.sendRoute (route.getD "")
  | .positionExit symbol => w.send (.positionExit (symbol.getD ""))
  | .command command => w.onCommand command
  | .timer => if w.reconnectTimer.isSome then w.onTimer valid else w
  | .opened i => if w.ready i = some .connecting then (w.setReady i .opened).onOpen i else w
  | .closing i =>
    if w.ready i = some .connecting ∨ w.ready i = some .opened then w.setReady i .closing else w
  | .closed i =>
    if (w.ready i).any (· ≠ .closed) then (w.setReady i .closed).onClose i else w
  | .error i error => w.onError i error

/-! ## What the results are about -/

namespace Worker

/-- The socket is connecting or open. -/
def Live (w : Worker) (i : ℕ) : Prop :=
  w.ready i = some .connecting ∨ w.ready i = some .opened

instance (w : Worker) (i : ℕ) : Decidable (w.Live i) := inferInstanceAs (Decidable (_ ∨ _))

/-- There is at most one live socket, and a reconnect timer is pending only while
the current socket is closed. -/
structure Safe (w : Worker) : Prop where
  one : ∀ i j, w.Live i → w.Live j → i = j
  timer : w.reconnectTimer ≠ none → ∀ i, w.socket = some i → w.ready i = some .closed

/-- An event tears a live socket down only if it is a `CONNECT` or `DISCONNECT`
message, or the socket closes itself. -/
def Spares (valid : String → Bool) (w : Worker) (e : Event) : Prop :=
  ∀ i, w.Live i → ¬ (step valid w e).Live i →
    (∃ url, e = .connect (some url)) ∨ e = .disconnect ∨ e = .closing i ∨ e = .closed i

/-- No `CONNECT` to an address that makes a socket while a reconnect timer is
pending. -/
def Timely (valid : String → Bool) (w : Worker) (e : Event) : Prop :=
  ∀ url, e = .connect (some url) → url ≠ "" → valid url = true → w.reconnectTimer = none

/-! ## What the pieces of the handlers leave -/

variable {valid : String → Bool} {w w' : Worker} {i j : ℕ} {e : Event}

theorem ready_setReady (w : Worker) (i j : ℕ) (state : ReadyState) :
    (w.setReady i state).ready j =
      if j = i then (w.ready i).map fun _ => state else w.ready j := by
  unfold ready setReady
  dsimp only
  by_cases hj : j = i
  · subst hj
    rw [Function.update_self, if_pos rfl, Option.map_map, Option.map_map]
    rfl
  · rw [Function.update_of_ne hj, if_neg hj]

/-- The sockets, the generation and the timer are what they were. -/
structure Quiet (w w' : Worker) : Prop where
  socket : w'.socket = w.socket
  generation : w'.socketGeneration = w.socketGeneration
  sockets : w'.sockets = w.sockets
  created : w'.created = w.created
  timer : w'.reconnectTimer = w.reconnectTimer

theorem Quiet.refl (w : Worker) : Quiet w w := ⟨rfl, rfl, rfl, rfl, rfl⟩

theorem Quiet.trans {w'' : Worker} (h : Quiet w w') (h' : Quiet w' w'') : Quiet w w'' where
  socket := h'.socket.trans h.socket
  generation := h'.generation.trans h.generation
  sockets := h'.sockets.trans h.sockets
  created := h'.created.trans h.created
  timer := h'.timer.trans h.timer

/-- The live sockets are the same ones. -/
theorem Quiet.live (h : Quiet w w') : w'.Live i ↔ w.Live i := by
  unfold Live ready
  rw [h.sockets]

theorem quiet_post (w : Worker) (message : Post) : Quiet w (w.post message) :=
  ⟨rfl, rfl, rfl, rfl, rfl⟩

theorem quiet_send (w : Worker) (frame : Frame) : Quiet w (w.send frame) := by
  unfold send
  split
  · exact .refl w
  · split
    · exact ⟨rfl, rfl, rfl, rfl, rfl⟩
    · exact .refl w

theorem quiet_sendRoute (w : Worker) (route : String) : Quiet w (w.sendRoute route) :=
  have hset : Quiet w { w with currentRoute := route } := ⟨rfl, rfl, rfl, rfl, rfl⟩
  hset.trans (quiet_send _ _)

theorem quiet_flushCommands (w : Worker) : Quiet w w.flushCommands := by
  unfold flushCommands
  generalize w.pendingCommands = commands
  induction commands generalizing w with
  | nil => exact .refl w
  | cons command commands ih => exact (quiet_send w _).trans (ih _)

theorem quiet_onCommand (w : Worker) (command : Option Command) :
    Quiet w (w.onCommand command) := by
  cases command with
  | none => exact quiet_post w _
  | some command =>
    have hqueue : Quiet w (w.queueCommand command) := ⟨rfl, rfl, rfl, rfl, rfl⟩
    exact hqueue.trans (quiet_send _ _)

theorem quiet_onOpen (w : Worker) (i : ℕ) : Quiet w (w.onOpen i) := by
  unfold onOpen
  split
  · have hreset : Quiet w ({ w with reconnectAttempts := 0 }.post .online) :=
      ⟨rfl, rfl, rfl, rfl, rfl⟩
    dsimp only
    split
    · exact hreset.trans (quiet_flushCommands _)
    · exact (hreset.trans (quiet_sendRoute _ _)).trans (quiet_flushCommands _)
  · exact .refl w

theorem quiet_onError (w : Worker) (i : ℕ) (error : String) : Quiet w (w.onError i error) := by
  unfold onError
  split
  · exact quiet_post w _
  · exact .refl w

/-! ## The invariant -/

/-- Every socket but the current one is of an older generation and is not live; the
current one has the generation of the worker, and is closed if a timer is pending. -/
structure Inv (w : Worker) : Prop where
  made : ∀ i, w.created ≤ i → w.sockets i = none
  current : ∀ i, w.socket = some i →
    ∃ s, w.sockets i = some s ∧ s.generation = w.socketGeneration
  behind : ∀ i s, w.sockets i = some s → w.socket ≠ some i →
    s.generation < w.socketGeneration ∧ ¬ w.Live i
  timer : w.reconnectTimer ≠ none → ∀ i, w.socket = some i → w.ready i = some .closed

theorem inv_new : Inv new where
  made := fun _ _ => rfl
  current := by
    intro i hi
    cases hi
  behind := by
    intro i s hs
    cases hs
  timer := fun h => absurd rfl h

theorem Live.exists (h : w.Live i) : ∃ s, w.sockets i = some s := by
  cases hs : w.sockets i with
  | none =>
    unfold Live ready at h
    rw [hs] at h
    rcases h with h | h <;> cases h
  | some s => exact ⟨s, rfl⟩

/-- A closed socket is not live. -/
theorem not_live_of_closed (h : w.ready i = some .closed) : ¬ w.Live i := by
  unfold Live
  rw [h]
  decide

namespace Inv

/-- Only the current socket is live. -/
theorem live (h : Inv w) (hi : w.Live i) : w.socket = some i := by
  obtain ⟨s, hs⟩ := hi.exists
  by_contra hne
  exact (h.behind i s hs hne).2 hi

/-- Under the invariant at most one socket is live, and it is the current one. -/
theorem safe (h : Inv w) : Safe w where
  one := fun _ _ hi hj => Option.some.inj ((h.live hi).symm.trans (h.live hj))
  timer := h.timer

/-- What touches no socket keeps the invariant. -/
theorem quiet (h : Inv w) (hq : Quiet w w') : Inv w' where
  made := by
    rw [hq.created, hq.sockets]
    exact h.made
  current := by
    rw [hq.socket, hq.sockets, hq.generation]
    exact h.current
  behind := by
    intro i s hs hne
    rw [hq.sockets] at hs
    rw [hq.socket] at hne
    rw [hq.generation, hq.live]
    exact h.behind i s hs hne
  timer := by
    unfold ready
    rw [hq.timer, hq.socket, hq.sockets]
    exact h.timer

/-- The browser moves a socket that is current on, or one that is not to a state
that is not live. -/
theorem setReady (h : Inv w) {state : ReadyState}
    (hlive : w.socket ≠ some i → state ≠ .connecting ∧ state ≠ .opened)
    (htimer : w.reconnectTimer ≠ none → w.socket = some i → state = .closed) :
    Inv (w.setReady i state) where
  made := by
    intro k hk
    show Function.update w.sockets i _ k = none
    by_cases hki : k = i
    · rw [hki, Function.update_self, ← hki, h.made k hk]
      rfl
    · rw [Function.update_of_ne hki]
      exact h.made k hk
  current := by
    intro k hk
    obtain ⟨s, hs, hgen⟩ := h.current k hk
    show ∃ s, Function.update w.sockets i _ k = some s ∧ _
    by_cases hki : k = i
    · rw [hki, Function.update_self, ← hki, hs]
      exact ⟨_, rfl, hgen⟩
    · rw [Function.update_of_ne hki]
      exact ⟨s, hs, hgen⟩
  behind := by
    intro k s hs hne
    have hs' : Function.update w.sockets i
        ((w.sockets i).map fun s => { s with readyState := state }) k = some s := hs
    unfold Live
    rw [ready_setReady]
    by_cases hki : k = i
    · subst hki
      rw [Function.update_self] at hs'
      obtain ⟨s0, hs0, rfl⟩ := Option.map_eq_some_iff.mp hs'
      -- the socket that moves is not current, so its new state is not live
      obtain ⟨h1, h2⟩ := hlive hne
      refine ⟨(h.behind k s0 hs0 hne).1, ?_⟩
      rw [if_pos rfl, ready, hs0]
      simp [h1, h2]
    · rw [Function.update_of_ne hki] at hs'
      rw [if_neg hki]
      exact h.behind k s hs' hne
  timer := by
    intro hpending k hk
    rw [ready_setReady]
    by_cases hki : k = i
    · subst hki
      obtain ⟨s, hs, -⟩ := h.current k hk
      rw [if_pos rfl, ready, hs, htimer hpending hk]
      rfl
    · rw [if_neg hki]
      exact h.timer hpending k hk

/-- The timer is set or cleared while the current socket, if any, is closed. -/
theorem withTimer (h : Inv w) (hclosed : ∀ i, w.socket = some i → w.ready i = some .closed)
    (timer : Option ℕ) : Inv { w with reconnectTimer := timer } where
  made := h.made
  current := h.current
  behind := h.behind
  timer := fun _ => hclosed

theorem clearTimer (h : Inv w) : Inv { w with reconnectTimer := none } where
  made := h.made
  current := h.current
  behind := h.behind
  timer := fun hne => absurd rfl hne

/-- The socket whose events are not stale is the current one. -/
theorem of_current (h : Inv w) (hi : w.current i = true) : w.socket = some i := by
  unfold Worker.current at hi
  obtain ⟨s, hs, hgen⟩ := (Option.any_eq_true _ _).mp hi
  by_contra hne
  exact (h.behind i s hs hne).1.ne (of_decide_eq_true hgen)

/-- A socket that closed sets the timer if it is the current one. -/
theorem onClose (h : Inv w) (hi : w.ready i = some .closed) : Inv (w.onClose i) := by
  unfold Worker.onClose
  split
  · rename_i hcur
    have hpost := h.quiet (quiet_post w .offline)
    have hclosed : ∀ k, (w.post .offline).socket = some k →
        (w.post .offline).ready k = some .closed := by
      intro k hk
      obtain rfl : i = k := Option.some.inj ((h.of_current hcur).symm.trans hk)
      exact hi
    unfold scheduleReconnect
    split
    · exact hpost
    · exact hpost.withTimer hclosed _
  · exact h

end Inv

/-! ## Tearing down and connecting -/

/-- No socket is current, and none is live. -/
structure Down (w : Worker) : Prop where
  made : ∀ i, w.created ≤ i → w.sockets i = none
  socket : w.socket = none
  behind : ∀ i s, w.sockets i = some s → s.generation < w.socketGeneration ∧ ¬ w.Live i

/-- Without a current socket the rest of the invariant holds by itself. -/
theorem Down.inv (h : Down w) : Inv w where
  made := h.made
  current := by
    intro i hi
    rw [h.socket] at hi
    cases hi
  behind := fun i s hs _ => h.behind i s hs
  timer := by
    intro _ i hi
    rw [h.socket] at hi
    cases hi

/-- No socket is of a later generation than the worker. -/
theorem Inv.generation_le (h : Inv w) {s : Socket} (hs : w.sockets i = some s) :
    s.generation ≤ w.socketGeneration := by
  by_cases hi : w.socket = some i
  · obtain ⟨s', hs', hgen⟩ := h.current i hi
    obtain rfl : s = s' := Option.some.inj (hs.symm.trans hs')
    exact hgen.le
  · exact (h.behind i s hs hi).1.le

/-- Moving a socket on changes no generation. -/
theorem sockets_setReady {s' : Socket} {state : ReadyState}
    (h : (w.setReady j state).sockets i = some s') :
    ∃ s, w.sockets i = some s ∧ s'.generation = s.generation := by
  have h' : Function.update w.sockets j
      ((w.sockets j).map fun s => { s with readyState := state }) i = some s' := h
  by_cases hij : i = j
  · subst hij
    rw [Function.update_self] at h'
    obtain ⟨s, hs, rfl⟩ := Option.map_eq_some_iff.mp h'
    exact ⟨s, hs, rfl⟩
  · rw [Function.update_of_ne hij] at h'
    exact ⟨s', h', rfl⟩

/-- A teardown leaves no current socket, and none that is live. -/
theorem Inv.teardown (h : Inv w) : Down w.teardownSocket := by
  unfold teardownSocket closeSocket
  dsimp only
  cases hsocket : w.socket with
  | none =>
    refine ⟨h.made, rfl, fun i s hs => ⟨Nat.lt_succ_of_le (h.generation_le hs), fun hi => ?_⟩⟩
    have hcur := h.live (i := i) hi
    rw [hsocket] at hcur
    cases hcur
  | some k =>
    dsimp only
    -- nothing but the current socket is live
    have honly : ∀ i, w.Live i → i = k := fun i hi =>
      Option.some.inj ((h.live hi).symm.trans hsocket)
    split
    case isTrue =>
      have hset : Inv (({ w with reconnectTimer := none } : Worker).setReady k .closing) :=
        h.clearTimer.setReady (fun hne => absurd hsocket hne) fun hne => absurd rfl hne
      refine ⟨hset.made, rfl, fun i s hs => ?_⟩
      have hs' : (w.setReady k .closing).sockets i = some s := hs
      obtain ⟨s0, hs0, hgen⟩ := sockets_setReady hs'
      refine ⟨?_, fun hi => ?_⟩
      · rw [hgen]
        exact Nat.lt_succ_of_le (h.generation_le hs0)
      · have hi' : (w.setReady k .closing).Live i := hi
        unfold Live at hi'
        rw [ready_setReady] at hi'
        by_cases hik : i = k
        · subst hik
          rw [if_pos rfl, ready, hs0] at hi'
          rcases hi' with hi' | hi' <;> cases hi'
        · rw [if_neg hik] at hi'
          exact hik (honly i hi')
    case isFalse hidle =>
      refine ⟨h.made, rfl, fun i s hs => ⟨Nat.lt_succ_of_le (h.generation_le hs), fun hi => ?_⟩⟩
      have hi' : w.Live i := hi
      obtain rfl := honly i hi'
      exact hidle hi'.symm

theorem timer_teardown (w : Worker) : w.teardownSocket.reconnectTimer = w.reconnectTimer := by
  unfold teardownSocket closeSocket
  dsimp only
  split
  · rfl
  · split <;> rfl

/-- A new socket is the current one, and connecting. -/
theorem Down.make (h : Down w) (htimer : w.reconnectTimer = none) (url : String) :
    Inv { w with
      connectUrl := url
      socket := some w.created
      sockets := Function.update w.sockets w.created
        (some { url := url, generation := w.socketGeneration, readyState := .connecting })
      created := w.created + 1 } where
  made := by
    intro i hi
    show Function.update w.sockets w.created _ i = none
    have hne : i ≠ w.created := (Nat.lt_of_succ_le hi).ne'
    rw [Function.update_of_ne hne]
    exact h.made i (Nat.le_of_succ_le hi)
  current := by
    rintro i ⟨⟩
    exact ⟨_, Function.update_self .., rfl⟩
  behind := by
    intro i s hs hne
    have hi : i ≠ w.created := fun heq => hne (congrArg some heq.symm)
    have hs' : Function.update w.sockets w.created _ i = some s := hs
    rw [Function.update_of_ne hi] at hs'
    unfold Live ready
    dsimp only
    rw [Function.update_of_ne hi]
    exact h.behind i s hs'
  timer := fun hne => absurd htimer hne

/-- `connect` keeps the invariant while no timer is pending. -/
theorem Inv.connect (h : Inv w) (url : String)
    (htimer : url ≠ "" → valid url = true → w.reconnectTimer = none) :
    Inv (w.connect valid url) := by
  unfold Worker.connect
  split
  · exact h
  · rename_i hurl
    dsimp only
    split
    · rename_i hvalid
      exact h.teardown.make ((timer_teardown w).trans (htimer hurl hvalid)) url
    · exact h.teardown.inv.quiet ⟨rfl, rfl, rfl, rfl, rfl⟩

/-! ## Runs -/

/-- Every timely event keeps the invariant. -/
theorem inv_step (h : Inv w) (hok : Timely valid w e) : Inv (step valid w e) := by
  cases e with
  | connect url =>
    cases url with
    | none => exact h
    | some url => exact h.connect url (hok url rfl)
  | disconnect =>
    have hclear : Inv { w with
        reconnectTimer := none, reconnectAttempts := 0, pendingCommands := [] } :=
      h.clearTimer.quiet ⟨rfl, rfl, rfl, rfl, rfl⟩
    exact hclear.teardown.inv
  | focus symbol => exact h.quiet (quiet_send w _)
  | route route => exact h.quiet (quiet_sendRoute w _)
  | positionExit symbol => exact h.quiet (quiet_send w _)
  | command command => exact h.quiet (quiet_onCommand w command)
  | timer =>
    dsimp only [step]
    split
    · have hfire : Inv { w with
          reconnectTimer := none, reconnectAttempts := w.reconnectAttempts + 1 } :=
        h.clearTimer.quiet ⟨rfl, rfl, rfl, rfl, rfl⟩
      exact hfire.connect w.connectUrl fun _ _ => rfl
    · exact h
  | opened i =>
    dsimp only [step]
    split
    · rename_i hi
      -- a live socket is the one at hand, and none of those has a timer pending
      have hcur := h.live (.inl hi)
      refine (h.setReady (fun hne => absurd hcur hne) fun hpending _ => ?_).quiet
        (quiet_onOpen _ i)
      have := h.timer hpending i hcur
      rw [hi] at this
      cases this
    · exact h
  | closing i =>
    dsimp only [step]
    split
    · rename_i hi
      have hcur := h.live hi
      refine h.setReady (fun hne => absurd hcur hne) fun hpending _ => ?_
      exact absurd hi (not_live_of_closed (h.timer hpending i hcur))
    · exact h
  | closed i =>
    dsimp only [step]
    split
    · rename_i hi
      have hset : Inv (w.setReady i .closed) :=
        h.setReady (fun _ => by decide) fun _ _ => rfl
      refine hset.onClose ?_
      rw [ready_setReady, if_pos rfl]
      cases hready : w.ready i with
      | none =>
        rw [hready] at hi
        cases hi
      | some state => rfl
    · exact h
  | error i error => exact h.quiet (quiet_onError w i error)

theorem sockets_onClose (w : Worker) (i : ℕ) : (w.onClose i).sockets = w.sockets := by
  unfold onClose scheduleReconnect
  split
  · split <;> rfl
  · rfl

/-- A live socket that is moved on is either the one moved or still live. -/
theorem Live.setReady {state : ReadyState} (h : w.Live i) (hij : i ≠ j) :
    (w.setReady j state).Live i := by
  unfold Live
  rw [ready_setReady, if_neg hij]
  exact h

/-- Where the invariant holds the timer finds no live socket. -/
theorem Inv.spares (h : Inv w) (e : Event) : Spares valid w e := by
  intro i hi hdead
  cases e with
  | connect url =>
    cases url with
    | none => exact absurd hi hdead
    | some url => exact .inl ⟨url, rfl⟩
  | disconnect => exact .inr (.inl rfl)
  | focus symbol => exact absurd ((quiet_send w _).live.mpr hi) hdead
  | route route => exact absurd ((quiet_sendRoute w _).live.mpr hi) hdead
  | positionExit symbol => exact absurd ((quiet_send w _).live.mpr hi) hdead
  | command command => exact absurd ((quiet_onCommand w command).live.mpr hi) hdead
  | timer =>
    dsimp only [step] at hdead
    split at hdead
    · rename_i hpending
      -- a pending timer means that the socket at hand is closed
      have hclosed := h.timer (Option.isSome_iff_ne_none.mp hpending) i (h.live hi)
      exact absurd hi (not_live_of_closed hclosed)
    · exact absurd hi hdead
  | opened j =>
    dsimp only [step] at hdead
    split at hdead
    · rename_i hj
      rw [(quiet_onOpen _ j).live] at hdead
      refine absurd ?_ hdead
      by_cases hij : i = j
      · subst hij
        unfold Live
        rw [ready_setReady, if_pos rfl, hj]
        exact .inr rfl
      · exact hi.setReady hij
    · exact absurd hi hdead
  | closing j =>
    by_cases hij : i = j
    · exact .inr (.inr (.inl (congrArg _ hij.symm)))
    · dsimp only [step] at hdead
      split at hdead
      · exact absurd (hi.setReady hij) hdead
      · exact absurd hi hdead
  | closed j =>
    by_cases hij : i = j
    · exact .inr (.inr (.inr (congrArg _ hij.symm)))
    · dsimp only [step] at hdead
      split at hdead
      · refine absurd ?_ hdead
        unfold Live ready
        rw [sockets_onClose]
        exact hi.setReady hij
      · exact absurd hi hdead
  | error j error => exact absurd ((quiet_onError w j error).live.mpr hi) hdead

/-- A `CONNECT` while a timer is pending leaves the timer behind a live socket. -/
theorem not_safe_of_late (h : ¬ Timely valid w e) : ¬ Safe (step valid w e) := by
  unfold Timely at h
  push Not at h
  obtain ⟨url, rfl, hurl, hvalid, hpending⟩ := h
  intro hsafe
  have hstep : step valid w (.connect (some url)) = { w.teardownSocket with
      connectUrl := url
      socket := some w.teardownSocket.created
      sockets := Function.update w.teardownSocket.sockets w.teardownSocket.created
        (some { url := url, generation := w.teardownSocket.socketGeneration,
                readyState := .connecting })
      created := w.teardownSocket.created + 1 } := by
    show w.connect valid url = _
    unfold connect
    rw [if_neg hurl]
    dsimp only
    rw [if_pos hvalid]
  rw [hstep] at hsafe
  have hclosed := hsafe.timer (by
    show w.teardownSocket.reconnectTimer ≠ none
    rw [timer_teardown]
    exact hpending) _ rfl
  unfold ready at hclosed
  dsimp only at hclosed
  rw [Function.update_self] at hclosed
  cases hclosed

/-- Along a run there is never more than one live socket, a timer is pending only
while the current socket is closed, and no timer tears a live socket down, exactly
if no `CONNECT` that makes a socket is handled while a timer is pending. -/
theorem reconnect_safe_iff (valid : String → Bool) (events : List Event) :
    (Everywhere (step valid) Safe new events ∧ Along (step valid) (Spares valid) new events) ↔
      Along (step valid) (Timely valid) new events := by
  have hiff : Everywhere (step valid) Safe new events ↔
      Along (step valid) (Timely valid) new events :=
    everywhere_iff_of_inv (fun _ _ h hok => inv_step h hok) (fun _ h => h.safe)
      (fun _ _ _ hlate => not_safe_of_late hlate) inv_new events
  refine ⟨fun h => hiff.mp h.1, fun h => ⟨hiff.mpr h, ?_⟩⟩
  exact along_of_inv (fun _ _ h hok => inv_step h hok) (fun _ e h _ => h.spares e) inv_new h

/-- The user connects again while the timer is pending; the new socket opens, and
the timer closes it. -/
theorem timer_kills_open :
    ¬ ∀ events, Everywhere (step fun _ => true) Safe new events ∧
      Along (step fun _ => true) (Spares fun _ => true) new events := by
  intro h
  obtain ⟨-, -, -, -, -, hspares, -⟩ := h
    [.connect (some "ws://hub/ws"), .closed 0, .connect (some "ws://hub/ws"), .opened 1, .timer]
  rcases hspares 1 (by decide) (by decide) with ⟨url, hurl⟩ | hurl | hurl | hurl <;> cases hurl

end Worker

end Symm.Ui.SocketWorker
