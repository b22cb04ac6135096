import Symm.Network.Websocket

/-!
# Traffic on resubscribed connections (`network/websocket.go`)

A client redials by itself, and a dial is of use only once the reconnect hook has
subscribed again. Both hooks are the owner's code and may call the client, also
while a call of the client waits for them; `Call` therefore holds, beside what the
network does, the calls that its hooks make. Only `Read` recovers from a panic;
any other ends the run.

- `Client`, `World`: the client, and the record of what has happened;
- `softDown`, `runHook`, `dialLocked`, `ensureReady`, `read`, `write`, `ping`,
  `open`: the calls, over what the hooks do;
- `Call.run`, `runCalls`: runs, with hooks that run in turn;
- `Logged`, `AtHand`: what every call keeps.

`runtime.System` is not part of the repository: `transition` says what status a
transition leaves behind. Times are in nanoseconds; only the log reads the clock.

The log is the record that the theorems are about: an entry for each dial with the hooks
it had, for each frame that is read or written with the connection that carried it, and
for each status. `Sound` says of an entry what must stand before it; that a whole log is
sound is the invariant, so that a statement about traffic is one about an entry and its
past.

Hooks call the client, which runs hooks: `Call` is a tree, and every lemma is proved for
the calls below a hook first.
-/

namespace Symm.Network

/-! ## The client -/

/-- `runtime.Status`, with those that the client does not name. -/
inductive Status
  | ready | waiting | error | busy
  | other (code : ℕ)
  deriving DecidableEq

/-- What a call returns besides nil. -/
inductive ClientError
  | validation (message : String)
  | io (message : String)
  | readPanic
  /-- The error of the client's context. -/
  | context
  /-- An error of the socket. -/
  | socket
  deriving DecidableEq

/-- How a call ends. -/
inductive Outcome
  | nil
  | err (err : ClientError)
  | panic
  deriving DecidableEq

/-- `WebsocketClient`. A connection is the number of its dial, a reconnect hook
its name. -/
structure Client where
  conn : Option ℕ
  status : Status
  url : String
  backoff : ℕ
  hookBackoff : ℕ
  onReconnect : Option ℕ
  onDisconnect : Bool
  deriving DecidableEq

def second : ℕ := 1000000000

/-- `NewWebsocketClient`, over a new system in this status. -/
def Client.new (initial : Status) : Client := ⟨none, initial, "", second, 0, none, false⟩

/-- What happens to a client. -/
inductive Entry
  /-- A connection, and the reconnect hook that was registered then. -/
  | dialed (conn : ℕ) (hook : Option ℕ)
  /-- The hook of this connection returned nil. -/
  | returned (hook conn : ℕ)
  /-- A hook failed, and left the client so. -/
  | failed (client : Client)
  /-- `Read` or `Write` used the connection, inside so many reconnect hooks. -/
  | touched (conn depth : ℕ)
  /-- `SoftDown` gave the connection up. -/
  | lost
  | became (status : Status)
  | waited (time : ℕ)
  deriving DecidableEq

/-- The client, the number of dials, the reconnect hooks that run, and the record
of what has happened, newest first. -/
structure World where
  client : Client
  dials : ℕ
  depth : ℕ
  log : List Entry
  deriving DecidableEq

/-- Code that calls the client. -/
abbrev Run := World → World × Outcome

/-- Whether the context is done before or during the wait. -/
structure Waits where
  done : Bool
  cancelled : Bool

/-- What the socket does to `Read`. -/
inductive SocketRead
  | deadline | failed | panicked | message

namespace World

def new (initial : Status) : World := ⟨Client.new initial, 0, 0, []⟩

def note (entry : Entry) (w : World) : World := { w with log := entry :: w.log }

/-- `closeConnLocked`. -/
def closeConnLocked (w : World) : World := { w with client := { w.client with conn := none } }

/-- The backoff after a failed hook or a lost connection. -/
def growHookBackoff (w : World) : World :=
  { w with client := { w.client with
    hookBackoff := min (max (2 * w.client.hookBackoff) second) (30 * second) } }

section Calls

variable (transition : Status → Status → Status)

/-- `Transition`. -/
def become (target : Status) (w : World) : World :=
  let status := transition w.client.status target
  { w with client := { w.client with status := status }, log := .became status :: w.log }

/-- The switch of `SoftDown` and of `runHook`. -/
def toWaiting (w : World) : World :=
  match w.client.status with
  | .ready | .error | .busy => w.become transition .waiting
  | _ => w

/-- `SoftDown`; `drop` is the disconnect hook. -/
def softDown (cause : ClientError) (drop : Run) (w : World) : World × Outcome :=
  let wasLive := w.client.conn.isSome
  let hook := w.client.onDisconnect
  let w := (w.closeConnLocked.toWaiting transition).growHookBackoff.note .lost
  if wasLive ∧ hook then
    match drop w with
    | (w, .panic) => (w, .panic)
    | (w, _) => (w, .err cause)
  else (w, .err cause)

/-- `dialLocked`, with the connection it dialed. -/
def dialLocked (accepted : Bool) (w : World) : World × Except ClientError ℕ :=
  if w.client.url = "" then (w, .error (.validation "[network.websocket] url is required"))
  else
    let w := w.closeConnLocked
    if accepted then
      let dialed := w.dials
      let w := { w with
        client := { w.client with conn := some dialed, backoff := second }
        dials := dialed + 1
        log := .dialed dialed w.client.onReconnect :: w.log }
      (w.become transition .ready, .ok dialed)
    else (w.become transition .waiting, .error (.io "[network.websocket] error dialing url"))

/-- `runHook`, for the connection that was just dialed; `body` is what the hook
does with the client, and `ok` says that it returns nil. -/
def runHook (dialed : ℕ) (hook : Option ℕ) (body : Run) (ok : Bool) (w : World) :
    World × Outcome :=
  match hook with
  | none => (w, .nil)
  | some hook =>
    let (w, outcome) := body { w with depth := w.depth + 1 }
    let w := { w with depth := w.depth - 1 }
    if outcome = .panic then (w, .panic)
    else if ok then
      let w := w.note (.returned hook dialed)
      ({ w with client := { w.client with hookBackoff := 0 } }, .nil)
    else
      let w := (w.closeConnLocked.toWaiting transition).growHookBackoff
      (w.note (.failed w.client), .err (.io "[network.websocket] reconnect hook failed"))

/-- `Open`. -/
def «open» (url : String) (accepted : Bool) (hook : Run) (ok : Bool) (w : World) :
    World × Outcome :=
  let w := { w with client := { w.client with url := url } }
  match w.dialLocked transition accepted with
  | (w, .error err) => (w, .err err)
  | (w, .ok dialed) => w.runHook transition dialed w.client.onReconnect hook ok

/-- `ensureReady`. -/
def ensureReady (waits : Waits) (accepted : Bool) (hook : Run) (ok : Bool) (w : World) :
    World × Outcome :=
  if waits.done then (w, .err .context)
  else if w.client.status = .ready ∧ w.client.conn.isSome then (w, .nil)
  else if w.client.url = "" then (w, .err (.validation "[network.websocket] not open"))
  else
    let wait := min (max (max w.client.backoff w.client.hookBackoff) second) (30 * second)
    let w := w.note (.waited wait)
    if waits.cancelled then (w, .err .context)
    else if w.client.status = .ready ∧ w.client.conn.isSome then (w, .nil)
    else
      match w.dialLocked transition accepted with
      | (w, .error err) =>
        let backoff := w.client.backoff
        ({ w with client := { w.client with
          backoff := if backoff < 30 * second then min (2 * backoff) (30 * second)
            else backoff } }, .err err)
      | (w, .ok dialed) => w.runHook transition dialed w.client.onReconnect hook ok

/-- `Read`, without its deferred function. -/
def receive (waits : Waits) (accepted : Bool) (hook : Run) (ok : Bool) (socket : SocketRead)
    (drop : Run) (w : World) : World × Outcome :=
  match w.ensureReady transition waits accepted hook ok with
  | (w, .nil) =>
    match w.client.conn with
    | none => w.softDown transition (.io "[network.websocket] connection missing") drop
    | some conn =>
      let w := w.note (.touched conn w.depth)
      match socket with
      | .deadline =>
        w.softDown transition (.io "[network.websocket] read deadline reset failed") drop
      | .failed => w.softDown transition .socket drop
      | .panicked => (w, .panic)
      | .message => (w, .nil)
  | result => result

/-- `Read`. A panic is recovered, and takes the client down. -/
def read (waits : Waits) (accepted : Bool) (hook : Run) (ok : Bool) (socket : SocketRead)
    (drop recovery : Run) (w : World) : World × Outcome :=
  match w.receive transition waits accepted hook ok socket drop with
  | (w, .panic) => w.softDown transition .readPanic recovery
  | result => result

/-- `Write`. -/
def write (waits : Waits) (accepted : Bool) (hook : Run) (ok : Bool) (sent : Bool) (drop : Run)
    (w : World) : World × Outcome :=
  match w.ensureReady transition waits accepted hook ok with
  | (w, .nil) =>
    match w.client.conn with
    | none => w.softDown transition (.io "[network.websocket] connection missing") drop
    | some conn =>
      let w := w.note (.touched conn w.depth)
      if sent then (w, .nil) else w.softDown transition .socket drop
  | result => result

/-- `writePing`. -/
def writePing (sent : Bool) (drop : Run) (w : World) : World × Outcome :=
  if w.client.status ≠ .ready ∨ w.client.conn = none then
    (w, .err (.io "[network.websocket] not ready for ping"))
  else if sent then (w, .nil)
  else w.softDown transition (.io "[network.websocket] ping failed") drop

end Calls

end World

/-! ## Runs -/

/-- A call of the client, what the network does to it, and the calls that the
hooks make meanwhile. -/
inductive Call
  | «open» (url : String) (accepted : Bool) (hook : List Call) (ok : Bool)
  | read (waits : Waits) (accepted : Bool) (hook : List Call) (ok : Bool) (socket : SocketRead)
      (drop recovery : List Call)
  | write (waits : Waits) (accepted : Bool) (hook : List Call) (ok : Bool) (sent : Bool)
      (drop : List Call)
  | softDown (cause : ClientError) (drop : List Call)
  | ping (sent : Bool) (drop : List Call)
  | onReconnect (hook : Option ℕ)
  | onDisconnect (registered : Bool)
  /-- The code that calls the client panics. -/
  | panic

mutual

/-- One call. -/
def Call.run (transition : Status → Status → Status) : Call → Run
  | .open url accepted hook ok => World.open transition url accepted (runCalls transition hook) ok
  | .read waits accepted hook ok socket drop recovery =>
    World.read transition waits accepted (runCalls transition hook) ok socket
      (runCalls transition drop) (runCalls transition recovery)
  | .write waits accepted hook ok sent drop =>
    World.write transition waits accepted (runCalls transition hook) ok sent
      (runCalls transition drop)
  | .softDown cause drop => World.softDown transition cause (runCalls transition drop)
  | .ping sent drop => World.writePing transition sent (runCalls transition drop)
  | .onReconnect hook => fun w => ({ w with client := { w.client with onReconnect := hook } }, .nil)
  | .onDisconnect registered =>
    fun w => ({ w with client := { w.client with onDisconnect := registered } }, .nil)
  | .panic => fun w => (w, .panic)

/-- Calls one after the other, whatever they return. -/
def runCalls (transition : Status → Status → Status) : List Call → Run
  | [] => fun w => (w, .nil)
  | call :: rest => fun w =>
    match call.run transition w with
    | (w, .panic) => (w, .panic)
    | (w, _) => runCalls transition rest w

end

/-! ## What the record says -/

/-- The connection was dialed, and the hook that was registered then has returned
nil on it. -/
def Cleared (log : List Entry) (conn : ℕ) : Prop :=
  (∃ hook, .dialed conn hook ∈ log) ∧
    ∀ hook, .dialed conn (some hook) ∈ log → .returned hook conn ∈ log

/-- What an entry has to say, after older ones. -/
def Entry.Sound (initial : Status) (older : List Entry) : Entry → Prop
  | .touched conn depth => depth = 0 → Cleared older conn
  | .failed client => client.conn = none ∧ client.status ≠ .ready
  | .became status => initial ≠ .error → status ≠ .error
  | _ => True

/-- Every entry says it. -/
def Sound (initial : Status) : List Entry → Prop
  | [] => True
  | entry :: older => entry.Sound initial older ∧ Sound initial older

/-- Each entry of a sound log is sound over those before it. -/
theorem Sound.of_append {initial : Status} {newer older : List Entry} {entry : Entry}
    (h : Sound initial (newer ++ entry :: older)) : entry.Sound initial older := by
  induction newer with
  | nil => exact h.1
  | cons _ newer ih => exact ih h.2

/-- What is documented of `Transition`: it leaves the status it is asked for or
the one it found, and a READY system can be told to wait. -/
structure Transitions (transition : Status → Status → Status) : Prop where
  either : ∀ status target, transition status target = target ∨ transition status target = status
  waits : transition .ready .waiting = .waiting

theorem Transitions.waiting_ne_ready {transition : Status → Status → Status}
    (ht : Transitions transition) (status : Status) : transition status .waiting ≠ .ready := by
  rcases eq_or_ne status .ready with rfl | hne
  · rw [ht.waits]
    nofun
  · rcases ht.either status .waiting with heq | heq
    · rw [heq]
      nofun
    · rw [heq]
      exact hne

/-- The record is sound, every connection in it was dialed once, and the status is
not ERROR. -/
structure Logged (initial : Status) (w : World) : Prop where
  sound : Sound initial w.log
  fresh : ∀ conn hook, .dialed conn hook ∈ w.log → conn < w.dials
  once : ∀ conn hook hook', .dialed conn hook ∈ w.log → .dialed conn hook' ∈ w.log → hook = hook'
  calm : initial ≠ .error → w.client.status ≠ .error

/-- The connection at hand is cleared, or its own hook is running. -/
def AtHand (own : Option ℕ) (w : World) : Prop :=
  ∀ conn, w.client.conn = some conn → Cleared w.log conn ∨ own = some conn

/-- Outside every hook no connection has its hook running. -/
def Outside (own : Option ℕ) (w : World) : Prop := w.depth = 0 → own = none

/-- What every step leaves, also one that ends in a panic. -/
structure Onward (initial : Status) (w w' : World) : Prop where
  logged : Logged initial w'
  depth : w'.depth = w.depth
  grows : ∀ entry ∈ w.log, entry ∈ w'.log

/-- What every call leaves. -/
structure Kept (initial : Status) (own : Option ℕ) (w : World) (result : World × Outcome) :
    Prop where
  onward : Onward initial w result.1
  atHand : result.2 ≠ .panic → AtHand own result.1

/-- Code that keeps the record sound, whosever hook it runs in. -/
def Keeps (initial : Status) (run : Run) : Prop :=
  ∀ own w, Logged initial w → Outside own w → AtHand own w → Kept initial own w (run w)

section Steps

variable {transition : Status → Status → Status} {initial : Status} {own : Option ℕ}
  {w w' w'' : World}

theorem Onward.refl (h : Logged initial w) : Onward initial w w := ⟨h, rfl, fun _ he => he⟩

theorem Onward.trans (h : Onward initial w w') (h' : Onward initial w' w'') :
    Onward initial w w'' :=
  ⟨h'.logged, h'.depth.trans h.depth, fun entry he => h'.grows entry (h.grows entry he)⟩

/-- What was outside stays outside. -/
theorem Onward.outside (h : Onward initial w w') (hout : Outside own w) : Outside own w' := by
  unfold Outside
  rw [h.depth]
  exact hout

/-- A call that returns at once. -/
theorem Kept.same (h : Logged initial w) (hat : AtHand own w) (outcome : Outcome) :
    Kept initial own w (w, outcome) := ⟨.refl h, fun _ => hat⟩

/-- A call that panics answers for the record alone. -/
theorem Kept.panicked (h : Onward initial w w') : Kept initial own w (w', .panic) :=
  ⟨h, fun hpanic => absurd rfl hpanic⟩

theorem Kept.after {result : World × Outcome} (hfirst : Onward initial w w')
    (h : Kept initial own w' result) : Kept initial own w result :=
  ⟨hfirst.trans h.onward, h.atHand⟩

/-! ## Steps that dial nothing -/

/-- An entry that dials nothing leaves the cleared connections cleared. -/
theorem Cleared.cons {log : List Entry} {conn : ℕ} (h : Cleared log conn) {entry : Entry}
    (hentry : ∀ hook, entry ≠ .dialed conn hook) : Cleared (entry :: log) conn := by
  obtain ⟨⟨hook, hdialed⟩, hreturned⟩ := h
  refine ⟨⟨hook, List.mem_cons_of_mem _ hdialed⟩, fun hook' hmem => ?_⟩
  rcases List.mem_cons.mp hmem with heq | hold
  · exact absurd heq.symm (hentry (some hook'))
  · exact List.mem_cons_of_mem _ (hreturned hook' hold)

/-- An entry that says what it has to. -/
theorem Logged.cons (h : Logged initial w) {entry : Entry}
    (hsound : entry.Sound initial w.log) (hentry : ∀ conn hook, entry ≠ .dialed conn hook)
    {client : Client} (hcalm : initial ≠ .error → client.status ≠ .error) :
    Logged initial { w with client := client, log := entry :: w.log } := by
  have hold : ∀ conn hook, .dialed conn hook ∈ entry :: w.log → .dialed conn hook ∈ w.log := by
    intro conn hook hmem
    rcases List.mem_cons.mp hmem with heq | hold
    · exact absurd heq.symm (hentry conn hook)
    · exact hold
  exact ⟨⟨hsound, h.sound⟩, fun conn hook hmem => h.fresh conn hook (hold conn hook hmem),
    fun conn hook hook' hmem hmem' => h.once conn hook hook' (hold conn hook hmem)
      (hold conn hook' hmem'), hcalm⟩

/-- A change of the client that leaves its status. -/
theorem Onward.client (h : Logged initial w) {client : Client}
    (hstatus : client.status = w.client.status) :
    Onward initial w { w with client := client } :=
  ⟨⟨h.sound, h.fresh, h.once, fun hinitial => hstatus ▸ h.calm hinitial⟩, rfl, fun _ he => he⟩

theorem Onward.note (h : Logged initial w) (entry : Entry) (hsound : entry.Sound initial w.log)
    (hentry : ∀ conn hook, entry ≠ .dialed conn hook) : Onward initial w (w.note entry) :=
  ⟨h.cons hsound hentry h.calm, rfl, fun _ he => List.mem_cons_of_mem _ he⟩

/-- Only a request for ERROR leaves a system in ERROR that was not. -/
theorem Onward.become (ht : Transitions transition) (h : Logged initial w) {target : Status}
    (htarget : target ≠ .error) : Onward initial w (w.become transition target) := by
  have hcalm : initial ≠ .error → transition w.client.status target ≠ .error := by
    intro hinitial
    rcases ht.either w.client.status target with heq | heq
    · rw [heq]
      exact htarget
    · rw [heq]
      exact h.calm hinitial
  have hsound : (Entry.became (transition w.client.status target)).Sound initial w.log := hcalm
  exact ⟨h.cons hsound (fun _ _ => nofun) hcalm, rfl, fun _ he => List.mem_cons_of_mem _ he⟩

/-- Going to waiting grows the log. -/
theorem Onward.toWaiting (ht : Transitions transition) (h : Logged initial w) :
    Onward initial w (w.toWaiting transition) := by
  unfold World.toWaiting
  split
  · exact .become ht h nofun
  · exact .become ht h nofun
  · exact .become ht h nofun
  · exact .refl h

theorem toWaiting_conn (w : World) : (w.toWaiting transition).client.conn = w.client.conn := by
  unfold World.toWaiting
  split <;> rfl

/-- The switch leaves no client READY. -/
theorem toWaiting_status (ht : Transitions transition) (w : World) :
    (w.toWaiting transition).client.status ≠ .ready := by
  unfold World.toWaiting
  split
  · exact ht.waiting_ne_ready _
  · exact ht.waiting_ne_ready _
  · exact ht.waiting_ne_ready _
  · rename_i hready _ _
    exact hready

/-- Without a connection there is nothing to clear. -/
theorem AtHand.of_none (h : w.client.conn = none) : AtHand own w := by
  intro conn hconn
  rw [h] at hconn
  cases hconn

theorem AtHand.note (h : AtHand own w) (entry : Entry)
    (hentry : ∀ conn hook, entry ≠ .dialed conn hook) : AtHand own (w.note entry) :=
  fun conn hconn => (h conn hconn).imp_left fun hcleared => hcleared.cons (hentry conn)

/-- A lost connection, also one whose hook has failed. -/
theorem lost_spec (ht : Transitions transition) (h : Logged initial w) :
    Onward initial w (w.closeConnLocked.toWaiting transition).growHookBackoff ∧
      (w.closeConnLocked.toWaiting transition).growHookBackoff.client.conn = none ∧
      (w.closeConnLocked.toWaiting transition).growHookBackoff.client.status ≠ .ready := by
  have hclosed : Onward initial w w.closeConnLocked := .client h rfl
  have hwaiting := hclosed.trans (.toWaiting ht hclosed.logged)
  refine ⟨hwaiting.trans (.client hwaiting.logged rfl), ?_, toWaiting_status ht _⟩
  exact toWaiting_conn w.closeConnLocked

/-! ## Calls -/

/-- A soft down keeps the log sound, whatever its hook calls. -/
theorem softDown_kept (ht : Transitions transition) {drop : Run} (hdrop : Keeps initial drop)
    (h : Logged initial w) (hout : Outside own w) (cause : ClientError) :
    Kept initial own w (w.softDown transition cause drop) := by
  obtain ⟨hdown, hconn, -⟩ := lost_spec ht h
  have honward := hdown.trans (.note hdown.logged .lost trivial (fun _ _ => nofun))
  replace hconn : ((w.closeConnLocked.toWaiting transition).growHookBackoff.note
    .lost).client.conn = none := hconn
  unfold World.softDown
  dsimp only
  generalize (w.closeConnLocked.toWaiting transition).growHookBackoff.note .lost = lost
    at honward hconn ⊢
  split
  · have hlost : Outside own lost := by
      unfold Outside
      rw [honward.depth]
      exact hout
    have hkept := hdrop own lost honward.logged hlost (.of_none hconn)
    split
    · rename_i hrun
      rw [hrun] at hkept
      exact .panicked (honward.trans hkept.onward)
    · rename_i after outcome hnopanic hrun
      rw [hrun] at hkept
      refine ⟨honward.trans hkept.onward, fun _ => hkept.atHand ?_⟩
      rintro rfl
      exact hnopanic rfl
  · exact ⟨honward, fun _ => .of_none hconn⟩

/-- A dial that succeeds leaves a fresh connection and its hook. -/
theorem dialLocked_ok (ht : Transitions transition) (h : Logged initial w) {accepted : Bool}
    {dialed : ℕ} (hdial : w.dialLocked transition accepted = (w', .ok dialed)) :
    Onward initial w w' ∧ w'.client.conn = some dialed ∧
      .dialed dialed w'.client.onReconnect ∈ w'.log := by
  unfold World.dialLocked at hdial
  split at hdial
  · cases hdial
  · dsimp only at hdial
    split at hdial
    · cases hdial
      have hdialed : Onward initial w { w.closeConnLocked with
          client := { w.closeConnLocked.client with conn := some w.dials, backoff := second }
          dials := w.dials + 1
          log := .dialed w.dials w.client.onReconnect :: w.log } := by
        -- the number of the new connection is above those in the log, so its entry is the only
        -- one
        refine ⟨⟨⟨trivial, h.sound⟩, fun conn hook hmem => ?_, fun conn hook hook' hmem hmem' => ?_,
          h.calm⟩, rfl, fun _ he => List.mem_cons_of_mem _ he⟩
        · rcases List.mem_cons.mp hmem with heq | hold
          · cases heq
            exact Nat.lt_succ_self _
          · exact Nat.lt_succ_of_lt (h.fresh conn hook hold)
        · have hnew : ∀ hook, .dialed conn hook ∈ w.log → conn ≠ w.dials :=
            fun hook hold => Nat.ne_of_lt (h.fresh conn hook hold)
          rcases List.mem_cons.mp hmem with heq | hold
          · cases heq
            rcases List.mem_cons.mp hmem' with heq' | hold'
            · cases heq'
              rfl
            · exact absurd rfl (hnew hook' hold')
          · rcases List.mem_cons.mp hmem' with heq' | hold'
            · cases heq'
              exact absurd rfl (hnew hook hold)
            · exact h.once conn hook hook' hold hold'
      -- what `become` then adds to the log is the new status
      exact ⟨hdialed.trans (.become ht hdialed.logged nofun), rfl,
        List.mem_cons_of_mem _ List.mem_cons_self⟩
    · cases hdial

/-- A dial that fails leaves the log sound and no connection. -/
theorem dialLocked_error (ht : Transitions transition) (h : Logged initial w) {accepted : Bool}
    {err : ClientError} (hdial : w.dialLocked transition accepted = (w', .error err)) :
    Onward initial w w' ∧ (AtHand own w → AtHand own w') := by
  unfold World.dialLocked at hdial
  split at hdial
  · cases hdial
    exact ⟨.refl h, id⟩
  · dsimp only at hdial
    split at hdial
    · cases hdial
    · cases hdial
      have hclosed : Onward initial w w.closeConnLocked := .client h rfl
      exact ⟨hclosed.trans (.become ht hclosed.logged nofun), fun _ => .of_none rfl⟩

/-- Once its hook has returned nil the connection is cleared, and once its hook
has failed it is gone. -/
theorem runHook_kept (ht : Transitions transition) {body : Run} (hbody : Keeps initial body)
    (h : Logged initial w) {dialed : ℕ} {hook : Option ℕ} (hconn : w.client.conn = some dialed)
    (hdialed : .dialed dialed hook ∈ w.log) (ok : Bool) :
    Kept initial own w (w.runHook transition dialed hook body ok) := by
  cases hook with
  | none =>
    refine .same h (fun conn hat => .inl ?_) _
    obtain rfl : dialed = conn := Option.some.inj (hconn.symm.trans hat)
    refine ⟨⟨none, hdialed⟩, fun hook hmem => ?_⟩
    cases h.once dialed none (some hook) hdialed hmem
  | some hook =>
    have hkept := hbody (some dialed) { w with depth := w.depth + 1 }
      ⟨h.sound, h.fresh, h.once, h.calm⟩ (fun hzero => absurd hzero (Nat.succ_ne_zero _))
      (fun conn hat => .inr (hconn.symm.trans hat))
    unfold World.runHook
    dsimp only
    generalize body { w with depth := w.depth + 1 } = ran at hkept ⊢
    obtain ⟨after, outcome⟩ := ran
    -- the hook leaves the depth it was called at
    have hdepth : after.depth - 1 = w.depth := by
      rw [hkept.onward.depth]
      rfl
    have hafter : Onward initial w { after with depth := after.depth - 1 } := by
      obtain ⟨hsound, hfresh, honce, hcalm⟩ := hkept.onward.logged
      exact ⟨⟨hsound, hfresh, honce, hcalm⟩, hdepth, hkept.onward.grows⟩
    split
    · exact .panicked hafter
    · rename_i hnopanic
      split
      · -- nil: the connection at hand is the one the hook was run for
        have hnoted := hafter.trans (.note hafter.logged (.returned hook dialed) trivial
          (fun _ _ => nofun))
        refine ⟨hnoted.trans (.client hnoted.logged rfl), fun _ conn hat => .inl ?_⟩
        rcases hkept.atHand hnopanic conn hat with hcleared | hown
        · exact hcleared.cons fun _ => nofun
        · obtain rfl : dialed = conn := Option.some.inj hown
          have hstill : .dialed dialed (some hook) ∈ after.log := hafter.grows _ hdialed
          refine ⟨⟨some hook, List.mem_cons_of_mem _ hstill⟩, fun hook' hmem => ?_⟩
          have hold : .dialed dialed (some hook') ∈ after.log :=
            List.mem_of_ne_of_mem (by simp) hmem
          cases hkept.onward.logged.once dialed _ _ hstill hold
          exact List.mem_cons_self
      · -- an error: the connection is closed and lost
        obtain ⟨hlost, hnone, hstatus⟩ := lost_spec ht hafter.logged
        have hfailed := hafter.trans hlost
        refine ⟨hfailed.trans (.note hfailed.logged _ ⟨hnone, hstatus⟩ (fun _ _ => nofun)),
          fun _ => ?_⟩
        exact .of_none hnone

/-- A redial, with its hook. -/
theorem redial_kept (ht : Transitions transition) {hook : Run} (hhook : Keeps initial hook)
    (h : Logged initial w) (hat : AtHand own w) (accepted ok : Bool) (failed : World → World)
    (hfailed : ∀ w, (failed w).log = w.log ∧ (failed w).dials = w.dials ∧
      (failed w).depth = w.depth ∧ (failed w).client.conn = w.client.conn ∧
      (failed w).client.status = w.client.status) :
    Kept initial own w (match w.dialLocked transition accepted with
      | (w, .error err) => (failed w, .err err)
      | (w, .ok dialed) => w.runHook transition dialed w.client.onReconnect hook ok) := by
  split
  · rename_i after err hdial
    -- no connection: the caller only notes the failure
    obtain ⟨honward, hkeeps⟩ := dialLocked_error ht h hdial
    obtain ⟨hlog, hdials, hdepth, hconn, hstatus⟩ := hfailed after
    obtain ⟨hsound, hfresh, honce, hcalm⟩ := honward.logged
    refine ⟨⟨⟨?_, ?_, ?_, ?_⟩, ?_, ?_⟩, fun _ => ?_⟩
    · rwa [hlog]
    · rwa [hlog, hdials]
    · rwa [hlog]
    · rwa [hstatus]
    · rw [hdepth, honward.depth]
    · rw [hlog]
      exact honward.grows
    · unfold AtHand
      rw [hlog, hconn]
      exact hkeeps hat
  · rename_i after dialed hdial
    -- a connection of which the log has the dial, and its hook is still to run
    obtain ⟨honward, hconn, hdialed⟩ := dialLocked_ok ht h hdial
    exact .after honward (runHook_kept ht hhook honward.logged hconn hdialed ok)

/-- Opening keeps the log sound. -/
theorem open_keeps (ht : Transitions transition) {hook : Run} (hhook : Keeps initial hook)
    (url : String) (accepted ok : Bool) :
    Keeps initial (World.open transition url accepted hook ok) := by
  intro own w h hout hat
  have hnamed : Onward initial w { w with client := { w.client with url := url } } :=
    .client h rfl
  exact .after hnamed (redial_kept ht hhook hnamed.logged hat accepted ok id
    fun _ => ⟨rfl, rfl, rfl, rfl, rfl⟩)

/-- So does waiting until the client is ready. -/
theorem ensureReady_keeps (ht : Transitions transition) {hook : Run} (hhook : Keeps initial hook)
    (waits : Waits) (accepted ok : Bool) :
    Keeps initial (World.ensureReady transition waits accepted hook ok) := by
  intro own w h hout hat
  unfold World.ensureReady
  split
  · exact .same h hat _
  split
  · exact .same h hat _
  split
  · exact .same h hat _
  dsimp only
  have hwaited : Onward initial w (w.note (.waited
      (min (max (max w.client.backoff w.client.hookBackoff) second) (30 * second)))) :=
    .note h _ trivial (fun _ _ => nofun)
  have hat' := hat.note (.waited
    (min (max (max w.client.backoff w.client.hookBackoff) second) (30 * second)))
    (fun _ _ => nofun)
  refine .after hwaited ?_
  split
  · exact .same hwaited.logged hat' _
  split
  · exact .same hwaited.logged hat' _
  exact redial_kept ht hhook hwaited.logged hat' accepted ok _
    fun _ => ⟨rfl, rfl, rfl, rfl, rfl⟩

/-- Traffic is on the connection at hand, which outside every hook is cleared. -/
theorem touched_spec (h : Logged initial w) (hout : Outside own w) (hat : AtHand own w)
    {conn : ℕ} (hconn : w.client.conn = some conn) :
    Onward initial w (w.note (.touched conn w.depth)) ∧
      AtHand own (w.note (.touched conn w.depth)) := by
  refine ⟨.note h _ (fun hzero => ?_) (fun _ _ => nofun), hat.note _ fun _ _ => nofun⟩
  rcases hat conn hconn with hcleared | hown
  · exact hcleared
  · rw [hout hzero] at hown
    cases hown

/-- Receiving keeps the log sound. -/
theorem receive_keeps (ht : Transitions transition) {hook drop : Run}
    (hhook : Keeps initial hook) (hdrop : Keeps initial drop) (waits : Waits)
    (accepted ok : Bool) (socket : SocketRead) :
    Keeps initial (World.receive transition waits accepted hook ok socket drop) := by
  intro own w h hout hat
  have hready := ensureReady_keeps ht hhook waits accepted ok own w h hout hat
  unfold World.receive
  split
  · rename_i after hensured
    rw [hensured] at hready
    have hout' := hready.onward.outside hout
    have hat' := hready.atHand nofun
    refine .after hready.onward ?_
    split
    · exact softDown_kept ht hdrop hready.onward.logged hout' _
    · rename_i conn hconn
      obtain ⟨htouched, hat''⟩ := touched_spec hready.onward.logged hout' hat' hconn
      have hdown := softDown_kept ht hdrop htouched.logged (htouched.outside hout')
      refine .after htouched ?_
      cases socket with
      | deadline => exact hdown _
      | failed => exact hdown _
      | panicked => exact .panicked (.refl htouched.logged)
      | message => exact .same htouched.logged hat'' _
  · exact hready

/-- Reading keeps it sound, with its recovery. -/
theorem read_keeps (ht : Transitions transition) {hook drop recovery : Run}
    (hhook : Keeps initial hook) (hdrop : Keeps initial drop) (hrecovery : Keeps initial recovery)
    (waits : Waits) (accepted ok : Bool) (socket : SocketRead) :
    Keeps initial (World.read transition waits accepted hook ok socket drop recovery) := by
  intro own w h hout hat
  have hreceived := receive_keeps ht hhook hdrop waits accepted ok socket own w h hout hat
  unfold World.read
  split
  · rename_i after hpanic
    rw [hpanic] at hreceived
    exact .after hreceived.onward (softDown_kept ht hrecovery hreceived.onward.logged
      (hreceived.onward.outside hout) _)
  · exact hreceived

/-- Writing keeps the log sound. -/
theorem write_keeps (ht : Transitions transition) {hook drop : Run}
    (hhook : Keeps initial hook) (hdrop : Keeps initial drop) (waits : Waits)
    (accepted ok sent : Bool) :
    Keeps initial (World.write transition waits accepted hook ok sent drop) := by
  intro own w h hout hat
  have hready := ensureReady_keeps ht hhook waits accepted ok own w h hout hat
  unfold World.write
  split
  · rename_i after hensured
    rw [hensured] at hready
    have hout' := hready.onward.outside hout
    refine .after hready.onward ?_
    split
    · exact softDown_kept ht hdrop hready.onward.logged hout' _
    · rename_i conn hconn
      obtain ⟨htouched, hat'⟩ := touched_spec hready.onward.logged hout' (hready.atHand nofun) hconn
      refine .after htouched ?_
      dsimp only
      split
      · exact .same htouched.logged hat' _
      · exact softDown_kept ht hdrop htouched.logged (htouched.outside hout') _
  · exact hready

/-- Pinging keeps the log sound. -/
theorem writePing_keeps (ht : Transitions transition) {drop : Run} (hdrop : Keeps initial drop)
    (sent : Bool) : Keeps initial (World.writePing transition sent drop) := by
  intro own w h hout hat
  unfold World.writePing
  split
  · exact .same h hat _
  split
  · exact .same h hat _
  · exact softDown_kept ht hdrop h hout _

end Steps

/-! ## Whole runs -/

mutual

/-- Every call keeps the record sound, by induction on the calls of its hooks. -/
theorem Call.keeps {transition : Status → Status → Status} {initial : Status}
    (ht : Transitions transition) : ∀ call : Call, Keeps initial (call.run transition)
  | .open url accepted hook ok => open_keeps ht (runCalls_keeps ht hook) url accepted ok
  | .read waits accepted hook ok socket drop recovery =>
    read_keeps ht (runCalls_keeps ht hook) (runCalls_keeps ht drop) (runCalls_keeps ht recovery)
      waits accepted ok socket
  | .write waits accepted hook ok sent drop =>
    write_keeps ht (runCalls_keeps ht hook) (runCalls_keeps ht drop) waits accepted ok sent
  | .softDown cause drop => fun _ _ h hout _ =>
    softDown_kept ht (runCalls_keeps ht drop) h hout cause
  | .ping sent drop => writePing_keeps ht (runCalls_keeps ht drop) sent
  | .onReconnect _ => fun _ _ h _ hat => ⟨.client h rfl, fun _ => hat⟩
  | .onDisconnect _ => fun _ _ h _ hat => ⟨.client h rfl, fun _ => hat⟩
  | .panic => fun _ _ h _ _ => .panicked (.refl h)

/-- All sequences of calls keep it sound, hooks within hooks included. -/
theorem runCalls_keeps {transition : Status → Status → Status} {initial : Status}
    (ht : Transitions transition) : ∀ calls : List Call, Keeps initial (runCalls transition calls)
  | [] => fun _ _ h _ hat => .same h hat _
  | call :: rest => by
    intro own w h hout hat
    have hcall := Call.keeps ht call own w h hout hat
    unfold runCalls
    split
    · rename_i hrun
      rw [hrun] at hcall
      exact .panicked hcall.onward
    · rename_i after outcome hnopanic hrun
      rw [hrun] at hcall
      refine .after hcall.onward (runCalls_keeps ht rest own after hcall.onward.logged
        (hcall.onward.outside hout) (hcall.atHand ?_))
      rintro rfl
      exact hnopanic rfl

end

/-- In every run of a new client, whatever its dials, hooks and sockets do, traffic
outside the reconnect hooks is on a connection whose hook has returned nil, a hook
that failed left the client without a connection and not READY, and no transition
has led to ERROR. -/
theorem traffic_resubscribed {transition : Status → Status → Status}
    (ht : Transitions transition) (initial : Status) (calls : List Call) :
    (∀ newer older conn,
      (runCalls transition calls (World.new initial)).1.log = newer ++ .touched conn 0 :: older →
      Cleared older conn) ∧
    (∀ client, .failed client ∈ (runCalls transition calls (World.new initial)).1.log →
      client.conn = none ∧ client.status ≠ .ready) ∧
    (initial ≠ .error →
      (runCalls transition calls (World.new initial)).1.client.status ≠ .error ∧
      ∀ status, .became status ∈ (runCalls transition calls (World.new initial)).1.log →
        status ≠ .error) := by
  have hnew : Logged initial (World.new initial) :=
    ⟨trivial, fun _ _ hmem => absurd hmem List.not_mem_nil,
      fun _ _ _ hmem => absurd hmem List.not_mem_nil, id⟩
  -- the invariant of a whole run is a log in which every entry is sound
  have hkept := runCalls_keeps ht calls none (World.new initial) hnew (fun _ => rfl)
    (.of_none rfl)
  obtain ⟨hsound, -, -, hcalm⟩ := hkept.onward.logged
  -- each entry is sound over the ones before it
  have hentry : ∀ entry ∈ (runCalls transition calls (World.new initial)).1.log,
      ∃ older, entry.Sound initial older := by
    intro entry hmem
    obtain ⟨newer, older, hlog⟩ := List.append_of_mem hmem
    rw [hlog] at hsound
    exact ⟨older, hsound.of_append⟩
  refine ⟨fun newer older conn hlog => ?_, fun client hmem => ?_, fun hinitial =>
    ⟨hcalm hinitial, fun status hmem => ?_⟩⟩
  · rw [hlog] at hsound
    exact hsound.of_append rfl
  · obtain ⟨older, hfailed⟩ := hentry _ hmem
    exact hfailed
  · obtain ⟨older, hbecame⟩ := hentry _ hmem
    exact hbecame hinitial

/-- A hook that writes on its own connection returns nil, a ping is lost, the hook
of the redial fails, and that of the next one returns nil. -/
def sampleCalls : List Call := [
  .onReconnect (some 7),
  .open "wss" true [.write ⟨false, false⟩ true [] true true []] true,
  .read ⟨false, false⟩ true [] true .message [] [],
  .ping false [],
  .write ⟨false, false⟩ true [] false true [],
  .write ⟨false, false⟩ true [] true true []]

theorem traffic_resubscribed_sample :
    ∃ older, (runCalls (fun _ target => target) sampleCalls (World.new .waiting)).1.log =
      .touched 2 0 :: older ∧ Cleared older 2 := by
  have ht : Transitions fun _ target => target := ⟨fun _ _ => .inl rfl, rfl⟩
  have hlog : (runCalls (fun _ target => target) sampleCalls (World.new .waiting)).1.log =
      [] ++ .touched 2 0 ::
        (runCalls (fun _ target => target) sampleCalls (World.new .waiting)).1.log.tail := by
    decide +kernel
  exact ⟨_, hlog, (traffic_resubscribed ht .waiting sampleCalls).1 [] _ 2 hlog⟩

end Symm.Network
