import Symm.Ui.Tuning

/-!
# Commands that are sent again

On each new socket the worker sends every command it was given. So what was sent on the
current socket sets what those commands set, in their order, and with them whatever was
set on an older socket.

- `openSocket`, `lastSet`, `lastKept`: what frames and kept commands set last;
- `Replays`: the invariant, and its lemma for each thing that happens to the worker;
- `grows_step`: what was sent is never taken back.

Commands are patches: what one sets a later one may set again, and what it does not set
stays. So it is the last write to each setting that counts (`lastWrite`), taken over all
the frames of a socket in their order, and appending frames is all that the handlers do
to them.
-/

namespace Symm.Ui.Tuning

open Symm.Lib Symm.Ui.SocketWorker

/-! ## What the worker has sent and kept -/

/-- The socket that `send` sends on. -/
def openSocket (w : Worker) : Option ℕ :=
  w.socket.bind fun i => if w.ready i = some .opened then some i else none

section Sent

variable {w : Worker} {i : ℕ} {frame : Frame}

theorem openSocket_eq_some :
    openSocket w = some i ↔ w.socket = some i ∧ w.ready i = some .opened := by
  unfold openSocket
  rw [Option.bind_eq_some_iff]
  constructor
  · rintro ⟨j, hj, hready⟩
    split at hready
    · rename_i hopened
      obtain rfl := Option.some.inj hready
      exact ⟨hj, hopened⟩
    · cases hready
  · exact fun h => ⟨i, h.1, if_pos h.2⟩

/-- A frame is sent on the open socket, if there is one. -/
theorem sent_send (w : Worker) (frame : Frame) :
    (w.send frame).sent = w.sent ++ (openSocket w).toList.map fun i => (i, frame) := by
  unfold Worker.send openSocket
  cases w.socket with
  | none => exact (List.append_nil _).symm
  | some i =>
    dsimp only [Option.bind_some]
    split
    · rfl
    · exact (List.append_nil _).symm

/-- Sending keeps no command. -/
theorem pending_send (w : Worker) (frame : Frame) :
    (w.send frame).pendingCommands = w.pendingCommands := by
  unfold Worker.send
  split
  · rfl
  · split
    · rfl
    · rfl

theorem openSocket_quiet {w' : Worker} (h : Worker.Quiet w w') :
    openSocket w' = openSocket w := by
  unfold openSocket Worker.ready
  rw [h.socket, h.sockets]

/-- Commands that are sent one after the other. -/
theorem sent_foldl_send (commands : List Command) (w : Worker) :
    (commands.foldl (fun w command => w.send (.command command)) w).sent =
      w.sent ++ (openSocket w).toList.flatMap fun i =>
        (commands.map Frame.command).map fun frame => (i, frame) := by
  induction commands generalizing w with
  | nil =>
    cases openSocket w with
    | none => exact (List.append_nil _).symm
    | some i => exact (List.append_nil _).symm
  | cons command commands ih =>
    rw [List.foldl_cons, ih, openSocket_quiet (Worker.quiet_send w _), sent_send, List.append_assoc]
    cases openSocket w with
    | none => rfl
    | some i => rfl

theorem pending_foldl_send (commands : List Command) (w : Worker) :
    (commands.foldl (fun w command => w.send (.command command)) w).pendingCommands =
      w.pendingCommands := by
  induction commands generalizing w with
  | nil => rfl
  | cons command commands ih => rw [List.foldl_cons, ih, pending_send]

/-- A flush sends the kept commands on the open socket, in their order. -/
theorem sent_flushCommands (h : openSocket w = some i) :
    w.flushCommands.sent = w.sent ++
      (w.pendingCommands.map Frame.command).map fun frame => (i, frame) := by
  have hsent := sent_foldl_send w.pendingCommands w
  rw [h, Option.toList_some, List.flatMap_singleton] at hsent
  exact hsent

/-- What was sent on a socket, one log after the other. -/
theorem framesOf_append (i : ℕ) (log later : List (ℕ × Frame)) :
    framesOf i (log ++ later) = framesOf i log ++ framesOf i later := by
  unfold framesOf
  rw [List.filter_append, List.map_append]

theorem framesOf_self (i : ℕ) (frames : List Frame) :
    framesOf i (frames.map fun frame => (i, frame)) = frames := by
  unfold framesOf
  rw [List.filter_eq_self.mpr, List.map_map]
  · exact List.map_id _
  · intro entry hentry
    obtain ⟨frame, _, rfl⟩ := List.mem_map.mp hentry
    exact decide_eq_true rfl

theorem framesOf_other {i j : ℕ} (h : j ≠ i) (frames : List Frame) :
    framesOf i (frames.map fun frame => (j, frame)) = [] := by
  unfold framesOf
  rw [List.filter_eq_nil_iff.mpr, List.map_nil]
  intro entry hentry
  obtain ⟨frame, _, rfl⟩ := List.mem_map.mp hentry
  simpa using h

end Sent

/-- What the frames set last. -/
def lastSet (unmarshal : String → Option Members) (k : Setting) (frames : List Frame) :
    Option k.Carrier :=
  lastWrite k (frames.map (writes unmarshal))

/-- What the kept commands set last. -/
def lastKept (unmarshal : String → Option Members) (k : Setting) (w : Worker) :
    Option k.Carrier :=
  lastSet unmarshal k (w.pendingCommands.map .command)

/-- The current socket is the newest; once it is open, what was sent on it sets what the
kept commands set, and they set whatever was set on any socket. -/
structure Replays (unmarshal : String → Option Members) (w : Worker) : Prop where
  inv : w.Inv
  newest : ∀ i, w.socket = some i → i + 1 = w.created
  below : ∀ entry ∈ w.sent, entry.1 < w.created
  connecting : ∀ i, w.socket = some i → w.ready i = some .connecting → framesOf i w.sent = []
  replayed : ∀ i, openSocket w = some i → ∀ k,
    lastSet unmarshal k (framesOf i w.sent) = lastKept unmarshal k w
  queued : ∀ entry ∈ w.sent, ∀ k, (writes unmarshal entry.2 k).isSome →
    (lastKept unmarshal k w).isSome

section Replays

variable {unmarshal : String → Option Members} {w w' : Worker} {k : Setting}

/-- Later frames win over earlier ones, setting by setting. -/
theorem lastSet_append (frames later : List Frame) :
    lastSet unmarshal k (frames ++ later) =
      (lastSet unmarshal k later).or (lastSet unmarshal k frames) := by
  unfold lastSet
  rw [List.map_append, lastWrite_append]

theorem lastSet_singleton (frame : Frame) :
    lastSet unmarshal k [frame] = writes unmarshal frame k :=
  rfl

/-- The browser moves sockets on, and nothing is sent. -/
theorem Replays.frame (h : Replays unmarshal w) (hinv : w'.Inv) (hsocket : w'.socket = w.socket)
    (hcreated : w'.created = w.created) (hsent : w'.sent = w.sent)
    (hpending : w'.pendingCommands = w.pendingCommands)
    (hconnecting : ∀ i, w'.ready i = some .connecting → w.ready i = some .connecting)
    (hopened : ∀ i, w'.ready i = some .opened → w.ready i = some .opened) :
    Replays unmarshal w' := by
  have hkept : ∀ k, lastKept unmarshal k w' = lastKept unmarshal k w := by
    intro k
    unfold lastKept
    rw [hpending]
  refine ⟨hinv, ?_, ?_, ?_, ?_, ?_⟩
  · rw [hsocket, hcreated]
    exact h.newest
  · rw [hsent, hcreated]
    exact h.below
  · rw [hsocket, hsent]
    exact fun i hi hready => h.connecting i hi (hconnecting i hready)
  · intro i hi k
    obtain ⟨hcurrent, hready⟩ := openSocket_eq_some.mp hi
    rw [hsent, hkept]
    exact h.replayed i (openSocket_eq_some.mpr ⟨hsocket ▸ hcurrent, hopened i hready⟩) k
  · rw [hsent]
    intro entry hentry k
    rw [hkept]
    exact h.queued entry hentry k

/-- Frames that are sent on the open socket while commands are kept that set as much. -/
theorem Replays.append (h : Replays unmarshal w) (hquiet : Worker.Quiet w w')
    (frames : List Frame)
    (hsent : w'.sent = w.sent ++ (openSocket w).toList.flatMap fun i =>
      frames.map fun frame => (i, frame))
    (hkept : ∀ k, lastKept unmarshal k w' =
      (lastSet unmarshal k frames).or (lastKept unmarshal k w)) :
    Replays unmarshal w' := by
  have hready : ∀ i, w'.ready i = w.ready i := by
    intro i
    unfold Worker.ready
    rw [hquiet.sockets]
  have hgrown : ∀ k, (lastKept unmarshal k w).isSome → (lastKept unmarshal k w').isSome := by
    intro k hk
    rw [hkept, Option.isSome_or, hk, Bool.or_true]
  have hsome : ∀ i, openSocket w = some i →
      w'.sent = w.sent ++ frames.map fun frame => (i, frame) := by
    intro i hi
    rw [hsent, hi, Option.toList_some, List.flatMap_singleton]
  have hnone : openSocket w = none → w'.sent = w.sent := by
    intro hopen
    rw [hsent, hopen]
    exact List.append_nil _
  -- an entry that is new is on the open socket
  have hentries : ∀ entry ∈ w'.sent, entry ∈ w.sent ∨
      openSocket w = some entry.1 ∧ entry.2 ∈ frames := by
    intro entry hentry
    rw [hsent] at hentry
    refine (List.mem_append.mp hentry).imp_right fun hnew => ?_
    obtain ⟨i, hi, hmem⟩ := List.mem_flatMap.mp hnew
    obtain ⟨frame, hframe, rfl⟩ := List.mem_map.mp hmem
    exact ⟨Option.mem_toList.mp hi, hframe⟩
  refine ⟨h.inv.quiet hquiet, ?_, ?_, ?_, ?_, ?_⟩
  · rw [hquiet.socket, hquiet.created]
    exact h.newest
  · intro entry hentry
    rw [hquiet.created]
    rcases hentries entry hentry with hold | ⟨hopen, -⟩
    · exact h.below entry hold
    · have hnewest := h.newest entry.1 (openSocket_eq_some.mp hopen).1
      omega
  · intro i hi hconnecting
    rw [hquiet.socket] at hi
    rw [hready] at hconnecting
    have hopen : openSocket w = none := by
      refine Option.eq_none_iff_forall_not_mem.mpr fun j hj => ?_
      obtain ⟨hcurrent, hopened⟩ := openSocket_eq_some.mp hj
      obtain rfl := Option.some.inj (hi.symm.trans hcurrent)
      rw [hconnecting] at hopened
      cases hopened
    rw [hnone hopen]
    exact h.connecting i hi hconnecting
  · intro i hi k
    rw [openSocket_quiet hquiet] at hi
    rw [hsome i hi, framesOf_append, framesOf_self, lastSet_append, h.replayed i hi, hkept]
  · intro entry hentry k hk
    rcases hentries entry hentry with hold | ⟨-, hframe⟩
    · exact hgrown k (h.queued entry hold k hk)
    · have hset : (lastSet unmarshal k frames).isSome :=
        lastWrite_isSome.mpr ⟨_, List.mem_map_of_mem hframe, hk⟩
      rw [hkept, Option.isSome_or, hset, Bool.true_or]

/-- A frame that sets nothing changes nothing of what is set. -/
theorem Replays.send_silent (h : Replays unmarshal w) {frame : Frame}
    (hframe : ∀ k, writes unmarshal frame k = none) : Replays unmarshal (w.send frame) := by
  refine h.append (Worker.quiet_send w frame) [frame] ?_ fun k => ?_
  · rw [sent_send]
    cases openSocket w with
    | none => rfl
    | some i => rfl
  · unfold lastKept
    rw [pending_send, lastSet_singleton, hframe]
    rfl

/-- Dropping the older `hindsight` commands changes no setting. -/
theorem lastKept_queueCommand (w : Worker) (command : Command) :
    lastKept unmarshal k (w.queueCommand command) =
      (writes unmarshal (.command command) k).or (lastKept unmarshal k w) := by
  have hfilter : lastSet unmarshal k ((w.pendingCommands.filter
        fun item => item.type ≠ some "hindsight").map .command) = lastKept unmarshal k w := by
    unfold lastKept lastSet
    rw [List.map_map, List.map_map]
    refine lastWrite_filter fun item _ hitem => ?_
    have htype : item.type = some "hindsight" := not_not.mp (of_decide_eq_false hitem)
    have hplain : Plain item := by
      unfold Plain
      rw [htype]
      decide
    exact congrFun (writes_plain hplain) k
  unfold Worker.queueCommand lastKept
  dsimp only
  rw [List.map_append, lastSet_append, List.map_singleton, lastSet_singleton]
  split
  · rw [hfilter]
    rfl
  · rfl

/-- A command is kept and sent, so both sides set it last. -/
theorem Replays.onCommand (h : Replays unmarshal w) (command : Option Command) :
    Replays unmarshal (w.onCommand command) := by
  cases command with
  | none =>
    exact h.frame (h.inv.quiet (Worker.quiet_onCommand w none)) rfl rfl rfl rfl (fun _ => id)
      fun _ => id
  | some command =>
    refine h.append (Worker.quiet_onCommand w _) [.command command] ?_ fun k => ?_
    · show ((w.queueCommand command).send (.command command)).sent = _
      have hquiet : Worker.Quiet w (w.queueCommand command) := ⟨rfl, rfl, rfl, rfl, rfl⟩
      rw [sent_send, openSocket_quiet hquiet]
      cases openSocket w with
      | none => rfl
      | some i => rfl
    · show lastKept unmarshal k ((w.queueCommand command).send (.command command)) = _
      rw [lastSet_singleton, ← lastKept_queueCommand]
      unfold lastKept
      rw [pending_send]

/-- A new socket has nothing sent on it. -/
theorem Replays.connect (h : Replays unmarshal w) (valid : String → Bool) (url : String)
    (hinv : (w.connect valid url).Inv) : Replays unmarshal (w.connect valid url) := by
  -- what is torn down leaves the commands and what was sent as they are
  have hdown : w.teardownSocket.sent = w.sent ∧ w.teardownSocket.created = w.created ∧
      w.teardownSocket.pendingCommands = w.pendingCommands := by
    unfold Worker.teardownSocket Worker.closeSocket
    dsimp only
    split
    · exact ⟨rfl, rfl, rfl⟩
    · split
      · exact ⟨rfl, rfl, rfl⟩
      · exact ⟨rfl, rfl, rfl⟩
  obtain ⟨hsent, hcreated, hpending⟩ := hdown
  have hkept : ∀ k, lastKept unmarshal k w.teardownSocket = lastKept unmarshal k w := by
    intro k
    unfold lastKept
    rw [hpending]
  unfold Worker.connect at hinv ⊢
  split
  · exact h
  rename_i hurl
  rw [if_neg hurl] at hinv
  dsimp only at hinv ⊢
  have hqueued : ∀ entry ∈ w.teardownSocket.sent, ∀ k, (writes unmarshal entry.2 k).isSome →
      (lastKept unmarshal k w.teardownSocket).isSome := by
    rw [hsent]
    intro entry hentry k
    rw [hkept]
    exact h.queued entry hentry k
  -- the new socket takes a number that no frame was sent under
  have hbelow : ∀ entry ∈ w.teardownSocket.sent, entry.1 < w.teardownSocket.created := by
    rw [hsent, hcreated]
    exact h.below
  split
  · rename_i hvalid
    rw [if_pos hvalid] at hinv
    refine ⟨hinv, ?_, ?_, ?_, ?_, hqueued⟩
    · rintro i ⟨⟩
      rfl
    · exact fun entry hentry => (hbelow entry hentry).trans (Nat.lt_succ_self _)
    · rintro i ⟨⟩ _
      show framesOf _ w.teardownSocket.sent = []
      unfold framesOf
      rw [List.filter_eq_nil_iff.mpr, List.map_nil]
      intro entry hentry
      have hlt := hbelow entry hentry
      simp only [decide_eq_true_eq]
      omega
    · intro i hi
      obtain ⟨hsocket, hopened⟩ := openSocket_eq_some.mp hi
      cases hsocket
      unfold Worker.ready at hopened
      dsimp only at hopened
      rw [Function.update_self] at hopened
      cases hopened
  · rename_i hvalid
    rw [if_neg hvalid] at hinv
    refine ⟨hinv, nofun, hbelow, nofun, ?_, hqueued⟩
    intro i hi
    cases (openSocket_eq_some.mp hi).1

/-- A flush drops the commands that are superseded, and with them nothing that is set last.
-/
theorem lastKept_flushCommands (w : Worker) :
    lastKept unmarshal k w.flushCommands = lastKept unmarshal k w := by
  have hpending : w.flushCommands.pendingCommands = w.pendingCommands := pending_foldl_send _ _
  unfold lastKept
  rw [hpending]

/-- What the `open` handler of the current socket sends sets what the kept commands
set. -/
theorem sent_onOpen (unmarshal : String → Option Members) {i : ℕ}
    (hopen : openSocket w = some i) (hcurrent : w.current i = true) :
    ∃ frames, (w.onOpen i).sent = w.sent ++ frames.map (fun frame => (i, frame)) ∧
      (∀ k, lastSet unmarshal k frames = lastKept unmarshal k w) ∧
      (∀ k, lastKept unmarshal k (w.onOpen i) = lastKept unmarshal k w) := by
  -- the worker once it has said that it is online
  have honline : ∃ online, Worker.Quiet w online ∧ online.sent = w.sent ∧
      online.pendingCommands = w.pendingCommands ∧
      w.onOpen i = (if online.currentRoute = "" then online
        else online.sendRoute online.currentRoute).flushCommands := by
    refine ⟨{ w with reconnectAttempts := 0 }.post .online, ⟨rfl, rfl, rfl, rfl, rfl⟩, rfl, rfl, ?_⟩
    exact if_pos hcurrent
  obtain ⟨online, hquiet, hsent, hpending, heq⟩ := honline
  have hopen' := (openSocket_quiet hquiet).trans hopen
  have hkept : ∀ k, lastKept unmarshal k online = lastKept unmarshal k w := by
    intro k
    unfold lastKept
    rw [hpending]
  rw [heq]
  split
  · refine ⟨w.pendingCommands.map .command, ?_, fun _ => rfl, fun k => ?_⟩
    · rw [sent_flushCommands hopen', hsent, hpending]
    · rw [lastKept_flushCommands, hkept]
  · have hroute : Worker.Quiet online (online.sendRoute online.currentRoute) :=
      Worker.quiet_sendRoute _ _
    have hrouteSent : (online.sendRoute online.currentRoute).sent =
        w.sent ++ [(i, .route online.currentRoute)] := by
      have hset : openSocket { online with currentRoute := online.currentRoute } = some i := hopen'
      unfold Worker.sendRoute
      rw [sent_send, hset, ← hsent]
      rfl
    have hroutePending : (online.sendRoute online.currentRoute).pendingCommands =
        w.pendingCommands := (pending_send _ _).trans hpending
    refine ⟨.route online.currentRoute :: w.pendingCommands.map .command, ?_, fun k => ?_,
      fun k => ?_⟩
    · rw [sent_flushCommands ((openSocket_quiet hroute).trans hopen'), hrouteSent, hroutePending,
        List.append_assoc]
      rfl
    · show (lastSet unmarshal k (w.pendingCommands.map .command)).or none = _
      rw [Option.or_none]
      rfl
    · rw [lastKept_flushCommands]
      unfold lastKept
      rw [hroutePending]

/-- The replay on a socket that has opened. -/
theorem Replays.opened (h : Replays unmarshal w) {i : ℕ} (hready : w.ready i = some .connecting)
    (hinv : ((w.setReady i .opened).onOpen i).Inv) :
    Replays unmarshal ((w.setReady i .opened).onOpen i) := by
  -- a socket still connecting is the one at hand
  have hsocket : w.socket = some i := h.inv.live (.inl hready)
  have hopen : openSocket (w.setReady i .opened) = some i := by
    refine openSocket_eq_some.mpr ⟨hsocket, ?_⟩
    rw [Worker.ready_setReady, if_pos rfl, hready]
    rfl
  have hcurrent : (w.setReady i .opened).current i = true := by
    obtain ⟨s, hs, hgeneration⟩ := h.inv.current i hsocket
    have hset : (w.setReady i .opened).sockets i = some { s with readyState := .opened } := by
      show Function.update w.sockets i _ i = _
      rw [Function.update_self, hs]
      rfl
    unfold Worker.current
    rw [hset]
    exact decide_eq_true hgeneration
  have hquiet : Worker.Quiet (w.setReady i .opened) ((w.setReady i .opened).onOpen i) :=
    Worker.quiet_onOpen _ i
  -- the replay goes to this socket alone, and writes what the worker keeps
  obtain ⟨frames, hsent, hframes, hkept⟩ := sent_onOpen unmarshal hopen hcurrent
  have hsame : ∀ k, lastKept unmarshal k (w.setReady i .opened) = lastKept unmarshal k w :=
    fun _ => rfl
  have hcreated : ((w.setReady i .opened).onOpen i).created = w.created := hquiet.created
  have hsent' : ((w.setReady i .opened).onOpen i).sent =
      w.sent ++ frames.map fun frame => (i, frame) := hsent
  refine ⟨hinv, ?_, ?_, ?_, ?_, ?_⟩
  · rw [hquiet.socket, hcreated]
    exact h.newest
  · rw [hsent', hcreated]
    refine List.forall_mem_append.mpr ⟨h.below, fun entry hentry => ?_⟩
    obtain ⟨frame, _, rfl⟩ := List.mem_map.mp hentry
    have hnewest := h.newest i hsocket
    omega
  · intro j hj hconnecting
    rw [hquiet.socket] at hj
    obtain rfl : i = j := Option.some.inj (hsocket.symm.trans hj)
    have hopened : ((w.setReady i .opened).onOpen i).ready i = some .opened := by
      have hready' := (openSocket_eq_some.mp ((openSocket_quiet hquiet).trans hopen)).2
      exact hready'
    rw [hopened] at hconnecting
    cases hconnecting
  · intro j hj k
    rw [openSocket_quiet hquiet, hopen] at hj
    obtain rfl := Option.some.inj hj
    rw [hsent', framesOf_append, h.connecting i hsocket hready, framesOf_self, List.nil_append,
      hframes, hkept]
  · rw [hsent']
    refine List.forall_mem_append.mpr ⟨fun entry hentry k hk => ?_, fun entry hentry k hk => ?_⟩
    · rw [hkept, hsame]
      exact h.queued entry hentry k hk
    · obtain ⟨frame, hframe, rfl⟩ := List.mem_map.mp hentry
      rw [hkept, ← hframes]
      exact lastWrite_isSome.mpr ⟨_, List.mem_map_of_mem hframe, hk⟩

/-- The browser moves a socket to a state that is not live. -/
theorem Replays.setReady (h : Replays unmarshal w) {i : ℕ} {state : ReadyState}
    (hstate : state ≠ .connecting ∧ state ≠ .opened) (hinv : (w.setReady i state).Inv) :
    Replays unmarshal (w.setReady i state) := by
  have hready : ∀ live, state ≠ live → ∀ j, (w.setReady i state).ready j = some live →
      w.ready j = some live := by
    intro live hlive j hj
    rw [Worker.ready_setReady] at hj
    split at hj
    · obtain ⟨_, _, heq⟩ := Option.map_eq_some_iff.mp hj
      exact absurd heq hlive
    · exact hj
  exact h.frame hinv rfl rfl rfl rfl (hready _ hstate.1) (hready _ hstate.2)

/-- A socket that closes is no longer the open one. -/
theorem Replays.onClose (h : Replays unmarshal w) (i : ℕ) (hinv : (w.onClose i).Inv) :
    Replays unmarshal (w.onClose i) := by
  have hsame : (w.onClose i).socket = w.socket ∧ (w.onClose i).created = w.created ∧
      (w.onClose i).sent = w.sent ∧ (w.onClose i).pendingCommands = w.pendingCommands := by
    unfold Worker.onClose Worker.scheduleReconnect
    split
    · split
      · exact ⟨rfl, rfl, rfl, rfl⟩
      · exact ⟨rfl, rfl, rfl, rfl⟩
    · exact ⟨rfl, rfl, rfl, rfl⟩
  obtain ⟨hsocket, hcreated, hsent, hpending⟩ := hsame
  have hready : ∀ j, (w.onClose i).ready j = w.ready j := by
    intro j
    unfold Worker.ready
    rw [Worker.sockets_onClose]
  refine h.frame hinv hsocket hcreated hsent hpending ?_ ?_
  · intro j hj
    rwa [hready] at hj
  · intro j hj
    rwa [hready] at hj

/-- Every event of the page keeps it. -/
theorem Replays.step (h : Replays unmarshal w) (valid : String → Bool) {e : SocketWorker.Event}
    (he : (Event.worker e).OfPage) : Replays unmarshal (SocketWorker.step valid w e) := by
  -- the page itself does not connect here
  have htimely : Worker.Timely valid w e := by
    rintro url rfl
    exact absurd he id
  have hinv : (SocketWorker.step valid w e).Inv := Worker.inv_step h.inv htimely
  cases e with
  | connect url => exact absurd he id
  | disconnect => exact absurd he id
  | focus symbol => exact h.send_silent fun _ => rfl
  | route route =>
    have hset : Replays unmarshal { w with currentRoute := route.getD "" } :=
      h.frame (h.inv.quiet ⟨rfl, rfl, rfl, rfl, rfl⟩) rfl rfl rfl rfl (fun _ => id) fun _ => id
    exact hset.send_silent fun _ => rfl
  | positionExit symbol => exact h.send_silent fun _ => rfl
  | command command => exact h.onCommand command
  | timer =>
    by_cases htimer : w.reconnectTimer.isSome = true
    · have hstep : SocketWorker.step valid w .timer = w.onTimer valid := if_pos htimer
      rw [hstep] at hinv ⊢
      -- the timer is gone before the worker connects
      have hcleared : Replays unmarshal { w with
          reconnectTimer := none
          reconnectAttempts := w.reconnectAttempts + 1 } :=
        h.frame (h.inv.clearTimer.quiet ⟨rfl, rfl, rfl, rfl, rfl⟩) rfl rfl rfl rfl (fun _ => id)
          fun _ => id
      exact hcleared.connect valid _ hinv
    · have hstep : SocketWorker.step valid w .timer = w := if_neg htimer
      rwa [hstep]
  | opened i =>
    by_cases hready : w.ready i = some .connecting
    · have hstep : SocketWorker.step valid w (.opened i) =
          (w.setReady i .opened).onOpen i := if_pos hready
      rw [hstep] at hinv ⊢
      exact h.opened hready hinv
    · have hstep : SocketWorker.step valid w (.opened i) = w := if_neg hready
      rwa [hstep]
  | closing i =>
    by_cases hlive : w.ready i = some .connecting ∨ w.ready i = some .opened
    · have hstep : SocketWorker.step valid w (.closing i) = w.setReady i .closing := if_pos hlive
      rw [hstep] at hinv ⊢
      exact h.setReady (by decide) hinv
    · have hstep : SocketWorker.step valid w (.closing i) = w := if_neg hlive
      rwa [hstep]
  | closed i =>
    by_cases hopen : (w.ready i).any (· ≠ .closed) = true
    · have hstep : SocketWorker.step valid w (.closed i) = (w.setReady i .closed).onClose i :=
        if_pos hopen
      rw [hstep] at hinv ⊢
      have hset : (w.setReady i .closed).Inv :=
        h.inv.setReady (fun _ => by decide) fun _ _ => rfl
      exact (h.setReady (by decide) hset).onClose i hinv
    · have hstep : SocketWorker.step valid w (.closed i) = w := if_neg hopen
      rwa [hstep]
  | error i error =>
    show Replays unmarshal (w.onError i error)
    unfold Worker.onError
    split
    · exact h.frame (h.inv.quiet (Worker.quiet_post w _)) rfl rfl rfl rfl (fun _ => id)
        fun _ => id
    · exact h

/-- A new worker has nothing to replay. -/
theorem replays_new : Replays unmarshal .new :=
  ⟨Worker.inv_new, nofun, nofun, nofun, nofun, nofun⟩

theorem replays_start (valid : String → Bool) (route url : String) :
    Replays unmarshal ((Worker.new.sendRoute route).connect valid url) := by
  have hset : Replays unmarshal { Worker.new with currentRoute := route } :=
    replays_new.frame (Worker.inv_new.quiet ⟨rfl, rfl, rfl, rfl, rfl⟩) rfl rfl rfl rfl
      (fun _ => id) fun _ => id
  have hrouted : Replays unmarshal (Worker.new.sendRoute route) := hset.send_silent fun _ => rfl
  exact hrouted.connect valid url
    (hrouted.inv.connect url fun _ _ => (Worker.quiet_sendRoute _ _).timer)

end Replays

/-! ## Nothing that was sent is taken back -/

section Grows

variable {w : Worker}

theorem grows_send (w : Worker) (frame : Frame) : w.sent <+: (w.send frame).sent := by
  rw [sent_send]
  exact List.prefix_append _ _

theorem grows_sendRoute (w : Worker) (route : String) :
    w.sent <+: (w.sendRoute route).sent :=
  grows_send { w with currentRoute := route } _

theorem grows_onOpen (w : Worker) (i : ℕ) : w.sent <+: (w.onOpen i).sent := by
  unfold Worker.onOpen
  split
  · dsimp only
    have hflush : ∀ w' : Worker, w.sent <+: w'.sent → w.sent <+: w'.flushCommands.sent := by
      intro w' h
      have hsent := sent_foldl_send w'.pendingCommands w'
      show w.sent <+: (w'.pendingCommands.foldl _ w').sent
      rw [hsent]
      exact h.trans (List.prefix_append _ _)
    refine hflush _ ?_
    have hroute := grows_sendRoute ({ w with reconnectAttempts := 0 }.post .online)
    split
    · exact List.prefix_rfl
    · exact hroute _
  · exact List.prefix_rfl

theorem sent_connect (valid : String → Bool) (w : Worker) (url : String) :
    (w.connect valid url).sent = w.sent := by
  unfold Worker.connect Worker.teardownSocket Worker.closeSocket
  split
  · rfl
  · dsimp only
    split
    · split
      · rfl
      · split
        · rfl
        · rfl
    · split
      · rfl
      · split
        · rfl
        · rfl

theorem grows_onCommand (w : Worker) (command : Option Command) :
    w.sent <+: (w.onCommand command).sent := by
  cases command with
  | none => exact List.prefix_rfl
  | some command => exact grows_send (w.queueCommand command) _

theorem sent_onClose (w : Worker) (i : ℕ) : (w.onClose i).sent = w.sent := by
  unfold Worker.onClose Worker.scheduleReconnect
  split
  · split
    · rfl
    · rfl
  · rfl

/-- What was sent stays sent. -/
theorem grows_step (valid : String → Bool) (w : Worker) {e : SocketWorker.Event}
    (he : (Event.worker e).OfPage) : w.sent <+: (SocketWorker.step valid w e).sent := by
  cases e with
  | connect url => exact absurd he id
  | disconnect => exact absurd he id
  | focus symbol => exact grows_send w _
  | route route => exact grows_sendRoute w _
  | positionExit symbol => exact grows_send w _
  | command command => exact grows_onCommand w command
  -- the handlers of the socket answer only in the state of it that they are called in
  | timer =>
    by_cases htimer : w.reconnectTimer.isSome = true
    · have hstep : SocketWorker.step valid w .timer = w.onTimer valid := if_pos htimer
      simp only [hstep, Worker.onTimer, sent_connect, List.prefix_rfl]
    · have hstep : SocketWorker.step valid w .timer = w := if_neg htimer
      simp only [hstep, List.prefix_rfl]
  | opened i =>
    by_cases hready : w.ready i = some .connecting
    · have hstep : SocketWorker.step valid w (.opened i) =
          (w.setReady i .opened).onOpen i := if_pos hready
      rw [hstep]
      exact grows_onOpen (w.setReady i .opened) i
    · have hstep : SocketWorker.step valid w (.opened i) = w := if_neg hready
      simp only [hstep, List.prefix_rfl]
  | closing i =>
    by_cases hlive : w.ready i = some .connecting ∨ w.ready i = some .opened
    · have hstep : SocketWorker.step valid w (.closing i) = w.setReady i .closing := if_pos hlive
      rw [hstep]
      exact List.prefix_rfl
    · have hstep : SocketWorker.step valid w (.closing i) = w := if_neg hlive
      simp only [hstep, List.prefix_rfl]
  | closed i =>
    by_cases hopen : (w.ready i).any (· ≠ .closed) = true
    · have hstep : SocketWorker.step valid w (.closed i) = (w.setReady i .closed).onClose i :=
        if_pos hopen
      rw [hstep, sent_onClose]
      exact List.prefix_rfl
    · have hstep : SocketWorker.step valid w (.closed i) = w := if_neg hopen
      simp only [hstep, List.prefix_rfl]
  | error i error =>
    show w.sent <+: (w.onError i error).sent
    unfold Worker.onError
    split
    · exact List.prefix_rfl
    · exact List.prefix_rfl

theorem grows_framesOf {log log' : List (ℕ × Frame)} (h : log <+: log') (i : ℕ) :
    framesOf i log <+: framesOf i log' := by
  obtain ⟨later, rfl⟩ := h
  rw [framesOf_append]
  exact List.prefix_append _ _

end Grows

/-! ## The kept commands -/

section Kept

variable {w : Worker}

theorem pending_connect (valid : String → Bool) (w : Worker) (url : String) :
    (w.connect valid url).pendingCommands = w.pendingCommands := by
  unfold Worker.connect Worker.teardownSocket Worker.closeSocket
  split
  · rfl
  · dsimp only
    split
    · split
      · rfl
      · split
        · rfl
        · rfl
    · split
      · rfl
      · split
        · rfl
        · rfl

theorem pending_onOpen (w : Worker) (i : ℕ) :
    (w.onOpen i).pendingCommands = w.pendingCommands := by
  unfold Worker.onOpen
  split
  · dsimp only
    have hflush : ∀ w' : Worker, w'.flushCommands.pendingCommands = w'.pendingCommands :=
      fun w' => pending_foldl_send w'.pendingCommands w'
    rw [hflush]
    split
    · rfl
    · exact pending_send _ _
  · rfl

theorem pending_onClose (w : Worker) (i : ℕ) :
    (w.onClose i).pendingCommands = w.pendingCommands := by
  unfold Worker.onClose Worker.scheduleReconnect
  split
  · split
    · rfl
    · rfl
  · rfl

/-- Nothing but a command of the page changes what is kept. -/
theorem pending_step (valid : String → Bool) (w : Worker) {e : SocketWorker.Event}
    (he : (Event.worker e).OfPage) (hcommand : ∀ command, e ≠ .command (some command)) :
    (SocketWorker.step valid w e).pendingCommands = w.pendingCommands := by
  cases e with
  | connect url => exact absurd he id
  | disconnect => exact absurd he id
  | focus symbol => exact pending_send w _
  | route route => exact pending_send { w with currentRoute := route.getD "" } _
  | positionExit symbol => exact pending_send w _
  -- only a command with a body is kept
  | command command =>
    cases command with
    | none => rfl
    | some command => exact absurd rfl (hcommand command)
  | timer =>
    show (if w.reconnectTimer.isSome then w.onTimer valid else w).pendingCommands = _
    split
    · exact pending_connect valid _ _
    · rfl
  | opened i =>
    show (if w.ready i = some .connecting then (w.setReady i .opened).onOpen i
      else w).pendingCommands = _
    split
    · exact pending_onOpen (w.setReady i .opened) i
    · rfl
  | closing i =>
    show (if w.ready i = some .connecting ∨ w.ready i = some .opened then w.setReady i .closing
      else w).pendingCommands = _
    split
    · rfl
    · rfl
  | closed i =>
    show (if (w.ready i).any (· ≠ .closed) then (w.setReady i .closed).onClose i
      else w).pendingCommands = _
    split
    · exact pending_onClose (w.setReady i .closed) i
    · rfl
  | error i error =>
    show (w.onError i error).pendingCommands = _
    unfold Worker.onError
    split
    · rfl
    · rfl

/-- A command sets last what it sets; the others go on to hold. -/
theorem lastKept_onCommand {unmarshal : String → Option Members} {k : Setting} (w : Worker)
    (command : Command) :
    lastKept unmarshal k (w.onCommand (some command)) =
      (writes unmarshal (.command command) k).or (lastKept unmarshal k w) := by
  rw [← lastKept_queueCommand]
  unfold lastKept
  rw [Worker.onCommand, pending_send]

end Kept

end Symm.Ui.Tuning
