import Mathlib.Data.List.Perm.Basic
import Mathlib.Logic.Function.Basic
import Symm.Ui.Attached

/-!
# The frames of the dashboard (`ui/hub.go`)

`Write` puts a frame on a buffered channel without blocking; on a full channel it
discards the oldest frame and tries again. The pump takes frames off the channel and
writes each to the socket that it then finds in `conn`. A handler that attaches its
socket drains the channel first.

- `Frames`, `Turn`, `step`: calls of `Write`, the handlers and the pump, by their
  atomic steps; `conn` and `connected` are the hub of `Ui/Attached`;
- `hub_run`: a run moves the hub as one of `Ui/Attached` does;
- `frames_in_order`: what was delivered, what the pump holds and the channel are, in
  this order, among the frames sent in theirs, and what is missing was dropped for a
  reason on record;
- `fresh_socket`: what a socket may get of the frames from before its drain.

A call of `Write` that finds the channel full takes a frame off and tries once more, so
that another call may overtake it; its frame is then dropped, on record as all others.
The pump may hold a frame while a socket attaches, and writes it to the new one: the
drain of a socket sees the channel, not the hand of the pump.
-/

namespace Symm.Ui.FrameQueue

open Symm.Lib Symm.Ui.Attached

/-- A frame on the channel, with its place among the sends. -/
structure Entry where
  place : ℕ
  bytes : List UInt8
  deriving DecidableEq

/-- The operation that a call of `Write` makes next, or how it ended. -/
inductive Writer
  | idle
  /-- `active` loads `connected`. -/
  | connected (p : List UInt8)
  /-- `active` loads `conn`. -/
  | conn (p : List UInt8)
  /-- `active` loads the attach instant. -/
  | since (p : List UInt8)
  | send (p : List UInt8)
  | discard (p : List UInt8)
  /-- The last `select`, with the number of sends at the discard. -/
  | retry (p : List UInt8) (mark : ℕ)
  | sent (place : ℕ)
  /-- The last `select` found the channel full again: the number of sends at the
  discard, and now. -/
  | overtaken (mark now : ℕ)
  /-- The frame is empty, or no dashboard is attached. -/
  | refused

/-- Why a frame that was on the channel is not delivered. -/
inductive Reason
  /-- A `Write` made room. -/
  | overflow (writer : ℕ)
  /-- A handler drained it. -/
  | drain (handler : ℕ)
  /-- The pump found no socket. -/
  | detached
  /-- It is longer than `MaxMessageBytes`. -/
  | oversize
  /-- Its write to this socket failed. -/
  | failed (conn : ℕ)
  deriving DecidableEq

/-- The end of a drain: the number of sends, and the frame that the pump held. -/
structure Drain where
  mark : ℕ
  held : Option Entry

/-- The hub with its channel, oldest frame first, every frame ever sent to the channel,
and the frames delivered and dropped. -/
structure Frames where
  hub : Hub
  size : ℕ
  maxMessageBytes : ℤ
  frameCh : List Entry
  writers : ℕ → Writer
  /-- `pumpOnce` has run. -/
  pumping : Bool
  /-- The frame that the pump took from the channel. -/
  hand : Option Entry
  drained : ℕ → Option Drain
  pushed : List (List UInt8)
  sent : List (ℕ × Entry)
  dropped : List (Reason × Entry)

/-- `NewHub`. -/
def Frames.new (queueFrames maxMessageBytes : ℤ) : Frames where
  hub := Hub.new
  size := if queueFrames ≤ 0 then 256 else queueFrames.toNat
  maxMessageBytes := maxMessageBytes
  frameCh := []
  writers := fun _ => .idle
  pumping := false
  hand := none
  drained := fun _ => none
  pushed := []
  sent := []
  dropped := []

/-- Whose turn it is. -/
inductive Turn
  /-- A call of `Write` with this frame, at this time. -/
  | write (i : ℕ) (p : List UInt8) (now : ℤ)
  /-- A handler, at this time. -/
  | handler (i : ℕ) (now : ℤ)
  /-- The pump, whose write fails or not. -/
  | pump (failed : Bool)

namespace Frames

def moveWriter (frames : Frames) (i : ℕ) (writer : Writer) : Frames :=
  { frames with writers := Function.update frames.writers i writer }

/-- A send on the channel, which has room. -/
def push (frames : Frames) (p : List UInt8) : Frames :=
  { frames with
    frameCh := frames.frameCh ++ [⟨frames.pushed.length, p⟩]
    pushed := frames.pushed ++ [p] }

/-- A receive from the channel that throws the frame away. -/
def discard (frames : Frames) (reason : Reason) : Frames :=
  match frames.frameCh with
  | [] => frames
  | entry :: rest =>
    { frames with frameCh := rest, dropped := frames.dropped ++ [(reason, entry)] }

/-- `Write` and `active`, by their atomic steps. -/
def write (frames : Frames) (i : ℕ) (p : List UInt8) (now : ℤ) : Frames :=
  match frames.writers i with
  | .idle => frames.moveWriter i (if p = [] then .refused else .connected p)
  | .connected p => frames.moveWriter i (if frames.hub.connected then .conn p else .since p)
  | .conn p => frames.moveWriter i (if frames.hub.conn.isSome then .send p else .since p)
  | .since p =>
    frames.moveWriter i
      (if frames.hub.connectedSince = 0 then .refused
      else if now - frames.hub.connectedSince < 5000000000 then .send p
      else .refused)
  | .send p =>
    if frames.frameCh.length < frames.size then
      (frames.push p).moveWriter i (.sent frames.pushed.length)
    else frames.moveWriter i (.discard p)
  | .discard p =>
    (frames.discard (.overflow i)).moveWriter i (.retry p frames.pushed.length)
  | .retry p mark =>
    if frames.frameCh.length < frames.size then
      (frames.push p).moveWriter i (.sent frames.pushed.length)
    else frames.moveWriter i (.overtaken mark frames.pushed.length)
  | .sent _ => frames
  | .overtaken _ _ => frames
  | .refused => frames

/-- One turn of `drainFrames`. -/
def drainFrames (frames : Frames) (i : ℕ) : Frames :=
  match frames.frameCh with
  | [] =>
    { frames with
      drained := Function.update frames.drained i (some ⟨frames.pushed.length, frames.hand⟩) }
  | _ :: _ => frames.discard (.drain i)

/-- `wsHandler`, by its atomic steps: the drain stands between the swap and the store
of `conn`, and `ensurePump` after that store. -/
def handler (frames : Frames) (i : ℕ) (now : ℤ) : Frames :=
  if frames.hub.handlers i = .swapped ∧ (frames.drained i).isNone then frames.drainFrames i
  else if frames.hub.handlers i = .stored ∧ frames.pumping = false then
    { frames with pumping := true }
  else { frames with hub := frames.hub.handler i now }

/-- The pump lets go of the frame that it held. -/
def release (frames : Frames) (reason : Reason) : Frames :=
  { frames with
    hand := none
    dropped := frames.dropped ++ frames.hand.toList.map (Prod.mk reason) }

/-- The pump with a frame: it loads the socket, and drops a frame that is too long. -/
def load (frames : Frames) (entry : Entry) : Frames :=
  match frames.hub.conn with
  | none => frames.release .detached
  | some _ =>
    if 0 < frames.maxMessageBytes ∧ frames.maxMessageBytes < entry.bytes.length then
      frames.release .oversize
    else { frames with hub := frames.hub.pumped false }

/-- The end of `WriteMessage`. -/
def wrote (frames : Frames) (conn : ℕ) (entry : Entry) (failed : Bool) : Frames :=
  if failed then { frames.release (.failed conn) with hub := frames.hub.pumped true }
  else
    { frames with
      hub := frames.hub.pumped false
      hand := none
      sent := frames.sent ++ [(conn, entry)] }

/-- The pump, which waits on an empty channel. -/
def take (frames : Frames) : Frames :=
  match frames.frameCh with
  | [] => frames
  | entry :: rest => { frames with frameCh := rest, hand := some entry }

/-- `pump` and `retireConnection`, by their atomic steps. -/
def pumped (frames : Frames) (failed : Bool) : Frames :=
  match frames.hub.pump, frames.hand with
  | .idle, none => frames.take
  | .idle, some entry => frames.load entry
  | .writing conn, some entry => frames.wrote conn entry failed
  | _, _ => { frames with hub := frames.hub.pumped failed }

end Frames

def step (frames : Frames) : Turn → Frames
  | .write i p now => frames.write i p now
  | .handler i now => frames.handler i now
  | .pump failed => if frames.pumping then frames.pumped failed else frames

/-! ## The hub under the channel -/

section Hub

variable (frames : Frames)

theorem discard_hub (reason : Reason) : (frames.discard reason).hub = frames.hub := by
  unfold Frames.discard
  split <;> rfl

theorem write_hub (i : ℕ) (p : List UInt8) (now : ℤ) :
    (frames.write i p now).hub = frames.hub := by
  unfold Frames.write
  split
  · rfl
  · rfl
  · rfl
  · rfl
  · split <;> rfl
  · exact discard_hub frames _
  · split <;> rfl
  · rfl
  · rfl
  · rfl

/-- The drain and `ensurePump` are no steps of the hub. -/
theorem handler_hub (i : ℕ) (now : ℤ) :
    (frames.handler i now).hub = frames.hub ∨
      (frames.handler i now).hub = frames.hub.handler i now := by
  unfold Frames.handler
  split
  · refine .inl ?_
    unfold Frames.drainFrames
    split
    · rfl
    · exact discard_hub frames _
  · split
    · exact .inl rfl
    · exact .inr rfl

/-- Taking a frame and dropping it are no steps of the hub. -/
theorem pumped_hub (failed : Bool) :
    (frames.pumped failed).hub = frames.hub ∨
      ∃ failed', (frames.pumped failed).hub = frames.hub.pumped failed' := by
  unfold Frames.pumped
  split
  · refine .inl ?_
    unfold Frames.take
    split <;> rfl
  · unfold Frames.load
    split
    · exact .inl rfl
    · split
      · exact .inl rfl
      · exact .inr ⟨false, rfl⟩
  · unfold Frames.wrote
    split
    · exact .inr ⟨true, rfl⟩
    · exact .inr ⟨false, rfl⟩
  · exact .inr ⟨failed, rfl⟩

/-- The sockets under the queue take the turns of `Attached`, or none. -/
theorem hub_step (turn : Turn) :
    (step frames turn).hub = frames.hub ∨
      ∃ turn', (step frames turn).hub = Attached.step frames.hub turn' := by
  cases turn with
  | write i p now => exact .inl (write_hub frames i p now)
  | handler i now =>
    exact (handler_hub frames i now).imp_right fun h => ⟨.handler i now, h⟩
  | pump failed =>
    show (if frames.pumping then frames.pumped failed else frames).hub = frames.hub ∨
      ∃ turn', (if frames.pumping then frames.pumped failed else frames).hub =
        Attached.step frames.hub turn'
    split
    · exact (pumped_hub frames failed).imp_right fun ⟨failed', h⟩ => ⟨.pump failed', h⟩
    · exact .inl rfl

/-- The hub goes through a run of handlers and pump alone. -/
theorem hub_run (turns : List Turn) :
    ∃ turns', (runFrom step frames turns).hub = runFrom Attached.step frames.hub turns' := by
  induction turns generalizing frames with
  | nil => exact ⟨[], rfl⟩
  | cons turn turns ih =>
    obtain ⟨turns', hturns⟩ := ih (step frames turn)
    rw [runFrom_cons, hturns]
    rcases hub_step frames turn with hsame | ⟨turn', hturn⟩
    · rw [hsame]
      exact ⟨turns', rfl⟩
    · rw [hturn]
      exact ⟨turn' :: turns', rfl⟩

end Hub

/-! ## Where the frames are -/

/-- All the frames ever sent to the channel. -/
def entries (pushed : List (List UInt8)) : List Entry := pushed.mapIdx Entry.mk

/-- The frames delivered, held and waiting. -/
def Frames.line (frames : Frames) : List Entry :=
  frames.sent.map Prod.snd ++ frames.hand.toList ++ frames.frameCh

/-- The pump writes frames of this length. -/
def Frames.Fits (frames : Frames) (entry : Entry) : Prop :=
  0 < frames.maxMessageBytes → entry.bytes.length ≤ frames.maxMessageBytes

/-- What the channel, the pump and the calls of `Write` keep. -/
structure Kept (frames : Frames) : Prop where
  size : 0 < frames.size
  bounded : frames.frameCh.length ≤ frames.size
  order : frames.line.Sublist (entries frames.pushed)
  all : (frames.dropped.map Prod.snd ++ frames.line).Perm (entries frames.pushed)
  sent : ∀ d ∈ frames.sent, frames.Fits d.2
  writing : ∀ conn entry, frames.hub.pump = .writing conn → frames.hand = some entry →
    frames.Fits entry
  retry : ∀ i p mark, frames.writers i = .retry p mark → mark ≤ frames.pushed.length ∧
    frames.frameCh.length + mark < frames.size + frames.pushed.length
  overtaken : ∀ i mark now, frames.writers i = .overtaken mark now → mark < now

theorem entries_concat (pushed : List (List UInt8)) (p : List UInt8) :
    entries (pushed ++ [p]) = entries pushed ++ [⟨pushed.length, p⟩] :=
  List.mapIdx_concat

section Kept

variable {frames : Frames} {i : ℕ}

/-- A `Write` goes on to an operation that is not its last, or has ended well. -/
theorem Kept.move (h : Kept frames) {writer : Writer}
    (hretry : ∀ p mark, writer = .retry p mark → mark ≤ frames.pushed.length ∧
      frames.frameCh.length + mark < frames.size + frames.pushed.length)
    (hovertaken : ∀ mark now, writer = .overtaken mark now → mark < now) :
    Kept (frames.moveWriter i writer) := by
  refine ⟨h.size, h.bounded, h.order, h.all, h.sent, h.writing, fun j p mark hj => ?_,
    fun j mark now hj => ?_⟩
  · by_cases hji : j = i
    · subst hji
      exact hretry p mark ((Function.update_self _ _ _).symm.trans hj)
    · exact h.retry j p mark ((Function.update_of_ne hji _ _).symm.trans hj)
  · by_cases hji : j = i
    · subst hji
      exact hovertaken mark now ((Function.update_self _ _ _).symm.trans hj)
    · exact h.overtaken j mark now ((Function.update_of_ne hji _ _).symm.trans hj)

/-- A frame that is sent comes last everywhere. -/
theorem Kept.push (h : Kept frames) (hroom : frames.frameCh.length < frames.size)
    (p : List UInt8) : Kept (frames.push p) := by
  have hline : (frames.push p).line = frames.line ++ [⟨frames.pushed.length, p⟩] := by
    show _ ++ (frames.frameCh ++ [_]) = _
    rw [← List.append_assoc]
    rfl
  have hlength : (frames.push p).frameCh.length = frames.frameCh.length + 1 :=
    List.length_append
  have hpushed : (frames.push p).pushed.length = frames.pushed.length + 1 :=
    List.length_append
  refine ⟨h.size, ?_, ?_, ?_, h.sent, h.writing, fun j q mark hj => ?_, h.overtaken⟩
  · rw [hlength]
    exact hroom
  · rw [hline]
    show List.Sublist _ (entries (frames.pushed ++ [p]))
    rw [entries_concat]
    exact h.order.append_right _
  · rw [hline]
    show List.Perm _ (entries (frames.pushed ++ [p]))
    rw [entries_concat, ← List.append_assoc]
    exact h.all.append_right _
  · obtain ⟨hmark, hfew⟩ := h.retry j q mark hj
    rw [hlength, hpushed]
    show _ ∧ _ < frames.size + _
    omega

/-- A frame that is thrown away is the oldest on the channel. -/
theorem Kept.discard (h : Kept frames) (reason : Reason) : Kept (frames.discard reason) := by
  unfold Frames.discard
  split
  · exact h
  · rename_i entry rest hch
    have hbefore : frames.line = frames.sent.map Prod.snd ++ frames.hand.toList ++
        (entry :: rest) := by
      rw [Frames.line, hch]
    refine ⟨h.size, ?_, ?_, ?_, h.sent, h.writing, fun j p mark hj => ?_, h.overtaken⟩
    · have hbounded := h.bounded
      rw [hch] at hbounded
      exact (Nat.le_succ _).trans hbounded
    · refine List.Sublist.trans ?_ h.order
      rw [hbefore]
      exact (List.sublist_cons_self entry rest).append_left _
    · refine List.Perm.trans ?_ h.all
      rw [hbefore]
      show (List.map Prod.snd (frames.dropped ++ [(reason, entry)]) ++ _).Perm _
      rw [List.map_append, List.append_assoc]
      refine List.Perm.append_left _ ?_
      show (entry :: (_ ++ rest)).Perm _
      exact List.perm_middle.symm
    · obtain ⟨hmark, hfew⟩ := h.retry j p mark hj
      rw [hch, List.length_cons] at hfew
      exact ⟨hmark, by show rest.length + mark < frames.size + frames.pushed.length; omega⟩

/-- Room after a discard. -/
theorem Kept.discard_room (h : Kept frames) (reason : Reason) :
    (frames.discard reason).frameCh.length < frames.size := by
  unfold Frames.discard
  split
  · rename_i hch
    rw [hch]
    exact h.size
  · rename_i entry rest hch
    have hbounded := h.bounded
    rw [hch, List.length_cons] at hbounded
    show rest.length < frames.size
    omega

theorem discard_writers (frames : Frames) (reason : Reason) :
    (frames.discard reason).writers = frames.writers ∧
      (frames.discard reason).pushed = frames.pushed ∧
      (frames.discard reason).size = frames.size := by
  unfold Frames.discard
  split <;> exact ⟨rfl, rfl, rfl⟩

/-- The pump takes the oldest frame. -/
theorem Kept.take (h : Kept frames) (hpump : frames.hub.pump = .idle)
    (hhand : frames.hand = none) : Kept frames.take := by
  unfold Frames.take
  split
  · exact h
  · rename_i entry rest hch
    have hline : frames.line = frames.sent.map Prod.snd ++ [entry] ++ rest := by
      rw [Frames.line, hch, hhand, List.append_assoc, List.append_assoc]
      rfl
    refine ⟨h.size, ?_, ?_, ?_, h.sent, fun conn e hwriting => ?_, fun j p mark hj => ?_,
      h.overtaken⟩
    · have hbounded := h.bounded
      rw [hch] at hbounded
      exact (Nat.le_succ _).trans hbounded
    · have horder := h.order
      rwa [hline] at horder
    · have hall := h.all
      rwa [hline] at hall
    · cases hpump.symm.trans hwriting
    · obtain ⟨hmark, hfew⟩ := h.retry j p mark hj
      rw [hch, List.length_cons] at hfew
      exact ⟨hmark, by show rest.length + mark < frames.size + frames.pushed.length; omega⟩

/-- The pump drops the frame that it holds. -/
theorem Kept.release (h : Kept frames) (reason : Reason) : Kept (frames.release reason) := by
  have hmoved : ((frames.dropped ++ frames.hand.toList.map (Prod.mk reason)).map Prod.snd ++
      (frames.release reason).line).Perm (frames.dropped.map Prod.snd ++ frames.line) := by
    show (_ ++ (frames.sent.map Prod.snd ++ [] ++ frames.frameCh)).Perm
      (_ ++ (frames.sent.map Prod.snd ++ frames.hand.toList ++ frames.frameCh))
    rw [List.map_append, List.map_map, List.append_nil, List.append_assoc]
    refine List.Perm.append_left _ ?_
    rw [← List.append_assoc]
    refine List.Perm.append_right _ ?_
    show (frames.hand.toList.map id ++ _).Perm _
    rw [List.map_id]
    exact List.perm_append_comm
  refine ⟨h.size, h.bounded, ?_, hmoved.trans h.all, h.sent, nofun, h.retry, h.overtaken⟩
  refine List.Sublist.trans ?_ h.order
  show (frames.sent.map Prod.snd ++ [] ++ frames.frameCh).Sublist _
  refine List.Sublist.append_right ?_ _
  exact (List.nil_sublist _).append_left _

/-- The hub moves on, and starts no write. -/
theorem Kept.hub (h : Kept frames) {hub : Hub}
    (hpump : ∀ conn, hub.pump = .writing conn → frames.hub.pump = .writing conn) :
    Kept { frames with hub := hub } :=
  ⟨h.size, h.bounded, h.order, h.all, h.sent,
    fun conn entry hwriting => h.writing conn entry (hpump conn hwriting), h.retry, h.overtaken⟩

/-- A turn of `Write` keeps the line: it pushes its frame behind the others, makes room, or
waits. -/
theorem write_kept (h : Kept frames) (i : ℕ) (p : List UInt8) (now : ℤ) :
    Kept (frames.write i p now) := by
  unfold Frames.write
  split
  · refine h.move (fun q mark hw => ?_) (fun mark now hw => ?_) <;> split at hw <;> cases hw
  · refine h.move (fun q mark hw => ?_) (fun mark now hw => ?_) <;> split at hw <;> cases hw
  · refine h.move (fun q mark hw => ?_) (fun mark now hw => ?_) <;> split at hw <;> cases hw
  · refine h.move (fun q mark hw => ?_) (fun mark now hw => ?_)
    · split at hw
      · cases hw
      · split at hw <;> cases hw
    · split at hw
      · cases hw
      · split at hw <;> cases hw
  · split
    · rename_i hroom
      exact (h.push hroom _).move nofun nofun
    · exact h.move nofun nofun
  · obtain ⟨-, hpushed, hsize⟩ := discard_writers frames (.overflow i)
    refine (h.discard _).move (fun q mark hw => ?_) nofun
    cases hw
    have hroom := h.discard_room (.overflow i)
    rw [hpushed, hsize]
    omega
  · rename_i q mark hwriter
    split
    · rename_i hroom
      exact (h.push hroom _).move nofun nofun
    · rename_i hfull
      refine h.move nofun fun mark' now' hw => ?_
      cases hw
      -- the channel is full again, so that something was sent since the discard
      obtain ⟨-, hfew⟩ := h.retry i q mark hwriter
      omega
  · exact h
  · exact h
  · exact h

theorem handler_pump (hub : Hub) (i : ℕ) (now : ℤ) : (hub.handler i now).pump = hub.pump := by
  have hclose : ∀ (hub : Hub) (conn : Option ℕ), (hub.close conn).pump = hub.pump := by
    intro hub conn
    cases conn <;> rfl
  unfold Hub.handler
  split
  · rfl
  · rfl
  · exact hclose _ _
  · rfl
  · rfl
  · rfl
  · rfl
  · split <;> rfl
  · rfl
  · rfl

/-- A handler that drains the channel leaves the rest of the line in order. -/
theorem handler_kept (h : Kept frames) (i : ℕ) (now : ℤ) : Kept (frames.handler i now) := by
  unfold Frames.handler
  split
  · unfold Frames.drainFrames
    split
    · exact ⟨h.size, h.bounded, h.order, h.all, h.sent, h.writing, h.retry, h.overtaken⟩
    · exact h.discard _
  · split
    · exact ⟨h.size, h.bounded, h.order, h.all, h.sent, h.writing, h.retry, h.overtaken⟩
    · exact h.hub fun conn hwriting => (handler_pump frames.hub i now).symm.trans hwriting

/-- Of an idle pump that starts to write, the socket is the one in `conn`. -/
theorem pumped_writing (hub : Hub) (failed : Bool) {conn : ℕ}
    (h : (hub.pumped failed).pump = .writing conn) :
    hub.pump = .idle ∧ hub.conn = some conn := by
  unfold Hub.pumped at h
  split at h
  · rename_i hidle
    split at h
    · cases hidle.symm.trans h
    · rename_i hconn
      cases h
      exact ⟨hidle, hconn⟩
  · split at h <;> cases h
  · split at h <;> cases h
  · cases h

/-- The pump moves the frame in its hand to the socket, or drops it. -/
theorem pumped_kept (h : Kept frames) (failed : Bool) : Kept (frames.pumped failed) := by
  unfold Frames.pumped
  split
  · rename_i hpump hhand
    exact h.take hpump hhand
  · rename_i entry hpump hhand
    unfold Frames.load
    split
    · exact h.release _
    · split
      · exact h.release _
      · rename_i hfits
        refine ⟨h.size, h.bounded, h.order, h.all, h.sent, fun conn e _ he => ?_, h.retry,
          h.overtaken⟩
        cases hhand.symm.trans he
        intro hpositive
        show (entry.bytes.length : ℤ) ≤ frames.maxMessageBytes
        exact not_lt.mp fun hlong => hfits ⟨hpositive, hlong⟩
  · rename_i conn entry hpump hhand
    -- where a frame is written the pump of the hub does not start another one
    have hidle : ∀ (failed' : Bool) (conn' : ℕ),
        (frames.hub.pumped failed').pump ≠ .writing conn' := by
      intro failed' conn' hwriting
      cases hpump.symm.trans (pumped_writing frames.hub failed' hwriting).1
    unfold Frames.wrote
    split
    · exact (h.release _).hub fun conn' hwriting => absurd hwriting (hidle true conn')
    · -- the frame goes from the hand to what was sent, so the line stays the same
      have hline : (frames.sent ++ [(conn, entry)]).map Prod.snd ++ [] ++ frames.frameCh =
          frames.line := by
        rw [Frames.line, hhand, List.map_append, List.append_nil]
        rfl
      refine ⟨h.size, h.bounded, ?_, ?_, fun d hd => ?_, fun conn' e hwriting => ?_, h.retry,
        h.overtaken⟩
      · show ((frames.sent ++ [(conn, entry)]).map Prod.snd ++ [] ++ frames.frameCh).Sublist _
        rw [hline]
        exact h.order
      · show (_ ++ ((frames.sent ++ [(conn, entry)]).map Prod.snd ++ [] ++
          frames.frameCh)).Perm _
        rw [hline]
        exact h.all
      · rcases List.mem_append.mp hd with hd | hd
        · exact h.sent d hd
        · rw [List.mem_singleton.mp hd]
          exact h.writing conn entry hpump hhand
      · exact absurd hwriting (hidle false conn')
  · rename_i hnoHand hnoEntry hnoWriting
    refine h.hub fun conn hwriting => ?_
    obtain ⟨hidle, -⟩ := pumped_writing frames.hub failed hwriting
    cases hhand : frames.hand with
    | none => exact absurd hhand (hnoHand hidle)
    | some entry => exact absurd hhand (hnoEntry entry hidle)

/-- Every turn keeps the line. -/
theorem kept_step (frames : Frames) (turn : Turn) (h : Kept frames) :
    Kept (step frames turn) := by
  cases turn with
  | write i p now => exact write_kept h i p now
  | handler i now => exact handler_kept h i now
  | pump failed =>
    show Kept (if frames.pumping then frames.pumped failed else frames)
    split
    · exact pumped_kept h failed
    · exact h

end Kept

theorem kept_new (queueFrames maxMessageBytes : ℤ) : Kept (.new queueFrames maxMessageBytes) := by
  have hsize : 0 < (Frames.new queueFrames maxMessageBytes).size := by
    show 0 < if queueFrames ≤ 0 then 256 else queueFrames.toNat
    split
    · omega
    · omega
  exact ⟨hsize, Nat.zero_le _, .refl _, .refl _, nofun, nofun, nofun, nofun⟩

/-- The size of the channel and `MaxMessageBytes` stay. -/
theorem step_config (frames : Frames) (turn : Turn) :
    (step frames turn).size = frames.size ∧
      (step frames turn).maxMessageBytes = frames.maxMessageBytes := by
  -- a frame that is dropped is taken off the channel, and counted
  have hdiscard : ∀ reason, (frames.discard reason).size = frames.size ∧
      (frames.discard reason).maxMessageBytes = frames.maxMessageBytes := by
    intro reason
    unfold Frames.discard
    split <;> exact ⟨rfl, rfl⟩
  cases turn with
  | write i p now =>
    show (frames.write i p now).size = _ ∧ (frames.write i p now).maxMessageBytes = _
    unfold Frames.write
    split
    case h_5 => split <;> exact ⟨rfl, rfl⟩
    case h_6 => exact hdiscard _
    case h_7 => split <;> exact ⟨rfl, rfl⟩
    all_goals exact ⟨rfl, rfl⟩
  | handler i now =>
    show (frames.handler i now).size = _ ∧ (frames.handler i now).maxMessageBytes = _
    unfold Frames.handler Frames.drainFrames
    split
    · split
      · exact ⟨rfl, rfl⟩
      · exact hdiscard _
    · split <;> exact ⟨rfl, rfl⟩
  | pump failed =>
    show (if frames.pumping then frames.pumped failed else frames).size = _ ∧
      (if frames.pumping then frames.pumped failed else frames).maxMessageBytes = _
    unfold Frames.pumped Frames.take Frames.load Frames.wrote
    split
    · split
      · split <;> exact ⟨rfl, rfl⟩
      · split
        · exact ⟨rfl, rfl⟩
        · split <;> exact ⟨rfl, rfl⟩
      · split <;> exact ⟨rfl, rfl⟩
      · exact ⟨rfl, rfl⟩
    · exact ⟨rfl, rfl⟩

/-- Along every interleaving of calls of `Write`, handlers and the pump, the channel
holds at most its size; the frames delivered, the one that the pump holds and those on
the channel are in this order among the frames sent, each of which is one of these or
was dropped, exactly once; no delivered frame is longer than `MaxMessageBytes`; and a
`Write` gives up its own frame only if another frame was sent since it made room. -/
theorem frames_in_order (queueFrames maxMessageBytes : ℤ) (turns : List Turn) :
    Everywhere step
      (fun frames =>
        (frames.frameCh.length : ℤ) ≤ (if queueFrames ≤ 0 then 256 else queueFrames) ∧
        frames.line.Sublist (entries frames.pushed) ∧
        (frames.dropped.map Prod.snd ++ frames.line).Perm (entries frames.pushed) ∧
        (∀ d ∈ frames.sent, 0 < maxMessageBytes → d.2.bytes.length ≤ maxMessageBytes) ∧
        ∀ i mark now, frames.writers i = .overtaken mark now → mark < now)
      (.new queueFrames maxMessageBytes) turns := by
  -- a size that is not positive stands for the default one
  have hsize : ((Frames.new queueFrames maxMessageBytes).size : ℤ) =
      if queueFrames ≤ 0 then 256 else queueFrames := by
    show ((if queueFrames ≤ 0 then 256 else queueFrames.toNat : ℕ) : ℤ) = _
    split
    · rfl
    · omega
  -- the bounds are set once, when the queue is made
  have hstep : ∀ (frames : Frames) (turn : Turn),
      (Kept frames ∧ frames.size = (Frames.new queueFrames maxMessageBytes).size ∧
        frames.maxMessageBytes = maxMessageBytes) →
      Kept (step frames turn) ∧
        (step frames turn).size = (Frames.new queueFrames maxMessageBytes).size ∧
        (step frames turn).maxMessageBytes = maxMessageBytes := by
    rintro frames turn ⟨hkept, hsame, hmax⟩
    obtain ⟨hsize', hmax'⟩ := step_config frames turn
    exact ⟨kept_step frames turn hkept, hsize'.trans hsame, hmax'.trans hmax⟩
  refine everywhere_of_always hstep ?_ ⟨kept_new queueFrames maxMessageBytes, rfl, rfl⟩ turns
  rintro frames ⟨hkept, hsame, hmax⟩
  refine ⟨?_, hkept.order, hkept.all, fun d hd => ?_, hkept.overtaken⟩
  · rw [← hsize, ← hsame]
    exact Int.ofNat_le.mpr hkept.bounded
  · rw [← hmax]
    exact hkept.sent d hd

/-! ## What a new socket gets -/

/-- The drain of every socket that was stored has ended, and what the pump and the
channel then held is all that it can get from before. -/
structure Fresh (frames : Frames) : Prop where
  begun : ∀ c, (frames.hub.handlers c).HasStored → frames.drained c ≠ none
  sent : ∀ d ∈ frames.sent, frames.drained d.1 ≠ none
  mark : ∀ c drain, frames.drained c = some drain → drain.mark ≤ frames.pushed.length
  channel : ∀ c drain, frames.drained c = some drain →
    ∀ entry ∈ frames.frameCh, drain.mark ≤ entry.place
  hand : ∀ c drain, frames.drained c = some drain →
    ∀ entry, frames.hand = some entry → drain.mark ≤ entry.place ∨ drain.held = some entry
  delivered : ∀ c drain, frames.drained c = some drain →
    ∀ d ∈ frames.sent, d.1 = c → drain.mark ≤ d.2.place ∨ drain.held = some d.2

section Fresh

variable {frames : Frames}

/-- Dropping a frame leaves nothing older behind. -/
theorem discard_fresh (h : Fresh frames) (reason : Reason) : Fresh (frames.discard reason) := by
  unfold Frames.discard
  split
  · exact h
  · rename_i entry rest hch
    refine ⟨h.begun, h.sent, h.mark, fun c drain hc e he => ?_, h.hand, h.delivered⟩
    refine h.channel c drain hc e ?_
    rw [hch]
    exact List.mem_cons_of_mem _ he

/-- A frame that is pushed now is newer than every drain so far. -/
theorem push_fresh (h : Fresh frames) (p : List UInt8) : Fresh (frames.push p) := by
  refine ⟨h.begun, h.sent, fun c drain hc => ?_, fun c drain hc e he => ?_, h.hand,
    h.delivered⟩
  · show drain.mark ≤ (frames.pushed ++ [p]).length
    rw [List.length_append]
    exact (h.mark c drain hc).trans (Nat.le_add_right _ _)
  · rcases List.mem_append.mp he with he | he
    · exact h.channel c drain hc e he
    · rw [List.mem_singleton.mp he]
      exact h.mark c drain hc

/-- The calls of `Write` are not looked at. -/
theorem moveWriter_fresh (h : Fresh frames) (i : ℕ) (writer : Writer) :
    Fresh (frames.moveWriter i writer) :=
  ⟨h.begun, h.sent, h.mark, h.channel, h.hand, h.delivered⟩

theorem write_fresh (h : Fresh frames) (i : ℕ) (p : List UInt8) (now : ℤ) :
    Fresh (frames.write i p now) := by
  unfold Frames.write
  split
  case h_5 =>
    split
    · exact moveWriter_fresh (push_fresh h _) _ _
    · exact moveWriter_fresh h _ _
  case h_6 => exact moveWriter_fresh (discard_fresh h _) _ _
  case h_7 =>
    split
    · exact moveWriter_fresh (push_fresh h _) _ _
    · exact moveWriter_fresh h _ _
  case h_8 => exact h
  case h_9 => exact h
  case h_10 => exact h
  all_goals exact moveWriter_fresh h _ _

/-- A drain that ends leaves an empty channel. -/
theorem drainFrames_fresh (h : Fresh frames) {i : ℕ} (hi : frames.drained i = none) :
    Fresh (frames.drainFrames i) := by
  unfold Frames.drainFrames
  split
  · rename_i hch
    have hcases : ∀ c drain,
        Function.update frames.drained i (some ⟨frames.pushed.length, frames.hand⟩) c =
          some drain →
        (c = i ∧ drain = ⟨frames.pushed.length, frames.hand⟩) ∨ frames.drained c = some drain := by
      intro c drain hc
      by_cases hci : c = i
      · subst hci
        rw [Function.update_self] at hc
        exact .inl ⟨rfl, (Option.some.inj hc).symm⟩
      · exact .inr ((Function.update_of_ne hci _ _).symm.trans hc)
    have hkeep : ∀ c, frames.drained c ≠ none →
        Function.update frames.drained i (some ⟨frames.pushed.length, frames.hand⟩) c ≠
          none := by
      intro c hc
      by_cases hci : c = i
      · exact absurd (hci ▸ hi) hc
      · rwa [Function.update_of_ne hci]
    refine ⟨fun c hc => hkeep c (h.begun c hc), fun d hd => hkeep d.1 (h.sent d hd),
      fun c drain hc => ?_, fun c drain _ e he => ?_, fun c drain hc e he => ?_,
      fun c drain hc d hd hdc => ?_⟩
    · rcases hcases c drain hc with ⟨-, rfl⟩ | hc
      · exact le_rfl
      · exact h.mark c drain hc
    · rw [hch] at he
      cases he
    · rcases hcases c drain hc with ⟨-, rfl⟩ | hc
      · exact .inr he
      · exact h.hand c drain hc e he
    · rcases hcases c drain hc with ⟨hci, -⟩ | hc
      · -- nothing was delivered to a socket before its drain
        exact absurd (hdc.trans hci ▸ hi) (h.sent d hd)
      · exact h.delivered c drain hc d hd hdc
  · exact discard_fresh h _

/-- A handler stores its own socket, after its swap. -/
theorem handler_hasStored {hub : Hub} {i : ℕ} {now : ℤ} {c : ℕ}
    (h : ((hub.handler i now).handlers c).HasStored) :
    (hub.handlers c).HasStored ∨ (c = i ∧ hub.handlers i = .swapped) := by
  have hclose : ∀ (hub : Hub) (conn : Option ℕ), (hub.close conn).handlers = hub.handlers := by
    intro hub conn
    cases conn <;> rfl
  by_cases hci : c = i
  · subst hci
    cases hphase : hub.handlers c with
    | swapped => exact .inr ⟨rfl, rfl⟩
    | idle =>
      rw [Hub.handler, hphase] at h
      exact absurd (handlers_self _) h.2.1
    | paused =>
      rw [Hub.handler, hphase] at h
      exact absurd (handlers_self _) h.2.2.1
    | reset =>
      rw [Hub.handler, hphase] at h
      exact absurd (handlers_self _) h.2.2.2
    | stored => exact .inl ⟨nofun, nofun, nofun, nofun⟩
    | dated => exact .inl ⟨nofun, nofun, nofun, nofun⟩
    | reading => exact .inl ⟨nofun, nofun, nofun, nofun⟩
    | closing => exact .inl ⟨nofun, nofun, nofun, nofun⟩
    | removed => exact .inl ⟨nofun, nofun, nofun, nofun⟩
    | done => exact .inl ⟨nofun, nofun, nofun, nofun⟩
  · have hother : (hub.handler i now).handlers c = hub.handlers c := by
      -- a handler moves no phase but its own
      have hmove : ∀ (hub' : Hub) (phase : Phase), hub'.handlers = hub.handlers →
          (hub'.move i phase).handlers c = hub.handlers c := by
        intro hub' phase hsame
        show Function.update hub'.handlers i phase c = _
        rw [Function.update_of_ne hci, hsame]
      unfold Hub.handler
      split
      · exact hmove _ _ rfl
      · exact hmove _ _ rfl
      · exact hmove _ _ (hclose _ _)
      · exact hmove _ _ rfl
      · exact hmove _ _ rfl
      · exact hmove _ _ rfl
      · exact hmove _ _ rfl
      · split <;> exact hmove _ _ rfl
      · exact hmove _ _ rfl
      · rfl
    rw [hother] at h
    exact .inl h

/-- A drain empties the channel, so what is left is newer, but for a frame that the pump
holds. -/
theorem handler_fresh (h : Fresh frames) (i : ℕ) (now : ℤ) : Fresh (frames.handler i now) := by
  unfold Frames.handler
  split
  · rename_i hdraining
    exact drainFrames_fresh h (Option.isNone_iff_eq_none.mp hdraining.2)
  · rename_i hdrained
    split
    · exact ⟨h.begun, h.sent, h.mark, h.channel, h.hand, h.delivered⟩
    · refine ⟨fun c hc => ?_, h.sent, h.mark, h.channel, h.hand, h.delivered⟩
      rcases handler_hasStored hc with hstored | ⟨rfl, hswapped⟩
      · exact h.begun c hstored
      · intro hnone
        exact hdrained ⟨hswapped, Option.isNone_iff_eq_none.mpr hnone⟩

theorem pumped_handlers (hub : Hub) (failed : Bool) :
    (hub.pumped failed).handlers = hub.handlers := by
  unfold Hub.pumped
  split
  · split <;> rfl
  · split <;> rfl
  · split <;> rfl
  · rfl

/-- The pump moves the hub, which keeps the handlers, and holds no frame or the same. -/
theorem Fresh.pumped (h : Fresh frames) (failed : Bool) :
    Fresh { frames with hub := frames.hub.pumped failed } := by
  refine ⟨fun c hc => ?_, h.sent, h.mark, h.channel, h.hand, h.delivered⟩
  have hc' : ((frames.hub.pumped failed).handlers c).HasStored := hc
  rw [pumped_handlers] at hc'
  exact h.begun c hc'

theorem release_fresh (h : Fresh frames) (reason : Reason) : Fresh (frames.release reason) :=
  ⟨h.begun, h.sent, h.mark, h.channel, nofun, h.delivered⟩

/-- What the pump takes off the channel was pushed after the drains. -/
theorem take_fresh (h : Fresh frames) : Fresh frames.take := by
  unfold Frames.take
  split
  · exact h
  · rename_i entry rest hch
    have hmem : ∀ e ∈ entry :: rest, e ∈ frames.frameCh := fun e he => hch ▸ he
    refine ⟨h.begun, h.sent, h.mark, fun c drain hc e he => ?_, fun c drain hc e he => ?_,
      h.delivered⟩
    · exact h.channel c drain hc e (hmem e (List.mem_cons_of_mem _ he))
    · cases he
      exact .inl (h.channel c drain hc entry (hmem entry List.mem_cons_self))

/-- The socket written to was stored, so that its drain had ended. -/
theorem wrote_fresh (h : Fresh frames) (hplaced : Placed frames.hub) {conn : ℕ} {entry : Entry}
    (hpump : frames.hub.pump = .writing conn) (hhand : frames.hand = some entry)
    (failed : Bool) : Fresh (frames.wrote conn entry failed) := by
  unfold Frames.wrote
  split
  · exact (release_fresh h (.failed conn)).pumped true
  · have hdrained : frames.drained conn ≠ none := h.begun conn (hplaced.target conn (.inl hpump))
    have hmoved := h.pumped false
    refine ⟨hmoved.begun, fun d hd => ?_, h.mark, h.channel, nofun,
      fun c drain hc d hd hdc => ?_⟩
    · rcases List.mem_append.mp hd with hd | hd
      · exact h.sent d hd
      · rw [List.mem_singleton.mp hd]
        exact hdrained
    · rcases List.mem_append.mp hd with hd | hd
      · exact h.delivered c drain hc d hd hdc
      · rw [List.mem_singleton.mp hd]
        exact h.hand c drain hc entry hhand

/-- What the pump writes is newer than the drain of its socket, or was in its hand then. -/
theorem pumped_fresh (h : Fresh frames) (hplaced : Placed frames.hub) (failed : Bool) :
    Fresh (frames.pumped failed) := by
  unfold Frames.pumped
  split
  · exact take_fresh h
  · unfold Frames.load
    split
    · exact release_fresh h _
    · split
      · exact release_fresh h _
      · exact h.pumped false
  · rename_i conn entry hpump hhand
    exact wrote_fresh h hplaced hpump hhand failed
  · exact h.pumped failed

/-- Every turn keeps what is delivered newer than the drain of its socket. -/
theorem fresh_step (frames : Frames) (turn : Turn) (h : Fresh frames)
    (hplaced : Placed frames.hub) : Fresh (step frames turn) := by
  cases turn with
  | write i p now => exact write_fresh h i p now
  | handler i now => exact handler_fresh h i now
  | pump failed =>
    show Fresh (if frames.pumping then frames.pumped failed else frames)
    split
    · exact pumped_fresh h hplaced failed
    · exact h

end Fresh

theorem fresh_new (queueFrames maxMessageBytes : ℤ) :
    Fresh (.new queueFrames maxMessageBytes) :=
  ⟨fun _ hc => absurd rfl hc.1, nofun, nofun, nofun, nofun, nofun⟩

/-- What was delivered to a socket, in the order of the writes. -/
def Frames.deliveredTo (frames : Frames) (c : ℕ) : List Entry :=
  (frames.sent.filter (·.1 = c)).map Prod.snd

/-- Frames are numbered in the order of the pushes. -/
theorem entries_places (pushed : List (List UInt8)) :
    (entries pushed).Pairwise fun e e' => e.place < e'.place := by
  unfold entries
  rw [List.pairwise_iff_getElem]
  intro i j hi hj hij
  rw [List.getElem_mapIdx, List.getElem_mapIdx]
  exact hij

/-- What one socket got are some of the frames sent, in their order. -/
theorem Kept.deliveredTo {frames : Frames} (h : Kept frames) (c : ℕ) :
    (frames.deliveredTo c).Sublist (entries frames.pushed) := by
  refine List.Sublist.trans ?_ h.order
  rw [Frames.line, List.append_assoc]
  exact (List.filter_sublist.map _).trans (List.sublist_append_left _ _)

/-- In an ordered list whose members come after a mark, up to one, that one is the
first. -/
theorem held_first {mark : ℕ} {held : Option Entry} :
    ∀ {es : List Entry}, es.Pairwise (fun e e' => e.place < e'.place) →
      (∀ e ∈ es, mark ≤ e.place ∨ held = some e) →
      (∀ e ∈ es, mark ≤ e.place) ∨
        ∃ e rest, held = some e ∧ es = e :: rest ∧ ∀ e' ∈ rest, mark ≤ e'.place
  | [], _, _ => .inl nofun
  | e :: rest, hplaces, hes => by
    obtain ⟨hfirst, -⟩ := List.pairwise_cons.mp hplaces
    rcases hes e List.mem_cons_self with hmark | hheld
    · refine .inl fun e' he' => ?_
      rcases List.mem_cons.mp he' with rfl | he'
      · exact hmark
      · exact hmark.trans (hfirst e' he').le
    · refine .inr ⟨e, rest, hheld, rfl, fun e' he' => ?_⟩
      refine (hes e' (List.mem_cons_of_mem _ he')).resolve_right fun hheld' => ?_
      cases hheld.symm.trans hheld'
      exact absurd (hfirst e he') (lt_irrefl _)

/-- Along every interleaving, the drain of a socket that got a frame has ended, and
every frame that the socket got was sent to the channel after that, up to the first:
this may be the frame that the pump held when the drain ended. -/
theorem fresh_socket (queueFrames maxMessageBytes : ℤ) (turns : List Turn) (c : ℕ) :
    let frames := runFrom step (.new queueFrames maxMessageBytes) turns
    frames.deliveredTo c = [] ∨ ∃ drain, frames.drained c = some drain ∧
      ((∀ e ∈ frames.deliveredTo c, drain.mark ≤ e.place) ∨
        ∃ e rest, drain.held = some e ∧ frames.deliveredTo c = e :: rest ∧
          ∀ e' ∈ rest, drain.mark ≤ e'.place) := by
  intro frames
  -- the two invariants and the place of the sockets hold together
  have hstep : ∀ (frames : Frames) (turn : Turn),
      (Kept frames ∧ Placed frames.hub ∧ Fresh frames) →
      Kept (step frames turn) ∧ Placed (step frames turn).hub ∧ Fresh (step frames turn) := by
    rintro frames turn ⟨hkept, hplaced, hfresh⟩
    refine ⟨kept_step frames turn hkept, ?_, fresh_step frames turn hfresh hplaced⟩
    rcases hub_step frames turn with hsame | ⟨turn', hturn⟩
    · rwa [hsame]
    · rw [hturn]
      exact placed_step frames.hub turn' hplaced
  obtain ⟨hkept, -, hfresh⟩ : Kept frames ∧ Placed frames.hub ∧ Fresh frames :=
    always_runFrom hstep ⟨kept_new _ _, placed_new, fresh_new _ _⟩ turns
  cases hgot : frames.deliveredTo c with
  | nil => exact .inl rfl
  | cons e es =>
    have hmem : ∀ e ∈ frames.deliveredTo c, (c, e) ∈ frames.sent := by
      intro e he
      obtain ⟨⟨c', e'⟩, hd, rfl⟩ := List.mem_map.mp he
      obtain ⟨hsent, hc'⟩ := List.mem_filter.mp hd
      cases of_decide_eq_true hc'
      exact hsent
    have he : (c, e) ∈ frames.sent := hmem e (hgot ▸ List.mem_cons_self)
    obtain ⟨drain, hdrain⟩ := Option.ne_none_iff_exists'.mp (hfresh.sent (c, e) he)
    refine .inr ⟨drain, hdrain, ?_⟩
    rw [← hgot]
    -- the frames are in the order of the pushes, so the one that was held is the first
    refine held_first ((entries_places _).sublist (hkept.deliveredTo c)) fun e he => ?_
    exact hfresh.delivered c drain hdrain (c, e) (hmem e he) rfl

/-- A first socket, a frame that the pump takes, and a second socket that attaches
before the pump looks for one. -/
def changing : List Turn :=
  List.replicate 8 (.handler 0 1) ++ List.replicate 4 (.write 0 [7] 2) ++ [.pump false] ++
    List.replicate 7 (.handler 1 3) ++ List.replicate 2 (.pump false)

/-- The first frame of a socket can be one from before its drain. -/
theorem stale_first :
    (runFrom step (.new 0 0) changing).deliveredTo 1 = [⟨0, [7]⟩] ∧
      ((runFrom step (.new 0 0) changing).drained 1).map Drain.mark = some 1 := ⟨rfl, rfl⟩

end Symm.Ui.FrameQueue
