import Mathlib.Data.List.Basic

/-!
# The reconnecting socket (`network/websocket.go`)

`WebsocketClient` holds at most one connection. A call that finds none redials,
and a call that fails on one drops it; two hooks tell the owner of the stream.
A client is READY exactly while it holds a connection. The hooks themselves are
the owner's: here a call only says that one is to run.

- `ensureReady` in its three turns: a check, a second one after the backoff, and
  the dial;
- `softDown`, `write`: what a failed call does to the connection.

The code holds its mutex over each of the turns and lets it go for the backoff, so that
is where another call may come in between: `EnsureReady` names the turns and what a call
carries from one to the next. A connection is the list of what was written on it, since
all that a later theorem asks of it is which messages it has seen.

Closing a connection runs the disconnect hook only where a live one goes down. A redial
closes the old one without it, and the reconnect hook runs afterwards, outside of the
mutex: this is the reason for which `dialLocked` and `ensureReady` only report that a
hook is due.
-/

namespace Symm.Network

universe u

/-- `WebsocketClient`, over the messages of type `μ` that its owner writes. `conn`
holds those written on the connection at hand; the flags say which hooks are
registered. -/
structure WebsocketClient (μ : Type u) where
  conn : Option (List μ)
  onDisconnect : Bool
  onReconnect : Bool

/-- The turns of `ensureReady`. -/
inductive EnsureReady
  | check | wait | dial
  deriving DecidableEq

/-- What a turn of `ensureReady` comes to. After a redial the reconnect hook runs. -/
inductive Ensured
  | next (turn : EnsureReady)
  | ready
  | redialed
  | failed

/-- What `Write` comes to. A failure tells whether the disconnect hook runs. -/
inductive Written
  | sent
  | failed (hook : Bool)

namespace WebsocketClient

variable {μ : Type u}

/-- `NewWebsocketClient`. -/
def new : WebsocketClient μ := ⟨none, false, false⟩

/-- `closeConnLocked`. -/
def closeConnLocked (client : WebsocketClient μ) : WebsocketClient μ :=
  { client with conn := none }

/-- `SoftDown`: drop the connection, and run the disconnect hook if it was live. -/
def softDown (client : WebsocketClient μ) : WebsocketClient μ × Bool :=
  (client.closeConnLocked, client.conn.isSome && client.onDisconnect)

/-- `dialLocked`: the connection at hand is closed first, without a hook. -/
def dialLocked (ok : Bool) (client : WebsocketClient μ) : WebsocketClient μ :=
  let client := client.closeConnLocked
  if ok then { client with conn := some [] } else client

/-- A turn of `ensureReady`; `ok` says that a dial succeeds. -/
def ensureReady (ok : Bool) (client : WebsocketClient μ) :
    EnsureReady → WebsocketClient μ × Ensured
  | .check => (client, if client.conn.isSome then .ready else .next .wait)
  | .wait => (client, if client.conn.isSome then .ready else .next .dial)
  | .dial => (client.dialLocked ok, if ok then .redialed else .failed)

/-- The second half of `Write`, once the client was ready. -/
def write (ok : Bool) (message : μ) (client : WebsocketClient μ) : WebsocketClient μ × Written :=
  match client.conn, ok with
  -- a connection that was lost since the check counts as a failed write
  | some messages, true => ({ client with conn := some (messages ++ [message]) }, .sent)
  | _, _ =>
    let (client, hook) := client.softDown
    (client, .failed hook)

/-- The messages written on the connection at hand. -/
def written (client : WebsocketClient μ) : List μ := client.conn.getD []

/-- The checks leave the connection alone. -/
theorem ensureReady_waits (ok : Bool) (client : WebsocketClient μ) {turn : EnsureReady}
    (h : turn ≠ .dial) : client.ensureReady ok turn = (client, .ready) ∨
      ∃ next, client.ensureReady ok turn = (client, .next next) := by
  cases turn with
  | dial => exact absurd rfl h
  | check =>
    cases hconn : client.conn.isSome with
    | true => exact .inl (by simp [ensureReady, hconn])
    | false => exact .inr ⟨.wait, by simp [ensureReady, hconn]⟩
  | wait =>
    cases hconn : client.conn.isSome with
    | true => exact .inl (by simp [ensureReady, hconn])
    | false => exact .inr ⟨.dial, by simp [ensureReady, hconn]⟩

theorem ensureReady_redialed (client : WebsocketClient μ) :
    client.ensureReady true .dial = ({ client with conn := some [] }, .redialed) := rfl

theorem ensureReady_failed (client : WebsocketClient μ) :
    client.ensureReady false .dial = (client.closeConnLocked, .failed) := rfl

/-- Where a registered disconnect hook does not run, there was no connection. -/
theorem written_eq_nil {client : WebsocketClient μ} (hreg : client.onDisconnect = true)
    (hhook : (client.conn.isSome && client.onDisconnect) = false) : client.written = [] := by
  rw [hreg, Bool.and_true, Option.isSome_eq_false_iff, Option.isNone_iff_eq_none] at hhook
  unfold written
  rw [hhook]
  rfl

/-- A write is on the connection at hand, or it drops that. -/
theorem write_cases (ok : Bool) (message : μ) (client : WebsocketClient μ) :
    (client.write ok message =
        ({ client with conn := some (client.written ++ [message]) }, .sent)) ∨
      client.write ok message =
        (client.closeConnLocked, .failed (client.conn.isSome && client.onDisconnect)) := by
  obtain ⟨conn, onDisconnect, onReconnect⟩ := client
  cases conn with
  | none => exact .inr rfl
  | some messages =>
    cases ok with
    | true => exact .inl rfl
    | false => exact .inr rfl

/-- No turn of `ensureReady` registers or clears a hook. -/
theorem ensureReady_onReconnect (ok : Bool) (client : WebsocketClient μ) (turn : EnsureReady) :
    (client.ensureReady ok turn).1.onReconnect = client.onReconnect := by
  cases turn with
  | check => rfl
  | wait => rfl
  | dial => cases ok <;> rfl

/-- Writing does not change the hook. -/
theorem write_onReconnect (ok : Bool) (message : μ) (client : WebsocketClient μ) :
    (client.write ok message).1.onReconnect = client.onReconnect := by
  rcases client.write_cases ok message with h | h
  · rw [h]
  · rw [h]
    rfl

end WebsocketClient

end Symm.Network
