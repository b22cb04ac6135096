import Mathlib.Logic.Function.Basic
import Symm.Broker.Book
import Symm.Lib.Chunks
import Symm.Lib.Machine
import Symm.Network.Websocket

/-!
# The level-3 sockets (`broker/instrument.go`, `cmd/booter.go`)

`SubscribeBooks` opens a socket for each batch of 200 symbols. It starts the
reader of the socket, writes the batch's subscribe frames and only then registers
the two hooks: on a disconnect the books of the batch are marked stale, after a
redial its frames are written again. Meanwhile the readers of the open sockets
read, apply frames to the books and redial on their own, and the pinger of a
socket may drop its connection at any time.

- `subscribeTurn`: a turn of `SubscribeBooks`;
- `readerTurn`: a turn of a reader, with the hooks that it runs, one within the
  other;
- `socketStep`: the machine of both, of the pingers and of the hooks they run.

The wire, the token and the configuration are what each turn reads from outside.
Shutdown is left out, and so is the resubscription of a single invalid book.
-/

namespace Symm.Broker

open Symm.Lib Symm.Network

/-- What `SubscribeLevel3` reads besides the batch: whether a token is available,
`market.l3_depth` and `market.l3_rate_limit`. -/
structure SubscribeEnv where
  token : Bool
  depth : Int
  limit : Int

/-- `level3FrameSize`: how many symbols a subscribe frame may carry. -/
def level3FrameSize (depth limit : Int) : Option ℕ :=
  let cost := if depth = 10 then 5 else if depth = 100 then 25 else if depth = 1000 then 100 else 0
  if cost = 0 then none
  else if limit < cost then none
  else some (limit / cost).toNat

/-- The frames that `SubscribeLevel3` writes, or `none` if it fails before the first. -/
def subscribeLevel3 (env : SubscribeEnv) (batch : List String) : Option (List (List String)) :=
  if ¬ env.token then none
  else if env.depth ≤ 0 then none
  else (level3FrameSize env.depth env.limit).map fun size => chunk size batch

/-! ## One socket -/

/-- A run of the reconnect hook: the frame it is writing and those left. -/
structure HookRun where
  frame : List String
  rest : List (List String)

/-- The reader of a socket. `hooks` are the reconnect hooks that it is in, the
innermost first: a `Write` within a hook may redial and so run the hook again.
`dropping` is the disconnect hook, `failing` a reconnect hook that failed; each has
symbols left to mark. -/
inductive Reader
  | off
  | ensure (turn : EnsureReady) (hooks : List HookRun)
  | write (hook : HookRun) (hooks : List HookRun)
  | reading
  | holding (payload : Level3)
  | dropping (left : List String) (hooks : List HookRun)
  | failing (left : List String) (hooks : List HookRun)

namespace Reader

/-- `ensureReady` has returned to its caller, `Read` or the `Write` of a hook. -/
def proceed : List HookRun → Reader
  | [] => .reading
  | hook :: hooks => .write hook hooks

/-- A reconnect hook with these frames left. -/
def resume (frames : List (List String)) (hooks : List HookRun) : Reader :=
  match frames with
  | [] => proceed hooks
  | frame :: rest => .ensure .check (⟨frame, rest⟩ :: hooks)

/-- An error has returned to the caller: the ingress loop reads again, a hook fails. -/
def fail (batch : List String) : List HookRun → Reader
  | [] => .ensure .check []
  | _ :: hooks => .failing batch hooks

/-- The reader is in a hook. -/
def inHook : Reader → Bool
  | .ensure _ (_ :: _) | .write _ _ | .dropping _ _ | .failing _ _ => true
  | .off | .ensure _ [] | .reading | .holding _ => false

end Reader

/-- A socket: its client, its reader, and the disconnect hooks that its pinger runs,
each with the symbols left to mark. -/
structure Socket where
  client : WebsocketClient (List String)
  reader : Reader
  pinged : List (List String)

/-- No hook of the socket is running. -/
def Socket.idle (socket : Socket) : Bool :=
  ¬ socket.reader.inHook ∧ ∀ left ∈ socket.pinged, left = []

/-- What a reader's turn reads from outside: the environment of a subscription,
whether the dial, the write or the read succeeds, and the frame read. -/
structure ReaderEnv where
  subscribe : SubscribeEnv
  ok : Bool
  payload : Level3

variable {β ν : Type} (sdk : Sdk β ν)

/-- A turn of the reader of a socket. -/
def readerTurn (batch : List String) (env : ReaderEnv) (book : Book β) (socket : Socket) :
    Book β × Socket :=
  match socket.reader with
  | .off => (book, socket)
  | .ensure turn hooks =>
    match socket.client.ensureReady env.ok turn with
    | (client, .next turn) =>
      (book, { socket with client := client, reader := .ensure turn hooks })
    | (client, .ready) => (book, { socket with client := client, reader := .proceed hooks })
    | (client, .redialed) =>
      -- `runHook`: the hook writes the frames of the batch anew
      let reader : Reader := if client.onReconnect then
          match subscribeLevel3 env.subscribe batch with
          | none => .failing batch hooks
          | some frames => .resume frames hooks
        else .proceed hooks
      (book, { socket with client := client, reader := reader })
    | (client, .failed) => (book, { socket with client := client, reader := .fail batch hooks })
  | .write hook hooks =>
    match socket.client.write env.ok hook.frame with
    | (client, .sent) =>
      (book, { socket with client := client, reader := .resume hook.rest hooks })
    | (client, .failed true) =>
      -- the disconnect hook runs before the error returns to the reconnect hook
      (book, { socket with client := client, reader := .dropping batch (hook :: hooks) })
    | (client, .failed false) =>
      (book, { socket with client := client, reader := .fail batch (hook :: hooks) })
  | .reading =>
    -- the connection was read before, so a frame may come from one that is gone by now
    if env.ok then (book, { socket with reader := .holding env.payload })
    else
      match socket.client.softDown with
      | (client, true) => (book, { socket with client := client, reader := .dropping batch [] })
      | (client, false) => (book, { socket with client := client, reader := .fail batch [] })
  | .holding payload =>
    ((book.update sdk payload).1, { socket with reader := .ensure .check [] })
  | .dropping [] hooks => (book, { socket with reader := .fail batch hooks })
  | .dropping (symbol :: left) hooks =>
    (book.markStale [symbol], { socket with reader := .dropping left hooks })
  | .failing [] hooks =>
    -- `runHook` closes the connection itself, so no disconnect hook runs
    (book, { socket with client := socket.client.closeConnLocked, reader := .fail batch hooks })
  | .failing (symbol :: left) hooks =>
    (book.markStale [symbol], { socket with reader := .failing left hooks })

/-! ## `SubscribeBooks` -/

/-- `SubscribeBooks` at the batch `i`: before `Open`, before the reader is started,
before the subscription, within the `Write` of a frame, and before each of the hooks
is registered. -/
inductive Subscriber
  | opening (i : ℕ)
  | starting (i : ℕ)
  | subscribing (i : ℕ)
  | ensure (i : ℕ) (turn : EnsureReady) (frame : List String) (rest : List (List String))
  | write (i : ℕ) (frame : List String) (rest : List (List String))
  | onDisconnect (i : ℕ)
  | onReconnect (i : ℕ)
  | returned
  | failed
  deriving DecidableEq

namespace Subscriber

/-- The loop over the batches. -/
def batch (batches : List (List String)) (i : ℕ) : Subscriber :=
  if i < batches.length then .opening i else .returned

/-- The loop over the frames. -/
def frames (i : ℕ) : List (List String) → Subscriber
  | [] => .onDisconnect i
  | frame :: rest => .ensure i .check frame rest

end Subscriber

/-- The books, `SubscribeBooks` and the sockets of the batches. -/
structure Sockets (β : Type) where
  book : Book β
  subscriber : Subscriber
  sockets : ℕ → Socket

/-- Put a socket in its place. -/
def Sockets.put (i : ℕ) (socket : Socket) (s : Sockets β) : Sockets β :=
  { s with sockets := Function.update s.sockets i socket }

/-- A turn of `SubscribeBooks`; `ok` says that its dial or its write succeeds. Its own
redials run no hook, as the reconnect hook of a batch is registered last. -/
def subscribeTurn (batches : List (List String)) (env : SubscribeEnv) (ok : Bool)
    (s : Sockets β) : Sockets β :=
  match s.subscriber with
  | .opening i =>
    -- a new client, so `Open` finds no hook to run
    { s.put i { s.sockets i with client := WebsocketClient.new.dialLocked ok } with
      subscriber := if ok then .starting i else .failed }
  | .starting i =>
    -- from here on the reader redials on its own
    { s.put i { s.sockets i with reader := .ensure .check [] } with subscriber := .subscribing i }
  | .subscribing i =>
    match subscribeLevel3 env (batches.getD i []) with
    | none => { s with subscriber := .failed }
    | some frames => { s with subscriber := .frames i frames }
  | .ensure i turn frame rest =>
    match (s.sockets i).client.ensureReady ok turn with
    | (client, .next turn) =>
      { s.put i { s.sockets i with client := client } with
        subscriber := .ensure i turn frame rest }
    | (client, .ready) | (client, .redialed) =>
      { s.put i { s.sockets i with client := client } with subscriber := .write i frame rest }
    | (client, .failed) =>
      { s.put i { s.sockets i with client := client } with subscriber := .failed }
  | .write i frame rest =>
    match (s.sockets i).client.write ok frame with
    | (client, .sent) =>
      { s.put i { s.sockets i with client := client } with subscriber := .frames i rest }
    | (client, .failed _) =>
      { s.put i { s.sockets i with client := client } with subscriber := .failed }
  | .onDisconnect i =>
    -- the frames are all written by now
    { s.put i { s.sockets i with client := { (s.sockets i).client with onDisconnect := true } } with
      subscriber := .onReconnect i }
  | .onReconnect i =>
    { s.put i { s.sockets i with client := { (s.sockets i).client with onReconnect := true } } with
      subscriber := .batch batches (i + 1) }
  | .returned | .failed => s

/-! ## All of it -/

/-- What may happen: a turn of `SubscribeBooks`, a turn of a reader, a ping that fails,
and a mark that the `n`-th disconnect hook of a pinger sets. -/
inductive SocketEvent
  | subscribe (env : SubscribeEnv) (ok : Bool)
  | read (i : ℕ) (env : ReaderEnv)
  | ping (i : ℕ)
  | mark (i n : ℕ)

/-- A failed ping drops the connection. -/
def Socket.ping (batch : List String) (socket : Socket) : Socket :=
  match socket.client.softDown with
  | (client, true) => { socket with client := client, pinged := socket.pinged ++ [batch] }
  | (client, false) => { socket with client := client }

/-- One event. -/
def socketStep (batches : List (List String)) (s : Sockets β) : SocketEvent → Sockets β
  | .subscribe env ok => subscribeTurn batches env ok s
  | .read i env =>
    let (book, socket) := readerTurn sdk (batches.getD i []) env s.book (s.sockets i)
    { s.put i socket with book := book }
  | .ping i => s.put i ((s.sockets i).ping (batches.getD i []))
  | .mark i n =>
    match (s.sockets i).pinged[n]? with
    | some (symbol :: left) =>
      { s.put i { s.sockets i with pinged := (s.sockets i).pinged.set n left } with
        book := s.book.markStale [symbol] }
    | _ => s

/-- The batches of a universe. -/
def level3Batches (symbols : List String) : List (List String) := chunk 200 symbols

/-- `SubscribeBooks` is called. -/
def Book.subscribeBooks (symbols : List String) (book : Book β) : Sockets β where
  book := book
  subscriber := .batch (level3Batches symbols) 0
  sockets _ := ⟨.new, .off, []⟩

/-! ## Dead books -/

/-- `Book.Book` gives no book of the symbol: it is pending, stale or invalid. -/
def Book.hidden (book : Book β) (symbol : String) : Bool :=
  book.isPending symbol ∨ symbol ∈ book.stale ∨ (book.invalid.lookup symbol).isSome

/-- A hidden book is not read. -/
theorem Book.read_hidden {book : Book β} {symbol : String} (h : book.hidden symbol = true) :
    book.read symbol = none := by
  unfold read
  rcases of_decide_eq_true h with hpending | hstale | hinvalid
  · rw [if_pos hpending]
  · rw [if_pos hstale, ite_self]
  · rw [if_pos hinvalid, ite_self, ite_self]

/-- The symbols subscribed on the connection that the client holds. -/
def Socket.subscribed (socket : Socket) : List String := socket.client.written.flatten

/-- Once `SubscribeBooks` has returned and while no hook of its socket runs, a symbol
is subscribed on the connection at hand or its book is hidden. -/
def NoneDead (batches : List (List String)) (s : Sockets β) : Prop :=
  s.subscriber = .returned → ∀ i symbol, symbol ∈ batches.getD i [] →
    (s.sockets i).idle = true →
    symbol ∈ (s.sockets i).subscribed ∨ s.book.hidden symbol = true

end Symm.Broker
