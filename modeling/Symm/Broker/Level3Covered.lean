import Symm.Broker.Level3Sockets
import Symm.Broker.Seeding

/-!
# Covered level-3 books

While `SubscribeBooks` runs or a hook does, a symbol may be without its subscription
and its book still be given to readers, as its frame or its mark is still to come. A
symbol is *covered* if it is subscribed on a connection that is there to stay, its
book is hidden, or it is still to be seen to. Two kinds of steps break this:

- a connection closes and no hook runs, as the hook is not registered yet or as a
  second caller of `ensureReady` dials over a connection;
- a snapshot that was read from a connection is applied after the marks that its
  drop has set.

`Tended` steps do neither to a symbol. `readerTurn_covered` is the turn of a reader:
within its hooks, whatever fails, each symbol stays covered.

- `Reader.ahead`, `Socket.ahead`: the symbols that a hook has still to see to;
- `Socket.live`: the symbols that are subscribed on a connection that stays;
- `Socket.Covered`: one of these, or a hidden book;
- `MayClose`, `MayApply`: the two kinds of steps, and when they do no harm.
-/

namespace Symm.Broker

open Symm.Lib Symm.Network

variable {β ν : Type} (sdk : Sdk β ν)

/-! ## What is still to come -/

/-- `SubscribeBooks` still has to subscribe the symbol for the batch. Nothing is asked
of it once it has failed. -/
def Subscriber.due (i : ℕ) (symbol : String) : Subscriber → Bool
  | .opening k | .starting k | .subscribing k => k ≤ i
  | .ensure k _ frame rest | .write k frame rest =>
    k < i ∨ k = i ∧ symbol ∈ (frame :: rest).flatten
  | .onDisconnect k | .onReconnect k => k < i
  | .returned => false
  | .failed => true

/-- The symbols that the innermost hook of a reader has still to subscribe or to mark. -/
def Reader.ahead : Reader → List String
  | .ensure _ (hook :: _) | .write hook _ => (hook.frame :: hook.rest).flatten
  | .dropping left _ | .failing left _ => left
  | .off | .ensure _ [] | .reading | .holding _ => []

/-- Those that any hook of the socket has. -/
def Socket.ahead (socket : Socket) : List String := socket.reader.ahead ++ socket.pinged.flatten

/-- The symbols subscribed on a connection that is there to stay: a failed reconnect
hook is about to close its own. -/
def Socket.live (socket : Socket) : List String :=
  match socket.reader with
  | .failing _ _ => []
  | _ => socket.subscribed

/-- The symbol is subscribed, its book is hidden, or a hook has still to see to it. -/
def Socket.Covered (book : Book β) (socket : Socket) (symbol : String) : Prop :=
  symbol ∈ socket.ahead ∨ symbol ∈ socket.live ∨ book.hidden symbol = true

/-- So is every symbol of every batch, but for those still due. -/
def AllCovered (batches : List (List String)) (s : Sockets β) : Prop :=
  ∀ i symbol, symbol ∈ batches.getD i [] →
    s.subscriber.due i symbol = true ∨ (s.sockets i).Covered s.book symbol

/-! ## The two kinds of steps -/

/-- The turn of the reader closes the connection and runs no hook. -/
def Socket.unhooked (ok : Bool) (socket : Socket) : Bool :=
  match socket.reader with
  | .ensure .dial hooks => if ok then ¬ socket.client.onReconnect else hooks.isEmpty
  | .reading => ¬ ok ∧ ¬ socket.client.onDisconnect
  | _ => false

/-- The socket whose connection closes without a hook. -/
def Sockets.unhooked (s : Sockets β) : SocketEvent → Option ℕ
  | .subscribe _ ok =>
    match s.subscriber with
    | .ensure i .dial _ _ => if ok then some i else none
    | _ => none
  | .read i env => if (s.sockets i).unhooked env.ok then some i else none
  | .ping i => if (s.sockets i).client.onDisconnect then none else some i
  | .mark _ _ => none

/-- The frame that is applied. -/
def Sockets.applied (s : Sockets β) : SocketEvent → Option Level3
  | .read i _ =>
    match (s.sockets i).reader with
    | .holding payload => some payload
    | _ => none
  | _ => none

/-- The symbol is still to be seen to, by `SubscribeBooks` or by a hook of the socket. -/
def Sockets.ToCome (s : Sockets β) (i : ℕ) (symbol : String) : Prop :=
  s.subscriber.due i symbol = true ∨ symbol ∈ (s.sockets i).ahead

instance (s : Sockets β) (i : ℕ) (symbol : String) : Decidable (s.ToCome i symbol) :=
  inferInstanceAs (Decidable (_ ∨ _))

/-- Each symbol subscribed on the connection is hidden or still to be seen to. -/
def MayClose (batches : List (List String)) (s : Sockets β) (i : ℕ) : Prop :=
  ∀ symbol ∈ batches.getD i [], symbol ∈ (s.sockets i).live →
    s.ToCome i symbol ∨ s.book.hidden symbol = true

/-- A snapshot brings back only symbols that are subscribed or still to be seen to. -/
def MayApply (batches : List (List String)) (s : Sockets β) (payload : Level3) : Prop :=
  payload.type = "snapshot" → ∀ i < batches.length, ∀ symbol ∈ batches.getD i [],
    symbol ∈ payload.symbols → (s.book.update sdk payload).1.hidden symbol = false →
    s.ToCome i symbol ∨ symbol ∈ (s.sockets i).live

instance (batches : List (List String)) (s : Sockets β) (i : ℕ) :
    Decidable (MayClose batches s i) :=
  inferInstanceAs (Decidable (∀ symbol ∈ batches.getD i [], _ → _))

instance (batches : List (List String)) (s : Sockets β) (payload : Level3) :
    Decidable (MayApply sdk batches s payload) :=
  inferInstanceAs (Decidable (_ → ∀ i < batches.length, ∀ symbol ∈ batches.getD i [], _ → _))

/-- A connection that closes without a hook may close, and a frame that is applied
may be applied. -/
def Tended (batches : List (List String)) (s : Sockets β) (e : SocketEvent) : Prop :=
  (∀ i ∈ s.unhooked e, MayClose batches s i) ∧
    ∀ payload ∈ s.applied e, MayApply sdk batches s payload

instance (batches : List (List String)) (s : Sockets β) (e : SocketEvent) :
    Decidable (Tended sdk batches s e) :=
  inferInstanceAs (Decidable (_ ∧ _))

/-! ## What hides a book -/

namespace Book

theorem hidden_iff {book : Book β} {symbol : String} : book.hidden symbol = true ↔
    book.isPending symbol = true ∨ symbol ∈ book.stale ∨
      (book.invalid.lookup symbol).isSome = true :=
  decide_eq_true_iff

/-- Marking more symbols as stale uncovers none. -/
theorem hidden_markStale {book : Book β} {symbol : String} (symbols : List String)
    (h : book.hidden symbol = true) : (book.markStale symbols).hidden symbol = true := by
  rw [hidden_iff] at h ⊢
  exact h.imp_right (Or.imp_left fun hstale => Finset.mem_union_left _ hstale)

/-- A marked symbol is hidden. -/
theorem hidden_marked (book : Book β) (symbol : String) :
    (book.markStale [symbol]).hidden symbol = true := by
  rw [hidden_iff]
  exact .inr (.inl (Finset.mem_union_right _ (by simp)))

/-- An entry brings its own symbol back only if it is one of a snapshot. -/
theorem hidden_applyEntry {type : String} (env : EntryEnv) {data : Level3Data} {book : Book β}
    {symbol : String} (hother : type = "snapshot" → symbol ≠ data.symbol)
    (h : book.hidden symbol = true) :
    (book.applyEntry sdk type env data).1.hidden symbol = true := by
  obtain ⟨hpending, hsame, hown⟩ := applyEntry_cases sdk type env data book
  rw [hidden_iff] at h ⊢
  have hpend : (book.applyEntry sdk type env data).1.isPending symbol = book.isPending symbol := by
    unfold isPending
    rw [hpending]
  rw [hpend]
  have hsameOn : ∀ after : Book β, SameOn symbol book after →
      (symbol ∈ book.stale ∨ (book.invalid.lookup symbol).isSome = true) →
      symbol ∈ after.stale ∨ (after.invalid.lookup symbol).isSome = true := by
    intro after hsame h
    rw [hsame.stale, hsame.invalid]
    exact h
  refine h.imp_right fun h => ?_
  by_cases hsymbol : symbol = data.symbol
  · subst hsymbol
    rcases hown with ⟨hsame, -⟩ | ⟨b, b', hturn, -⟩
    · exact hsameOn _ hsame h
    -- a delta takes no mark away from its symbol
    · have htype : type ≠ "snapshot" := fun htype => hother htype rfl
      rcases h with hstale | hinvalid
      · exact .inl (hturn.stale.2 ⟨htype, hstale⟩)
      · rw [hturn.valid htype] at hinvalid
        cases hinvalid
  · exact hsameOn _ (hsame symbol hsymbol) h

/-- A frame uncovers only symbols that it has a snapshot of. -/
theorem hidden_apply {type : String} {frame : List (EntryEnv × Level3Data)} {book : Book β}
    {symbol : String}
    (hother : type = "snapshot" → symbol ∉ frame.map fun entry => entry.2.symbol)
    (h : book.hidden symbol = true) : (book.apply sdk type frame).book.hidden symbol = true := by
  induction frame generalizing book with
  | nil => exact h
  | cons entry rest ih =>
    obtain ⟨env, data⟩ := entry
    have hdata : type = "snapshot" → symbol ≠ data.symbol := by
      rintro htype rfl
      exact hother htype List.mem_cons_self
    have hrest : type = "snapshot" → symbol ∉ rest.map fun entry => entry.2.symbol :=
      fun htype hmem => hother htype (List.mem_cons_of_mem _ hmem)
    have hentry := hidden_applyEntry sdk env hdata h
    unfold apply
    generalize book.applyEntry sdk type env data = turn at hentry ⊢
    obtain ⟨book', outcome⟩ := turn
    cases outcome with
    | failed err => exact hentry
    | skipped => exact ih hrest hentry
    | accepted accepted =>
      obtain ⟨lastTouch, htouch⟩ := recordTouch_eq sdk accepted book'
      refine ih hrest ?_
      rw [htouch]
      exact hentry

/-- So does publishing one of its entries. -/
theorem hidden_publish {type : String} {data : Level3Data} {book : Book β} {symbol : String}
    (hother : type = "snapshot" → symbol ≠ data.symbol) (h : book.hidden symbol = true) :
    (book.publish type data).hidden symbol = true := by
  by_cases htype : type = "snapshot"
  · rw [htype, publish_eq]
    rw [hidden_iff] at h ⊢
    have hcheck : ∀ book : Book β, book.checkReady.isPending symbol = book.isPending symbol ∧
        book.checkReady.stale = book.stale ∧ book.checkReady.invalid = book.invalid := by
      intro book
      unfold checkReady
      split <;> exact ⟨rfl, rfl, rfl⟩
    obtain ⟨hpending, hstale, hinvalid⟩ := hcheck { book with
      pending := book.pending.map fun pending => pending.erase data.symbol }
    rw [hpending, hstale, hinvalid]
    refine h.imp_left fun h => ?_
    unfold isPending at h ⊢
    cases hp : book.pending with
    | none =>
      rw [hp] at h
      cases h
    | some pending =>
      rw [hp] at h
      have hmem : symbol ∈ pending := of_decide_eq_true h
      exact decide_eq_true (Finset.mem_erase.2 ⟨hother htype, hmem⟩)
  · rw [show book.publish type data = book from if_neg htype]
    exact h

/-- Only a snapshot brings symbols back, and only its own. -/
theorem hidden_update {payload : Level3} {book : Book β} {symbol : String}
    (hother : payload.type = "snapshot" → symbol ∉ payload.symbols)
    (h : book.hidden symbol = true) : (book.update sdk payload).1.hidden symbol = true := by
  have happly := hidden_apply sdk hother h
  unfold update
  dsimp only
  cases herr : (book.apply sdk payload.type payload.data).err with
  | some err => exact happly
  | none =>
    dsimp only
    have haccepted : payload.type = "snapshot" →
        symbol ∉ (book.apply sdk payload.type payload.data).accepted.map Level3Data.symbol := by
      intro htype
      rw [apply_accepted sdk htype payload.data book herr]
      exact hother htype
    generalize (book.apply sdk payload.type payload.data).accepted = accepted at haccepted ⊢
    generalize (book.apply sdk payload.type payload.data).book = book' at happly ⊢
    induction accepted generalizing book' with
    | nil => exact happly
    | cons data rest ih =>
      have hdata : payload.type = "snapshot" → symbol ≠ data.symbol := by
        rintro htype rfl
        exact haccepted htype List.mem_cons_self
      exact ih (fun htype hmem => haccepted htype (List.mem_cons_of_mem _ hmem)) _
        (hidden_publish hdata happly)

end Book

/-! ## A reader's turn -/

/-- The subscriptions come in frames that have room for a symbol. -/
theorem level3FrameSize_pos {depth limit : Int} {n : ℕ}
    (h : level3FrameSize depth limit = some n) : 0 < n := by
  unfold level3FrameSize at h
  dsimp only at h
  split_ifs at h <;>
  · cases h
    omega

/-- Each symbol of the batch is in one of its frames. -/
theorem subscribeLevel3_flatten {env : SubscribeEnv} {batch : List String}
    {frames : List (List String)} (h : subscribeLevel3 env batch = some frames) :
    frames.flatten = batch := by
  unfold subscribeLevel3 at h
  split_ifs at h
  obtain ⟨size, hsize, rfl⟩ := Option.map_eq_some_iff.1 h
  exact flatten_chunk (level3FrameSize_pos hsize) batch

namespace Reader

theorem ahead_proceed (turn : EnsureReady) (hooks : List HookRun) :
    (proceed hooks).ahead = (ensure turn hooks).ahead := by
  cases hooks <;> rfl

/-- A symbol of the frames that are to be written is ahead. -/
theorem mem_ahead_resume {frames : List (List String)} {symbol : String}
    (h : symbol ∈ frames.flatten) (hooks : List HookRun) :
    symbol ∈ (resume frames hooks).ahead := by
  cases frames with
  | nil => cases h
  | cons frame rest => exact h

end Reader

namespace Socket

variable {book : Book β} {socket : Socket} {symbol : String}

theorem mem_ahead {client : WebsocketClient (List String)} {reader : Reader}
    {pinged : List (List String)} : symbol ∈ (Socket.mk client reader pinged).ahead ↔
      symbol ∈ reader.ahead ∨ symbol ∈ pinged.flatten :=
  List.mem_append

/-- On a connection on which nothing was written nothing is live. -/
theorem live_nil {client : WebsocketClient (List String)} (h : client.written = [])
    (reader : Reader) (pinged : List (List String)) :
    (Socket.mk client reader pinged).live = [] := by
  unfold Socket.live Socket.subscribed
  dsimp only
  rw [h]
  split <;> rfl

theorem live_proceed (client : WebsocketClient (List String)) (pinged : List (List String))
    (hooks : List HookRun) :
    (Socket.mk client (.proceed hooks) pinged).live = client.written.flatten := by
  cases hooks <;> rfl

theorem live_resume (client : WebsocketClient (List String)) (pinged : List (List String))
    (frames : List (List String)) (hooks : List HookRun) :
    (Socket.mk client (.resume frames hooks) pinged).live = client.written.flatten := by
  cases frames with
  | nil => exact live_proceed client pinged hooks
  | cons frame rest => rfl

end Socket

/-- A turn of the reader leaves what pings have written. -/
theorem readerTurn_pinged (batch : List String) (env : ReaderEnv) (book : Book β)
    (socket : Socket) :
    (readerTurn sdk batch env book socket).2.pinged = socket.pinged := by
  unfold readerTurn
  split
  · rfl
  · split <;> rfl
  · split <;> rfl
  · split
    · rfl
    · split <;> rfl
  all_goals rfl

/-- The symbol is covered, and not by what the pinger has still to mark. -/
def Socket.Held (book : Book β) (socket : Socket) (symbol : String) : Prop :=
  symbol ∈ socket.reader.ahead ∨ symbol ∈ socket.live ∨ book.hidden symbol = true

/-- A symbol is covered by a ping that is under way, or held without one. -/
theorem Socket.covered_iff {book : Book β} {socket : Socket} {symbol : String} :
    socket.Covered book symbol ↔
      socket.Held book symbol ∨ symbol ∈ socket.pinged.flatten := by
  unfold Socket.Covered Socket.Held Socket.ahead
  rw [List.mem_append]
  tauto

section Turn

variable {batch : List String} {env : ReaderEnv} {book : Book β}
  {client : WebsocketClient (List String)} {pinged : List (List String)} {symbol : String}

/-- Within `ensureReady` only a dial closes the connection, and a reconnect hook has
the whole batch still to subscribe or to mark. -/
theorem held_ensure {turn : EnsureReady} {hooks : List HookRun} (hmem : symbol ∈ batch)
    (hheld : (Socket.mk client (.ensure turn hooks) pinged).Held book symbol)
    (hclosed : (Socket.mk client (.ensure turn hooks) pinged).unhooked env.ok = true →
      symbol ∈ (Reader.ensure turn hooks).ahead ∨ book.hidden symbol = true) :
    (readerTurn sdk batch env book ⟨client, .ensure turn hooks, pinged⟩).2.Held
      (readerTurn sdk batch env book ⟨client, .ensure turn hooks, pinged⟩).1 symbol := by
  have hproceed : (Socket.mk client (.proceed hooks) pinged).Held book symbol := by
    rcases hheld with h | h | h
    · exact .inl (by rwa [Reader.ahead_proceed turn])
    · exact .inr (.inl (by rwa [Socket.live_proceed]))
    · exact .inr (.inr h)
  have hnext : ∀ next, (Socket.mk client (.ensure next hooks) pinged).Held book symbol := by
    intro next
    rcases hheld with h | h | h
    · exact .inl (by rwa [← Reader.ahead_proceed next, Reader.ahead_proceed turn])
    · exact .inr (.inl h)
    · exact .inr (.inr h)
  by_cases hturn : turn = .dial
  · subst hturn
    cases hok : env.ok with
    | true =>
      cases hhook : client.onReconnect with
      | true =>
        -- the hook has all of the batch still to subscribe, or to mark if it fails at once
        cases hframes : subscribeLevel3 env.subscribe batch with
        | none =>
          simp only [readerTurn, hok, WebsocketClient.ensureReady_redialed, hhook, hframes,
            if_true]
          exact .inl hmem
        | some frames =>
          simp only [readerTurn, hok, WebsocketClient.ensureReady_redialed, hhook, hframes,
            if_true]
          rw [← subscribeLevel3_flatten hframes] at hmem
          exact .inl (Reader.mem_ahead_resume hmem hooks)
      | false =>
        simp only [readerTurn, hok, WebsocketClient.ensureReady_redialed, hhook,
          Bool.false_eq_true, if_false]
        rcases hclosed (by simp [Socket.unhooked, hok, hhook]) with h | h
        · exact .inl (by rwa [Reader.ahead_proceed .dial])
        · exact .inr (.inr h)
    | false =>
      simp only [readerTurn, hok, WebsocketClient.ensureReady_failed]
      cases hooks with
      | nil =>
        rcases hclosed (by simp [Socket.unhooked, hok]) with h | h
        · cases h
        · exact .inr (.inr h)
      | cons hook hooks => exact .inl hmem
  · rcases client.ensureReady_waits env.ok hturn with hready | ⟨next, hwaits⟩
    · simp only [readerTurn, hready]
      exact hproceed
    · simp only [readerTurn, hwaits]
      exact hnext next

/-- A frame of a hook is subscribed, or the hook has the whole batch to mark. -/
theorem held_write {hook : HookRun} {hooks : List HookRun} (hmem : symbol ∈ batch)
    (hheld : (Socket.mk client (.write hook hooks) pinged).Held book symbol) :
    (readerTurn sdk batch env book ⟨client, .write hook hooks, pinged⟩).2.Held
      (readerTurn sdk batch env book ⟨client, .write hook hooks, pinged⟩).1 symbol := by
  rcases client.write_cases env.ok hook.frame with hsent | hfailed
  · simp only [readerTurn, hsent]
    rcases hheld with h | h | h
    · rcases List.mem_append.1 h with hframe | hrest
      · refine .inr (.inl ?_)
        rw [Socket.live_resume]
        simp [WebsocketClient.written, hframe]
      · exact .inl (Reader.mem_ahead_resume hrest hooks)
    · refine .inr (.inl ?_)
      have hwritten : symbol ∈ client.written.flatten := h
      rw [Socket.live_resume]
      simp only [WebsocketClient.written, Option.getD_some, List.flatten_append] at hwritten ⊢
      exact List.mem_append_left _ hwritten
    · exact .inr (.inr h)
  · cases hhook : client.conn.isSome && client.onDisconnect with
    | true =>
      simp only [readerTurn, hfailed, hhook]
      exact .inl hmem
    | false =>
      simp only [readerTurn, hfailed, hhook]
      exact .inl hmem

/-- A read that fails drops the connection. -/
theorem held_reading (hmem : symbol ∈ batch)
    (hheld : (Socket.mk client .reading pinged).Held book symbol)
    (hclosed : (Socket.mk client .reading pinged).unhooked env.ok = true →
      book.hidden symbol = true) :
    (readerTurn sdk batch env book ⟨client, .reading, pinged⟩).2.Held
      (readerTurn sdk batch env book ⟨client, .reading, pinged⟩).1 symbol := by
  have hopen := hheld.resolve_left List.not_mem_nil
  cases hok : env.ok with
  | true =>
    simp only [readerTurn, hok, if_true]
    exact .inr hopen
  | false =>
    cases hhook : client.conn.isSome && client.onDisconnect with
    | true =>
      simp only [readerTurn, hok, WebsocketClient.softDown, hhook, Bool.false_eq_true, if_false]
      exact .inl hmem
    | false =>
      simp only [readerTurn, hok, WebsocketClient.softDown, hhook, Bool.false_eq_true, if_false]
      refine .inr (.inr ?_)
      cases hreg : client.onDisconnect with
      | false => exact hclosed (by simp [Socket.unhooked, hok, hreg])
      | true =>
        -- the hook is registered and does not run: there was no connection
        rcases hopen with h | h
        · rw [Socket.live_nil (WebsocketClient.written_eq_nil hreg hhook)] at h
          cases h
        · exact h

/-- The hook that the reader runs marks a symbol, or returns to its caller. -/
theorem held_dropping {left : List String} {hooks : List HookRun} (hmem : symbol ∈ batch)
    (hheld : (Socket.mk client (.dropping left hooks) pinged).Held book symbol) :
    (readerTurn sdk batch env book ⟨client, .dropping left hooks, pinged⟩).2.Held
      (readerTurn sdk batch env book ⟨client, .dropping left hooks, pinged⟩).1 symbol := by
  cases left with
  | nil =>
    cases hooks with
    | nil => exact .inr (hheld.resolve_left List.not_mem_nil)
    | cons hook hooks => exact .inl hmem
  | cons marked left =>
    rcases hheld with h | h | h
    · rcases List.mem_cons.1 h with rfl | h
      · exact .inr (.inr (Book.hidden_marked book symbol))
      · exact .inl h
    · exact .inr (.inl h)
    · exact .inr (.inr (Book.hidden_markStale [marked] h))

/-- So does a reconnect hook that failed; nothing is live any more when it closes the
connection. -/
theorem held_failing {left : List String} {hooks : List HookRun}
    (hheld : (Socket.mk client (.failing left hooks) pinged).Held book symbol) :
    (readerTurn sdk batch env book ⟨client, .failing left hooks, pinged⟩).2.Held
      (readerTurn sdk batch env book ⟨client, .failing left hooks, pinged⟩).1 symbol := by
  have hclear := Or.imp_right (fun h => h.resolve_left List.not_mem_nil) hheld
  cases left with
  | nil => exact .inr (.inr (hclear.resolve_left List.not_mem_nil))
  | cons marked left =>
    rcases hclear with h | h
    · rcases List.mem_cons.1 h with rfl | h
      · exact .inr (.inr (Book.hidden_marked book symbol))
      · exact .inl h
    · exact .inr (.inr (Book.hidden_markStale [marked] h))

/-- Only a snapshot brings its symbols back. -/
theorem hidden_or_back {payload : Level3} (h : book.hidden symbol = true) :
    (book.update sdk payload).1.hidden symbol = true ∨
      payload.type = "snapshot" ∧ symbol ∈ payload.symbols ∧
        (book.update sdk payload).1.hidden symbol = false := by
  by_cases hback : payload.type = "snapshot" ∧ symbol ∈ payload.symbols
  · cases hafter : (book.update sdk payload).1.hidden symbol with
    | true => exact .inl rfl
    | false => exact .inr ⟨hback.1, hback.2, rfl⟩
  · exact .inl (Book.hidden_update sdk (fun htype hsymbol => hback ⟨htype, hsymbol⟩) h)

end Turn

/-- A turn of the reader keeps its symbols covered, if the connection may close and
the frame may be applied. -/
theorem readerTurn_covered {batch : List String} (env : ReaderEnv) {book : Book β}
    {socket : Socket} {symbol : String} (hmem : symbol ∈ batch)
    (hcov : socket.Covered book symbol)
    (hclose : socket.unhooked env.ok = true → symbol ∈ socket.live →
      symbol ∈ socket.ahead ∨ book.hidden symbol = true)
    (happly : ∀ payload, socket.reader = .holding payload → payload.type = "snapshot" →
      symbol ∈ payload.symbols → (book.update sdk payload).1.hidden symbol = false →
      symbol ∈ socket.ahead ∨ symbol ∈ socket.live) :
    (readerTurn sdk batch env book socket).2.Covered
      (readerTurn sdk batch env book socket).1 symbol := by
  rw [Socket.covered_iff, readerTurn_pinged]
  by_cases hpinged : symbol ∈ socket.pinged.flatten
  · exact .inr hpinged
  refine .inl ?_
  have hheld := (Socket.covered_iff.1 hcov).resolve_right hpinged
  obtain ⟨client, reader, pinged⟩ := socket
  -- what a close without a hook leaves
  have hclosed : (Socket.mk client reader pinged).unhooked env.ok = true →
      symbol ∈ reader.ahead ∨ book.hidden symbol = true := by
    intro hunhooked
    rcases hheld with h | h | h
    · exact .inl h
    · exact (hclose hunhooked h).imp_left fun h => (Socket.mem_ahead.1 h).resolve_right hpinged
    · exact .inr h
  cases reader with
  | off => exact hheld
  | ensure turn hooks => exact held_ensure sdk hmem hheld hclosed
  | write hook hooks => exact held_write sdk hmem hheld
  | reading =>
    exact held_reading sdk hmem hheld fun h => (hclosed h).resolve_left List.not_mem_nil
  | dropping left hooks => exact held_dropping sdk hmem hheld
  | failing left hooks => exact held_failing sdk hheld
  | holding payload =>
    rcases hheld.resolve_left List.not_mem_nil with h | h
    · exact .inr (.inl h)
    rcases hidden_or_back sdk h with h | ⟨htype, hsymbol, hafter⟩
    · exact .inr (.inr h)
    · rcases happly payload rfl htype hsymbol hafter with h | h
      · exact absurd ((Socket.mem_ahead.1 h).resolve_right hpinged) List.not_mem_nil
      · exact .inr (.inl h)

/-- What a reader's turn does to the books. -/
theorem readerTurn_book (batch : List String) (env : ReaderEnv) (book : Book β)
    (socket : Socket) :
    (readerTurn sdk batch env book socket).1 = book ∨
      (∃ symbol, (readerTurn sdk batch env book socket).1 = book.markStale [symbol]) ∨
      ∃ payload, socket.reader = .holding payload ∧
        (readerTurn sdk batch env book socket).1 = (book.update sdk payload).1 := by
  obtain ⟨client, reader, pinged⟩ := socket
  cases reader with
  | off => exact .inl rfl
  | ensure turn hooks =>
    left
    unfold readerTurn
    dsimp only
    split <;> rfl
  | write hook hooks =>
    left
    unfold readerTurn
    dsimp only
    split <;> rfl
  -- a frame is taken up here, and reaches the book in the next turn
  | reading =>
    left
    unfold readerTurn
    dsimp only
    split
    · rfl
    · split <;> rfl
  | holding payload => exact .inr (.inr ⟨payload, rfl, rfl⟩)
  | dropping left hooks =>
    cases left with
    | nil => exact .inl rfl
    | cons symbol left => exact .inr (.inl ⟨symbol, rfl⟩)
  | failing left hooks =>
    cases left with
    | nil => exact .inl rfl
    | cons symbol left => exact .inr (.inl ⟨symbol, rfl⟩)

/-! ## Reconnect hooks run only where they are registered -/

/-- The reader is in a reconnect hook. -/
def Reader.rehooked : Reader → Bool
  | .ensure _ (_ :: _) | .write _ _ | .dropping _ (_ :: _) | .failing _ _ => true
  | .off | .ensure _ [] | .reading | .holding _ | .dropping _ [] => false

/-- `SubscribeBooks` has not registered the reconnect hook of the batch. -/
def Subscriber.before (i : ℕ) : Subscriber → Bool
  | .opening k | .starting k | .subscribing k | .ensure k _ _ _ | .write k _ _
  | .onDisconnect k | .onReconnect k => k ≤ i
  | .returned | .failed => false

/-- A turn of the reader does not change whether a hook runs on a reconnect. -/
theorem readerTurn_onReconnect (batch : List String) (env : ReaderEnv) (book : Book β)
    (socket : Socket) :
    (readerTurn sdk batch env book socket).2.client.onReconnect = socket.client.onReconnect := by
  obtain ⟨client, reader, pinged⟩ := socket
  cases reader with
  | off => rfl
  | ensure turn hooks =>
    have hensure := client.ensureReady_onReconnect env.ok turn
    unfold readerTurn
    dsimp only
    generalize client.ensureReady env.ok turn = ensured at hensure ⊢
    obtain ⟨client', outcome⟩ := ensured
    cases outcome <;> exact hensure
  | write hook hooks =>
    have hwrite := client.write_onReconnect env.ok hook.frame
    unfold readerTurn
    dsimp only
    generalize client.write env.ok hook.frame = written at hwrite ⊢
    obtain ⟨client', outcome⟩ := written
    rcases outcome with - | - | - <;> exact hwrite
  -- a lost connection goes down softly, which keeps the hook
  | reading =>
    have hdrop : client.softDown.1.onReconnect = client.onReconnect := rfl
    unfold readerTurn
    dsimp only
    generalize client.softDown = dropped at hdrop ⊢
    obtain ⟨client', hook⟩ := dropped
    split
    · rfl
    · cases hook <;> exact hdrop
  | holding payload => rfl
  | dropping left hooks => cases left <;> rfl
  | failing left hooks => cases left <;> rfl

theorem Reader.rehooked_proceed (turn : EnsureReady) (hooks : List HookRun) :
    (Reader.proceed hooks).rehooked = (Reader.ensure turn hooks).rehooked := by
  cases hooks <;> rfl

theorem Reader.rehooked_fail (batch : List String) (turn : EnsureReady) (hooks : List HookRun) :
    (Reader.fail batch hooks).rehooked = (Reader.ensure turn hooks).rehooked := by
  cases hooks <;> rfl

/-- A turn goes through the hook again only if it did before, or if the client has one. -/
theorem readerTurn_rehooked (batch : List String) (env : ReaderEnv) (book : Book β)
    (socket : Socket)
    (h : (readerTurn sdk batch env book socket).2.reader.rehooked = true) :
    socket.reader.rehooked = true ∨ socket.client.onReconnect = true := by
  obtain ⟨client, reader, pinged⟩ := socket
  cases reader with
  | off => cases h
  | ensure turn hooks =>
    have hensure := client.ensureReady_onReconnect env.ok turn
    unfold readerTurn at h
    dsimp only at h
    generalize client.ensureReady env.ok turn = ensured at hensure h
    obtain ⟨client', outcome⟩ := ensured
    cases outcome with
    | next next =>
      left
      rw [← Reader.rehooked_proceed turn, Reader.rehooked_proceed next]
      exact h
    | ready =>
      left
      rw [← Reader.rehooked_proceed turn]
      exact h
    | failed =>
      left
      rw [← Reader.rehooked_fail batch turn]
      exact h
    | redialed =>
      -- only a connection dialled anew brings the hooks of a reconnect
      cases hhook : client'.onReconnect with
      | true => exact .inr (hensure.symm.trans hhook)
      | false =>
        left
        simp only [hhook, Bool.false_eq_true, if_false] at h
        rw [← Reader.rehooked_proceed turn]
        exact h
  | write hook hooks => exact .inl rfl
  | reading =>
    unfold readerTurn WebsocketClient.softDown at h
    dsimp only at h
    split at h
    · cases h
    · split at h <;> cases h
  | holding payload => cases h
  | dropping left hooks =>
    cases hooks with
    | cons hook hooks => exact .inl rfl
    | nil => cases left <;> cases h
  | failing left hooks => exact .inl rfl

end Symm.Broker
