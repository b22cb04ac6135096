import Symm.Broker.Level3Covered

/-!
# Dead level-3 books

A book is dead if a reader of it is given a book that no connection feeds.

- `SocketInv`: every symbol is covered, and hooks run only where they are registered;
- `inv_read`, `inv_ping`, `inv_mark`, `inv_subscribe`: each event that is tended
  keeps it;
- `not_covered_of_not_tended`: any other leaves a symbol uncovered;
- `books_live`: the books are covered all along a run exactly if each of its steps
  is tended, and none is dead then.

The events are a turn of `SubscribeBooks`, a turn of a reader, a ping that fails and a
mark that the disconnect hook of a pinger sets, in any order. A connection drops by a
read or by a ping, and what is done about it are hooks, which are registered only after
the first subscription has gone out.
-/

namespace Symm.Broker

open Symm.Lib Symm.Network

variable {β ν : Type} (sdk : Sdk β ν)

/-! ## The invariant -/

/-- Every symbol is covered, reconnect hooks run only where they are registered, and
that is not before `SubscribeBooks` has come to it. -/
structure SocketInv (batches : List (List String)) (s : Sockets β) : Prop where
  covered : AllCovered batches s
  hooked : ∀ i, (s.sockets i).reader.rehooked = true →
    (s.sockets i).client.onReconnect = true
  fresh : ∀ i, s.subscriber.before i = true → (s.sockets i).client.onReconnect = false

@[simp] theorem Sockets.put_self (i : ℕ) (socket : Socket) (s : Sockets β) :
    (s.put i socket).sockets i = socket := by
  unfold Sockets.put
  exact Function.update_self i socket s.sockets

@[simp] theorem Sockets.put_other {i j : ℕ} (h : j ≠ i) (socket : Socket) (s : Sockets β) :
    (s.put i socket).sockets j = s.sockets j := by
  unfold Sockets.put
  exact Function.update_of_ne h socket s.sockets

/-- What holds of each socket holds after one of them changed. -/
theorem Sockets.put_forall {P : ℕ → Socket → Prop} {i : ℕ} {socket : Socket} {s : Sockets β}
    (hself : P i socket) (hother : ∀ j, j ≠ i → P j (s.sockets j)) (j : ℕ) :
    P j ((s.put i socket).sockets j) := by
  by_cases hj : j = i
  · rw [hj, Sockets.put_self]
    exact hself
  · rw [Sockets.put_other hj]
    exact hother j hj

theorem lt_length_of_mem_batch {batches : List (List String)} {i : ℕ} {symbol : String}
    (h : symbol ∈ batches.getD i []) : i < batches.length := by
  by_contra hle
  rw [List.getD_eq_getElem?_getD, List.getElem?_eq_none (Nat.le_of_not_lt hle)] at h
  cases h

theorem Socket.Covered.marked {book : Book β} {socket : Socket} {symbol : String}
    (symbols : List String) (h : socket.Covered book symbol) :
    socket.Covered (book.markStale symbols) symbol :=
  h.imp_right (Or.imp_right (Book.hidden_markStale symbols))

/-- A frame that may be applied keeps all sockets covered. -/
theorem Socket.Covered.updated {batches : List (List String)} {s : Sockets β} {payload : Level3}
    (happly : MayApply sdk batches s payload) {i : ℕ} {symbol : String}
    (hmem : symbol ∈ batches.getD i []) (hdue : s.subscriber.due i symbol ≠ true)
    (h : (s.sockets i).Covered s.book symbol) :
    (s.sockets i).Covered (s.book.update sdk payload).1 symbol := by
  rcases h with h | h | h
  · exact .inl h
  · exact .inr (.inl h)
  rcases hidden_or_back sdk h with h | ⟨htype, hsymbol, hafter⟩
  · exact .inr (.inr h)
  · rcases happly htype i (lt_length_of_mem_batch hmem) symbol hmem hsymbol hafter with
      (h | h) | h
    · exact absurd h hdue
    · exact .inl h
    · exact .inr (.inl h)

/-- A turn of a reader. -/
theorem inv_read {batches : List (List String)} {s : Sockets β} (i : ℕ) (env : ReaderEnv)
    (hs : SocketInv batches s) (htended : Tended sdk batches s (.read i env)) :
    SocketInv batches (socketStep sdk batches s (.read i env)) := by
  obtain ⟨hclose, happly⟩ := htended
  -- what the reader does is tended to in what it closes and what it applies
  have happly' : ∀ payload, (s.sockets i).reader = .holding payload →
      MayApply sdk batches s payload := by
    intro payload hreader
    refine happly payload ?_
    unfold Sockets.applied
    dsimp only
    rw [hreader]
    rfl
  have hclose' : (s.sockets i).unhooked env.ok = true → MayClose batches s i :=
    fun h => hclose i (if_pos h)
  refine ⟨fun j symbol hmem => ?_, ?_, ?_⟩
  · by_cases hdue : s.subscriber.due j symbol = true
    · exact .inl hdue
    have hcov := (hs.covered j symbol hmem).resolve_left hdue
    refine .inr ?_
    by_cases hj : j = i
    · subst hj
      show ((s.put j _).sockets j).Covered _ symbol
      rw [Sockets.put_self]
      refine readerTurn_covered sdk env hmem hcov (fun hunhooked hlive => ?_)
        fun payload hreader htype hsymbol hafter => ?_
      · exact (hclose' hunhooked symbol hmem hlive).imp_left fun h => h.resolve_left hdue
      · exact (happly' payload hreader htype j (lt_length_of_mem_batch hmem) symbol hmem hsymbol
          hafter).imp_left fun h => h.resolve_left hdue
    · -- another socket notices the book alone
      show ((s.put i _).sockets j).Covered _ symbol
      rw [Sockets.put_other hj]
      rcases readerTurn_book sdk (batches.getD i []) env s.book (s.sockets i) with
        hbook | ⟨marked, hbook⟩ | ⟨payload, hreader, hbook⟩
      · show (s.sockets j).Covered (readerTurn sdk _ _ _ _).1 symbol
        rw [hbook]
        exact hcov
      · show (s.sockets j).Covered (readerTurn sdk _ _ _ _).1 symbol
        rw [hbook]
        exact hcov.marked [marked]
      · show (s.sockets j).Covered (readerTurn sdk _ _ _ _).1 symbol
        rw [hbook]
        exact hcov.updated sdk (happly' payload hreader) hmem hdue
  · refine Sockets.put_forall (P := fun _ socket => socket.reader.rehooked = true →
      socket.client.onReconnect = true) (fun hhook => ?_) fun j _ => hs.hooked j
    show (readerTurn sdk _ _ _ _).2.client.onReconnect = true
    rw [readerTurn_onReconnect]
    rcases readerTurn_rehooked sdk _ env s.book (s.sockets i) hhook with h | h
    · exact hs.hooked i h
    · exact h
  · refine Sockets.put_forall (P := fun j socket => s.subscriber.before j = true →
      socket.client.onReconnect = false) (fun hbefore => ?_) fun j _ => hs.fresh j
    show (readerTurn sdk _ _ _ _).2.client.onReconnect = false
    rw [readerTurn_onReconnect]
    exact hs.fresh i hbefore

/-- What a failed ping leaves to cover: nothing if the hook runs. -/
theorem Socket.ping_covered {batch : List String} {book : Book β} {socket : Socket}
    {symbol : String} (hmem : symbol ∈ batch) (hcov : socket.Covered book symbol)
    (hclose : socket.client.onDisconnect = false → symbol ∈ socket.live →
      symbol ∈ socket.ahead ∨ book.hidden symbol = true) :
    (socket.ping batch).Covered book symbol := by
  obtain ⟨client, reader, pinged⟩ := socket
  cases hhook : client.conn.isSome && client.onDisconnect with
  | true =>
    simp only [Socket.ping, WebsocketClient.softDown, hhook]
    refine .inl (Socket.mem_ahead.2 (.inr ?_))
    rw [List.flatten_append]
    exact List.mem_append_right _ (by simpa using hmem)
  | false =>
    simp only [Socket.ping, WebsocketClient.softDown, hhook]
    rcases hcov with h | h | h
    · exact .inl h
    · cases hreg : client.onDisconnect with
      | false =>
        rcases hclose hreg h with h | h
        · exact .inl h
        · exact .inr (.inr h)
      | true =>
        rw [Socket.live_nil (WebsocketClient.written_eq_nil hreg hhook)] at h
        cases h
    · exact .inr (.inr h)

/-- A ping changes neither the reader nor the hook. -/
theorem Socket.ping_same (batch : List String) (socket : Socket) :
    (socket.ping batch).reader = socket.reader ∧
      (socket.ping batch).client.onReconnect = socket.client.onReconnect := by
  have hdrop : socket.client.softDown.1.onReconnect = socket.client.onReconnect := rfl
  unfold Socket.ping
  generalize socket.client.softDown = dropped at hdrop ⊢
  obtain ⟨client, hook⟩ := dropped
  cases hook <;> exact ⟨rfl, hdrop⟩

/-- A ping keeps the invariant of its socket and of the others. -/
theorem inv_ping {batches : List (List String)} {s : Sockets β} (i : ℕ)
    (hs : SocketInv batches s) (htended : Tended sdk batches s (.ping i)) :
    SocketInv batches (socketStep sdk batches s (.ping i)) := by
  obtain ⟨hreader, hclient⟩ := (s.sockets i).ping_same (batches.getD i [])
  refine ⟨fun j symbol hmem => ?_, ?_, ?_⟩
  -- what the subscriber has still to write needs no socket yet
  · by_cases hdue : s.subscriber.due j symbol = true
    · exact .inl hdue
    have hcov := (hs.covered j symbol hmem).resolve_left hdue
    refine .inr ?_
    by_cases hj : j = i
    · subst hj
      show ((s.put j _).sockets j).Covered s.book symbol
      rw [Sockets.put_self]
      refine Socket.ping_covered hmem hcov fun hunhooked hlive => ?_
      -- a ping that fails closes a connection that has no hook
      have hclose : MayClose batches s j := htended.1 j (by
        show (if (s.sockets j).client.onDisconnect then none else some j) = some j
        rw [hunhooked]
        rfl)
      exact (hclose symbol hmem hlive).imp_left fun h => h.resolve_left hdue
    · show ((s.put i _).sockets j).Covered s.book symbol
      rw [Sockets.put_other hj]
      exact hcov
  · refine Sockets.put_forall (P := fun _ socket => socket.reader.rehooked = true →
      socket.client.onReconnect = true) ?_ fun j _ => hs.hooked j
    rw [hreader, hclient]
    exact hs.hooked i
  · refine Sockets.put_forall (P := fun j socket => s.subscriber.before j = true →
      socket.client.onReconnect = false) ?_ fun j _ => hs.fresh j
    rw [hclient]
    exact hs.fresh i

/-- Taking one symbol off a list of lists loses that symbol alone. -/
theorem mem_flatten_set {lists : List (List String)} {n : ℕ} {x : String} {left : List String}
    (hn : lists[n]? = some (x :: left)) {y : String} (hy : y ∈ lists.flatten) :
    y = x ∨ y ∈ (lists.set n left).flatten := by
  obtain ⟨l, hl, hyl⟩ := List.mem_flatten.1 hy
  obtain ⟨m, hm⟩ := List.mem_iff_getElem?.1 hl
  have hlt : m < lists.length := (List.getElem?_eq_some_iff.1 hm).1
  by_cases hmn : m = n
  · subst hmn
    rw [hn] at hm
    cases hm
    refine (List.mem_cons.1 hyl).imp_right fun hleft => ?_
    refine List.mem_flatten.2 ⟨left, List.mem_iff_getElem?.2 ⟨m, ?_⟩, hleft⟩
    rw [List.getElem?_set_self hlt]
  · refine .inr (List.mem_flatten.2 ⟨l, List.mem_iff_getElem?.2 ⟨m, ?_⟩, hyl⟩)
    rw [List.getElem?_set_ne (Ne.symm hmn)]
    exact hm

/-- So does marking the next symbol of a socket whose hook runs. -/
theorem inv_mark {batches : List (List String)} {s : Sockets β} (i n : ℕ)
    (hs : SocketInv batches s) : SocketInv batches (socketStep sdk batches s (.mark i n)) := by
  unfold socketStep
  dsimp only
  split
  · rename_i marked left hn
    refine ⟨fun j symbol hmem => ?_, ?_, ?_⟩
    · refine (hs.covered j symbol hmem).imp_right fun hcov => ?_
      by_cases hj : j = i
      · subst hj
        show ((s.put j _).sockets j).Covered _ symbol
        rw [Sockets.put_self]
        rcases hcov with h | h | h
        · rcases Socket.mem_ahead.1 h with hreader | hpinged
          · exact .inl (Socket.mem_ahead.2 (.inl hreader))
          · rcases mem_flatten_set hn hpinged with rfl | hleft
            · exact .inr (.inr (Book.hidden_marked s.book symbol))
            · exact .inl (Socket.mem_ahead.2 (.inr hleft))
        · exact .inr (.inl h)
        · exact .inr (.inr (Book.hidden_markStale [marked] h))
      · show ((s.put i _).sockets j).Covered _ symbol
        rw [Sockets.put_other hj]
        exact hcov.marked [marked]
    · exact Sockets.put_forall (P := fun _ socket => socket.reader.rehooked = true →
        socket.client.onReconnect = true) (hs.hooked i) fun j _ => hs.hooked j
    · exact Sockets.put_forall (P := fun j socket => s.subscriber.before j = true →
        socket.client.onReconnect = false) (hs.fresh i) fun j _ => hs.fresh j
  · exact hs

/-! ## A turn of `SubscribeBooks` -/

/-- After a turn that changed one socket, what is left to show. -/
theorem inv_put {batches : List (List String)} {s : Sockets β} {i : ℕ} {socket : Socket}
    {next : Subscriber} (hs : SocketInv batches s)
    (hown : ∀ symbol ∈ batches.getD i [],
      s.subscriber.due i symbol = true ∨ (s.sockets i).Covered s.book symbol →
      next.due i symbol = true ∨ socket.Covered s.book symbol)
    (hdue : ∀ j, j ≠ i → ∀ symbol ∈ batches.getD j [], s.subscriber.due j symbol = true →
      next.due j symbol = true)
    (hhooked : socket.reader.rehooked = true → socket.client.onReconnect = true)
    (hself : next.before i = true → socket.client.onReconnect = false)
    (hbefore : ∀ j, j ≠ i → next.before j = true → s.subscriber.before j = true) :
    SocketInv batches { s.put i socket with subscriber := next } := by
  refine ⟨fun j symbol hmem => ?_, ?_, ?_⟩
  · show next.due j symbol = true ∨ ((s.put i socket).sockets j).Covered s.book symbol
    by_cases hj : j = i
    · subst hj
      rw [Sockets.put_self]
      exact hown symbol hmem (hs.covered j symbol hmem)
    · rw [Sockets.put_other hj]
      exact (hs.covered j symbol hmem).imp_left (hdue j hj symbol hmem)
  · exact Sockets.put_forall (P := fun _ socket => socket.reader.rehooked = true →
      socket.client.onReconnect = true) hhooked fun j _ => hs.hooked j
  · exact Sockets.put_forall (P := fun j socket => next.before j = true →
      socket.client.onReconnect = false) hself
      fun j hj hnext => hs.fresh j (hbefore j hj hnext)

/-- Nothing is asked once `SubscribeBooks` has failed. -/
theorem inv_failed {batches : List (List String)} {s : Sockets β} {i : ℕ} {socket : Socket}
    (hs : SocketInv batches s)
    (hhooked : socket.reader.rehooked = true → socket.client.onReconnect = true) :
    SocketInv batches { s.put i socket with subscriber := .failed } :=
  inv_put hs (fun _ _ _ => .inl rfl) (fun _ _ _ _ _ => rfl) hhooked (fun h => nomatch h)
    fun _ _ h => nomatch h

/-- Before its hook is registered, the reader of a batch is in none. -/
theorem SocketInv.not_rehooked {batches : List (List String)} {s : Sockets β}
    (hs : SocketInv batches s) {i : ℕ} (hbefore : s.subscriber.before i = true) :
    (s.sockets i).reader.rehooked = false := by
  by_contra hhook
  have hreg := hs.hooked i (eq_true_of_ne_false hhook)
  rw [hs.fresh i hbefore] at hreg
  cases hreg

/-- So whatever its client becomes, reconnect hooks run only where they are registered. -/
theorem SocketInv.hooked_any {batches : List (List String)} {s : Sockets β}
    (hs : SocketInv batches s) {i : ℕ} (hbefore : s.subscriber.before i = true)
    (client : WebsocketClient (List String)) (h : (s.sockets i).reader.rehooked = true) :
    client.onReconnect = true := by
  rw [hs.not_rehooked hbefore] at h
  cases h

namespace Subscriber

/-- While the subscriber is at one socket, everything on a later socket is due. -/
theorem due_frames_later {i j : ℕ} (h : i < j) (frames : List (List String)) (symbol : String) :
    (Subscriber.frames i frames).due j symbol = true := by
  cases frames with
  | nil => exact decide_eq_true h
  | cons frame rest => exact decide_eq_true (.inl h)

theorem due_frames_self {frames : List (List String)} {symbol : String}
    (h : symbol ∈ frames.flatten) (i : ℕ) : (Subscriber.frames i frames).due i symbol = true := by
  cases frames with
  | nil => cases h
  | cons frame rest => exact decide_eq_true (.inr ⟨rfl, h⟩)

theorem before_frames (i j : ℕ) (frames : List (List String)) :
    (Subscriber.frames i frames).before j = decide (i ≤ j) := by
  cases frames <;> rfl

end Subscriber

theorem Sockets.put_eq_self (i : ℕ) (s : Sockets β) : s.put i (s.sockets i) = s := by
  unfold Sockets.put
  rw [Function.update_eq_self]

/-- The turn that dials is the one that may lose a connection. -/
theorem Socket.Covered.ensured {book : Book β} {socket : Socket} {symbol : String} {ok : Bool}
    {turn : EnsureReady} (h : socket.Covered book symbol)
    (hclose : turn = .dial → symbol ∈ socket.live →
      symbol ∈ socket.ahead ∨ book.hidden symbol = true) :
    ({ socket with client := (socket.client.ensureReady ok turn).1 } : Socket).Covered
      book symbol := by
  cases turn with
  | check => exact h
  | wait => exact h
  | dial =>
    rcases h with h | h | h
    · exact .inl h
    · rcases hclose rfl h with h | h
      · exact .inl h
      · exact .inr (.inr h)
    · exact .inr (.inr h)

section Subscribe

variable {batches : List (List String)} {book : Book β} {sockets : ℕ → Socket} {i : ℕ}

/-- The batch is cut into frames. -/
theorem inv_subscribing (env : SubscribeEnv) (ok : Bool)
    (hs : SocketInv batches ⟨book, .subscribing i, sockets⟩) :
    SocketInv batches (subscribeTurn batches env ok ⟨book, .subscribing i, sockets⟩) := by
  have hput := Sockets.put_eq_self i (⟨book, .subscribing i, sockets⟩ : Sockets β)
  unfold subscribeTurn
  dsimp only
  cases hframes : subscribeLevel3 env (batches.getD i []) with
  | none =>
    have hfailed := inv_failed (i := i) hs (hs.hooked i)
    rw [hput] at hfailed
    exact hfailed
  | some frames =>
    have hnext : SocketInv batches { (⟨book, .subscribing i, sockets⟩ : Sockets β).put i
        (sockets i) with subscriber := .frames i frames } := by
      refine inv_put hs (fun symbol hmem _ => .inl ?_) (fun j hj symbol _ hdue => ?_)
        (hs.hooked i) (fun _ => hs.fresh i (decide_eq_true (Nat.le_refl i))) fun j _ hbefore => ?_
      · exact Subscriber.due_frames_self (by rwa [subscribeLevel3_flatten hframes]) i
      · have hlt : i < j := lt_of_le_of_ne (of_decide_eq_true hdue) hj.symm
        exact Subscriber.due_frames_later hlt frames symbol
      · rwa [Subscriber.before_frames] at hbefore
    dsimp only at hput
    rw [hput] at hnext
    exact hnext

/-- Within the `ensureReady` of a write a dial may lose the connection. -/
theorem inv_ensure (env : SubscribeEnv) {ok : Bool} {turn : EnsureReady} {frame : List String}
    {rest : List (List String)}
    (hs : SocketInv batches ⟨book, .ensure i turn frame rest, sockets⟩)
    (hclose : ok = true → turn = .dial →
      MayClose batches ⟨book, .ensure i turn frame rest, sockets⟩ i) :
    SocketInv batches
      (subscribeTurn batches env ok ⟨book, .ensure i turn frame rest, sockets⟩) := by
  have hcalm := hs.hooked_any (i := i) (decide_eq_true (Nat.le_refl i))
  -- what is due and who is before its hook do not depend on where the check leads
  have hgoes : ∀ next : Subscriber,
      (∀ j symbol, next.due j symbol = (Subscriber.ensure i turn frame rest).due j symbol) →
      (∀ j, next.before j = (Subscriber.ensure i turn frame rest).before j) →
      (turn = .dial → ok = true) →
      SocketInv batches { (⟨book, .ensure i turn frame rest, sockets⟩ : Sockets β).put i
        { sockets i with client := ((sockets i).client.ensureReady ok turn).1 } with
          subscriber := next } := by
    intro next hdue hbefore hok
    refine inv_put hs (fun symbol hmem h => ?_) (fun j _ symbol _ h => (hdue j symbol).trans h)
      (hcalm _) (fun _ => ?_) fun j _ h => (hbefore j).symm.trans h
    · rw [hdue]
      by_cases hi : (Subscriber.ensure i turn frame rest).due i symbol = true
      · exact .inl hi
      · refine .inr ((h.resolve_left hi).ensured fun hdial hlive => ?_)
        exact (hclose (hok hdial) hdial symbol hmem hlive).imp_left fun h => h.resolve_left hi
    · exact ((sockets i).client.ensureReady_onReconnect ok turn).trans
        (hs.fresh i (decide_eq_true (Nat.le_refl i)))
  have hwrite := hgoes (.write i frame rest) (fun _ _ => rfl) (fun _ => rfl)
  by_cases hturn : turn = .dial
  · subst hturn
    cases ok with
    | true => exact hwrite fun _ => rfl
    | false => exact inv_failed hs (hcalm _)
  · rcases (sockets i).client.ensureReady_waits ok hturn with hready | ⟨next, hwaits⟩
    · rw [hready] at hwrite
      simp only [subscribeTurn, hready]
      exact hwrite fun hdial => absurd hdial hturn
    · have hnext := hgoes (.ensure i next frame rest) (fun _ _ => rfl) (fun _ => rfl)
        fun hdial => absurd hdial hturn
      rw [hwaits] at hnext
      simp only [subscribeTurn, hwaits]
      exact hnext

/-- A frame that is written is no longer due. -/
theorem inv_write (env : SubscribeEnv) (ok : Bool) {frame : List String}
    {rest : List (List String)} (hs : SocketInv batches ⟨book, .write i frame rest, sockets⟩) :
    SocketInv batches (subscribeTurn batches env ok ⟨book, .write i frame rest, sockets⟩) := by
  have hcalm := hs.hooked_any (i := i) (decide_eq_true (Nat.le_refl i))
  have hreader := hs.not_rehooked (i := i) (decide_eq_true (Nat.le_refl i))
  have hlive : ∀ client, ({ sockets i with client := client } : Socket).live =
      client.written.flatten := by
    intro client
    unfold Socket.live
    dsimp only at hreader ⊢
    split
    · rename_i heq
      rw [heq] at hreader
      cases hreader
    · rfl
  rcases (sockets i).client.write_cases ok frame with hsent | hfailed
  · simp only [subscribeTurn, hsent]
    refine inv_put hs (fun symbol hmem h => ?_) (fun j hj symbol _ hdue => ?_) (hcalm _)
      (fun _ => hs.fresh i (decide_eq_true (Nat.le_refl i))) fun j _ hbefore => ?_
    · rcases h with hdue | h | h | h
      -- the frame at hand moves from what is due to what is subscribed
      · rcases of_decide_eq_true hdue with hlt | ⟨-, hframes⟩
        · exact absurd hlt (Nat.lt_irrefl i)
        · rcases List.mem_append.1 hframes with hframe | hrest
          · refine .inr (.inr (.inl ?_))
            rw [hlive]
            simp [WebsocketClient.written, hframe]
          · exact .inl (Subscriber.due_frames_self hrest i)
      · exact .inr (.inl h)
      · refine .inr (.inr (.inl ?_))
        have hwritten : symbol ∈ (sockets i).client.written.flatten := by rwa [← hlive]
        rw [hlive]
        simp only [WebsocketClient.written, Option.getD_some, List.flatten_append] at hwritten ⊢
        exact List.mem_append_left _ hwritten
      · exact .inr (.inr (.inr h))
    · rcases of_decide_eq_true hdue with hlt | ⟨rfl, -⟩
      · exact Subscriber.due_frames_later hlt rest symbol
      · exact absurd rfl hj
    · rwa [Subscriber.before_frames] at hbefore
  · simp only [subscribeTurn, hfailed]
    exact inv_failed hs (hcalm _)

/-- With its last hook registered, the batch is done. -/
theorem inv_onReconnect (env : SubscribeEnv) (ok : Bool)
    (hs : SocketInv batches ⟨book, .onReconnect i, sockets⟩) :
    SocketInv batches (subscribeTurn batches env ok ⟨book, .onReconnect i, sockets⟩) := by
  refine inv_put hs (fun symbol hmem h => ?_) (fun j hj symbol hmem hdue => ?_) (fun _ => rfl)
    (fun hbefore => ?_) fun j _ hbefore => ?_
  · exact .inr (h.resolve_left fun hdue => absurd (of_decide_eq_true hdue) (Nat.lt_irrefl i))
  · have hlt : i < j := of_decide_eq_true hdue
    -- the later batch has a symbol, so the loop goes on
    have hnext : i + 1 < batches.length := by
      have := lt_length_of_mem_batch hmem
      omega
    unfold Subscriber.batch
    rw [if_pos hnext]
    exact decide_eq_true hlt
  · unfold Subscriber.batch at hbefore
    split at hbefore
    · exact absurd (of_decide_eq_true hbefore) (by omega)
    · cases hbefore
  · unfold Subscriber.batch at hbefore
    split at hbefore
    · have hle : i + 1 ≤ j := of_decide_eq_true hbefore
      exact decide_eq_true (by omega)
    · cases hbefore

end Subscribe

/-- A turn of `SubscribeBooks`. -/
theorem inv_subscribe {batches : List (List String)} {s : Sockets β} (env : SubscribeEnv)
    (ok : Bool) (hs : SocketInv batches s)
    (htended : Tended sdk batches s (.subscribe env ok)) :
    SocketInv batches (socketStep sdk batches s (.subscribe env ok)) := by
  obtain ⟨book, subscriber, sockets⟩ := s
  show SocketInv batches (subscribeTurn batches env ok _)
  cases subscriber with
  -- the dial of a batch
  | opening i =>
    have hcalm := hs.hooked_any (i := i) (decide_eq_true (Nat.le_refl i))
    cases ok with
    | false => exact inv_failed hs (hcalm _)
    | true =>
      exact inv_put hs (fun _ _ _ => .inl (decide_eq_true (Nat.le_refl i)))
        (fun _ _ _ _ h => h) (hcalm _) (fun _ => rfl) fun _ _ h => h
  | starting i =>
    exact inv_put hs (fun _ _ _ => .inl (decide_eq_true (Nat.le_refl i))) (fun _ _ _ _ h => h)
      (fun hhook => nomatch hhook) (hs.fresh i) fun _ _ h => h
  | subscribing i => exact inv_subscribing env ok hs
  -- a connection may be replaced under the subscriber
  | ensure i turn frame rest =>
    refine inv_ensure env hs fun hok hturn => ?_
    subst hok hturn
    exact htended.1 i rfl
  | write i frame rest => exact inv_write env ok hs
  | onDisconnect i =>
    exact inv_put hs (fun _ _ h => h) (fun _ _ _ _ h => h) (hs.hooked i) (hs.fresh i)
      fun _ _ h => h
  -- from here on the hook answers for the batch
  | onReconnect i => exact inv_onReconnect env ok hs
  | returned => exact hs
  | failed => exact hs

/-- Every event keeps the invariant of the sockets. -/
theorem inv_step {batches : List (List String)} {s : Sockets β} (e : SocketEvent)
    (hs : SocketInv batches s) (htended : Tended sdk batches s e) :
    SocketInv batches (socketStep sdk batches s e) := by
  cases e with
  | subscribe env ok => exact inv_subscribe sdk env ok hs htended
  | read i env => exact inv_read sdk i env hs htended
  | ping i => exact inv_ping sdk i hs htended
  | mark i n => exact inv_mark sdk i n hs

/-- It holds when the books are subscribed. -/
theorem inv_subscribeBooks (symbols : List String) (book : Book β) :
    SocketInv (level3Batches symbols) (book.subscribeBooks symbols) := by
  refine ⟨fun i symbol hmem => .inl ?_, fun _ hhook => (nomatch hhook), fun _ _ => rfl⟩
  have hlength : 0 < (level3Batches symbols).length :=
    Nat.lt_of_le_of_lt (Nat.zero_le i) (lt_length_of_mem_batch hmem)
  show (Subscriber.batch (level3Batches symbols) 0).due i symbol = true
  unfold Subscriber.batch
  rw [if_pos hlength]
  exact decide_eq_true (Nat.zero_le i)

/-- Where all is covered and nothing is still to come, no book is dead. -/
theorem AllCovered.noneDead {batches : List (List String)} {s : Sockets β}
    (h : AllCovered batches s) : NoneDead batches s := by
  intro hreturned i symbol hmem hidle
  obtain ⟨hhook, hpinged⟩ := of_decide_eq_true hidle
  have hcov : (s.sockets i).Covered s.book symbol := by
    refine (h i symbol hmem).resolve_left fun hdue => ?_
    rw [hreturned] at hdue
    cases hdue
  generalize s.sockets i = socket at hhook hpinged hcov ⊢
  obtain ⟨client, reader, pinged⟩ := socket
  -- an idle socket has nothing ahead
  rcases hcov with hahead | hlive | hhidden
  · rcases Socket.mem_ahead.1 hahead with hreader | hmark
    · unfold Reader.ahead at hreader
      split at hreader
      all_goals first | exact absurd rfl hhook | cases hreader
    · obtain ⟨left, hleft, hsymbol⟩ := List.mem_flatten.1 hmark
      rw [hpinged left hleft] at hsymbol
      cases hsymbol
  · unfold Socket.live at hlive
    split at hlive
    · cases hlive
    · exact .inl hlive
  · exact .inr hhidden

/-! ## The conditions are exact -/

/-- A turn that closes the connection without a hook leaves nothing in its place. -/
theorem readerTurn_unhooked (batch : List String) {env : ReaderEnv} (book : Book β)
    {socket : Socket} (h : socket.unhooked env.ok = true) :
    (readerTurn sdk batch env book socket).1 = book ∧
      (readerTurn sdk batch env book socket).2.live = [] ∧
      ∀ symbol ∈ (readerTurn sdk batch env book socket).2.ahead, symbol ∈ socket.ahead := by
  obtain ⟨client, reader, pinged⟩ := socket
  -- a reader that starts over has nothing new ahead of it
  have hquiet : ∀ {client' : WebsocketClient (List String)} {symbol : String},
      symbol ∈ (Socket.mk client' (.ensure .check []) pinged).ahead →
      symbol ∈ (Socket.mk client reader pinged).ahead :=
    fun h => Socket.mem_ahead.2 (.inr h)
  cases reader with
  | ensure turn hooks =>
    cases turn with
    | check => cases h
    | wait => cases h
    | dial =>
      cases hok : env.ok with
      | true =>
        have hreg : client.onReconnect = false := by
          simpa [Socket.unhooked, hok] using h
        simp only [readerTurn, hok, WebsocketClient.ensureReady_redialed, hreg,
          Bool.false_eq_true, if_false]
        refine ⟨trivial, Socket.live_nil rfl _ _, fun symbol hmem => ?_⟩
        rw [Socket.mem_ahead, Reader.ahead_proceed .dial] at hmem
        exact Socket.mem_ahead.2 hmem
      | false =>
        have hhooks : hooks = [] := by
          simpa [Socket.unhooked, hok] using h
        subst hhooks
        simp only [readerTurn, hok, WebsocketClient.ensureReady_failed]
        exact ⟨trivial, rfl, fun _ hmem => hquiet hmem⟩
  | reading =>
    have hboth : env.ok = false ∧ client.onDisconnect = false := by
      simpa [Socket.unhooked] using h
    simp only [readerTurn, hboth.1, WebsocketClient.softDown, hboth.2, Bool.and_false,
      Bool.false_eq_true, if_false]
    exact ⟨trivial, rfl, fun _ hmem => hquiet hmem⟩
  | off => cases h
  | write hook hooks => cases h
  | holding payload => cases h
  | dropping left hooks => cases h
  | failing left hooks => cases h

/-- What is applied is what the reader of the socket held. -/
theorem Sockets.applied_read {s : Sockets β} {i : ℕ} {env : ReaderEnv} {payload : Level3}
    (h : payload ∈ s.applied (.read i env)) : (s.sockets i).reader = .holding payload := by
  unfold Sockets.applied at h
  dsimp only at h
  split at h
  · rename_i heq
    rw [heq, Option.some.inj h]
  · cases h

/-- What a step leaves at a socket that it closed: no subscription, and no more to come
than before. -/
structure ClosedAt (i : ℕ) (s s' : Sockets β) : Prop where
  book : s'.book = s.book
  live : (s'.sockets i).live = []
  ahead : ∀ symbol ∈ (s'.sockets i).ahead, symbol ∈ (s.sockets i).ahead
  due : ∀ symbol, s'.subscriber.due i symbol = s.subscriber.due i symbol

theorem closedAt_of_unhooked (batches : List (List String)) {s : Sockets β} {e : SocketEvent}
    {i : ℕ} (hi : i ∈ s.unhooked e) : ClosedAt i s (socketStep sdk batches s e) := by
  cases e with
  | subscribe env ok =>
    obtain ⟨book, subscriber, sockets⟩ := s
    cases subscriber with
    | ensure k turn frame rest =>
      cases turn with
      | dial =>
        cases ok with
        | true =>
          cases hi
          have hput : (socketStep sdk batches ⟨book, .ensure i .dial frame rest, sockets⟩
              (.subscribe env true)).sockets i =
              { sockets i with client := (sockets i).client.dialLocked true } :=
            Sockets.put_self i _ _
          refine ⟨rfl, ?_, fun symbol hmem => ?_, fun _ => rfl⟩
          · -- a connection just dialled has nothing written on it
            rw [hput]
            exact Socket.live_nil rfl _ _
          · rw [hput] at hmem
            exact hmem
        | false => cases hi
      | check => cases hi
      | wait => cases hi
    | opening _ => cases hi
    | starting _ => cases hi
    | subscribing _ => cases hi
    | write _ _ _ => cases hi
    | onDisconnect _ => cases hi
    | onReconnect _ => cases hi
    | returned => cases hi
    | failed => cases hi
  | read k env =>
    -- only the reader at work closes a connection, and its own
    have hunhooked : k = i ∧ (s.sockets k).unhooked env.ok = true := by
      cases hk : (s.sockets k).unhooked env.ok with
      | true =>
        have hsome : some k = some i := by
          simpa [Sockets.unhooked, hk] using hi
        exact ⟨Option.some.inj hsome, rfl⟩
      | false => simp [Sockets.unhooked, hk] at hi
    obtain ⟨rfl, hunhooked⟩ := hunhooked
    obtain ⟨hbook, hnone, hahead⟩ := readerTurn_unhooked sdk (batches.getD k []) s.book hunhooked
    have hput : (socketStep sdk batches s (.read k env)).sockets k =
        (readerTurn sdk (batches.getD k []) env s.book (s.sockets k)).2 :=
      Sockets.put_self k _ s
    rw [← hput] at hnone hahead
    exact ⟨hbook, hnone, hahead, fun _ => rfl⟩
  | ping k =>
    have hunhooked : k = i ∧ (s.sockets k).client.onDisconnect = false := by
      cases hk : (s.sockets k).client.onDisconnect with
      | false =>
        have hsome : some k = some i := by
          simpa [Sockets.unhooked, hk] using hi
        exact ⟨Option.some.inj hsome, rfl⟩
      | true => simp [Sockets.unhooked, hk] at hi
    obtain ⟨rfl, hreg⟩ := hunhooked
    have hput : (socketStep sdk batches s (.ping k)).sockets k =
        { s.sockets k with client := (s.sockets k).client.closeConnLocked } := by
      show (s.put k ((s.sockets k).ping _)).sockets k = _
      rw [Sockets.put_self]
      simp only [Socket.ping, WebsocketClient.softDown, hreg, Bool.and_false]
    refine ⟨rfl, ?_, fun symbol hmem => ?_, fun _ => rfl⟩
    · rw [hput]
      exact Socket.live_nil rfl _ _
    · rw [hput] at hmem
      exact hmem
  | mark k n => cases hi

/-- Applying a frame changes the books, and the reader goes on. -/
theorem socketStep_applied (batches : List (List String)) {s : Sockets β} {k : ℕ}
    {env : ReaderEnv} {payload : Level3} (h : payload ∈ s.applied (.read k env)) :
    (socketStep sdk batches s (.read k env)).book = (s.book.update sdk payload).1 ∧
      ∀ i, ((socketStep sdk batches s (.read k env)).sockets i).ahead ⊆ (s.sockets i).ahead ∧
        ((socketStep sdk batches s (.read k env)).sockets i).live ⊆ (s.sockets i).live := by
  have hreader := Sockets.applied_read h
  have hturn : readerTurn sdk (batches.getD k []) env s.book (s.sockets k) =
      ((s.book.update sdk payload).1, { s.sockets k with reader := .ensure .check [] }) := by
    unfold readerTurn
    rw [hreader]
  refine ⟨congrArg Prod.fst hturn, fun i => ?_⟩
  by_cases hik : i = k
  · subst hik
    have hput : (socketStep sdk batches s (.read i env)).sockets i =
        { s.sockets i with reader := .ensure .check [] } :=
      (Sockets.put_self i _ s).trans (congrArg Prod.snd hturn)
    rw [hput]
    refine ⟨List.subset_append_right _ _, ?_⟩
    unfold Socket.live
    rw [hreader]
    exact List.Subset.refl _
  · have hput : (socketStep sdk batches s (.read k env)).sockets i = s.sockets i :=
      Sockets.put_other hik _ s
    rw [hput]
    exact ⟨List.Subset.refl _, List.Subset.refl _⟩

/-- A step that is not tended leaves a symbol uncovered. -/
theorem not_covered_of_not_tended {batches : List (List String)} {s : Sockets β}
    {e : SocketEvent} (h : ¬ Tended sdk batches s e) :
    ¬ AllCovered batches (socketStep sdk batches s e) := by
  intro hall
  refine h ⟨fun i hi symbol hmem _ => ?_, fun payload hpayload _ i _ symbol hmem _ hafter => ?_⟩
  · have hclosed := closedAt_of_unhooked sdk batches hi
    rcases hall i symbol hmem with h | h | h | h
    · exact .inl (.inl ((hclosed.due symbol).symm.trans h))
    · exact .inl (.inr (hclosed.ahead symbol h))
    · rw [hclosed.live] at h
      cases h
    · rw [hclosed.book] at h
      exact .inr h
  · cases e with
    | read k env =>
      obtain ⟨hbook, hsame⟩ := socketStep_applied sdk batches hpayload
      rcases hall i symbol hmem with h | h | h | h
      · exact .inl (.inl h)
      · exact .inl (.inr ((hsame i).1 h))
      · exact .inr ((hsame i).2 h)
      · rw [hbook, hafter] at h
        cases h
    | subscribe env ok => cases hpayload
    | ping k => cases hpayload
    | mark k n => cases hpayload

/-- The books are covered all along a run of `SubscribeBooks` exactly if each of its
steps is tended, and then none of them is ever dead. -/
theorem books_live (symbols : List String) (book : Book β) (es : List SocketEvent) :
    (Everywhere (socketStep sdk (level3Batches symbols)) (AllCovered (level3Batches symbols))
        (book.subscribeBooks symbols) es ↔
      Along (socketStep sdk (level3Batches symbols)) (Tended sdk (level3Batches symbols))
        (book.subscribeBooks symbols) es) ∧
    (Along (socketStep sdk (level3Batches symbols)) (Tended sdk (level3Batches symbols))
        (book.subscribeBooks symbols) es →
      Everywhere (socketStep sdk (level3Batches symbols)) (NoneDead (level3Batches symbols))
        (book.subscribeBooks symbols) es) := by
  have hstep : ∀ (s : Sockets β) (e : SocketEvent), SocketInv (level3Batches symbols) s →
      Tended sdk (level3Batches symbols) s e →
      SocketInv (level3Batches symbols) (socketStep sdk (level3Batches symbols) s e) :=
    fun _ e hs htended => inv_step sdk e hs htended
  have hstart := inv_subscribeBooks symbols book
  refine ⟨?_, fun htended => ?_⟩
  · exact everywhere_iff_of_inv hstep (fun _ hs => hs.covered)
      (fun _ _ _ hnot => not_covered_of_not_tended sdk hnot) hstart es
  · exact everywhere_of_inv hstep (fun _ hs => hs.covered.noneDead) hstart htended

/-! ## Runs with a drop -/

/-- Turns of `SubscribeBooks` that all succeed. -/
def sampleTurns (n : ℕ) : List SocketEvent := List.replicate n (.subscribe ⟨true, 10, 200⟩ true)

/-- A turn of the first reader that succeeds; a frame that it reads is a snapshot. -/
def sampleRead : SocketEvent :=
  .read 0 ⟨⟨true, 10, 200⟩, true, ⟨"snapshot", [sampleEntry (3 / 10)]⟩⟩

/-- The books that expect the snapshot. -/
def sampleSubscribe : Sockets (List (BookDirection × ℚ × String × ℚ)) :=
  ((Book.new false).expect ["A/B"]).subscribeBooks ["A/B"]

/-- A drop after both hooks are registered: the book is stale until the snapshot of the
next subscription, and is read again after it. -/
theorem books_live_sample :
    Everywhere (socketStep sampleSdk (level3Batches ["A/B"])) (NoneDead (level3Batches ["A/B"]))
      sampleSubscribe (sampleTurns 7 ++ [sampleRead, sampleRead, sampleRead, .ping 0, .mark 0 0] ++
        List.replicate 7 sampleRead) ∧
    (runFrom (socketStep sampleSdk (level3Batches ["A/B"])) sampleSubscribe
      (sampleTurns 7 ++ [sampleRead, sampleRead, sampleRead, .ping 0, .mark 0 0] ++
        List.replicate 7 sampleRead)).book.read "A/B" =
      some [(.bid, 1 / 2, "o1", 1), (.bid, 3 / 10, "o2", 1)] := by
  constructor
  · refine (books_live sampleSdk ["A/B"] ((Book.new false).expect ["A/B"]) _).2 ?_
    decide +kernel
  · decide +kernel

/-- A drop and a redial before the hooks are registered leave a book that is read and
that no connection feeds. So does a drop between the read of a snapshot and its
application. -/
theorem sampleSubscribe_dead :
    ¬ Everywhere (socketStep sampleSdk (level3Batches ["A/B"])) (NoneDead (level3Batches ["A/B"]))
      sampleSubscribe (sampleTurns 5 ++ [sampleRead, sampleRead, sampleRead, .ping 0, sampleRead,
        sampleRead, sampleRead] ++ sampleTurns 2) ∧
    ¬ Everywhere (socketStep sampleSdk (level3Batches ["A/B"])) (NoneDead (level3Batches ["A/B"]))
      sampleSubscribe (sampleTurns 7 ++ [sampleRead, sampleRead, .ping 0, .mark 0 0,
        sampleRead]) := by
  constructor
  · intro h
    have hdead := h.last (by decide +kernel) 0 "A/B" (by decide +kernel) (by decide +kernel)
    exact absurd hdead (by decide +kernel)
  · intro h
    have hdead := h.last (by decide +kernel) 0 "A/B" (by decide +kernel) (by decide +kernel)
    exact absurd hdead (by decide +kernel)

end Symm.Broker
