import Symm.Broker.Publishing
import Symm.Lib.Threads

/-!
# Seeding by several readers (`broker/book.go`)

The readers of the level-3 sockets call `Book.Update` at the same time. The
frame is applied under the book's lock; after that each accepted snapshot is
taken out of the pending set by a load, a copy and a compare-and-swap that is
tried again when another reader was faster, and a check of the pending and the
stale set decides whether the system is READY. Each of these is one turn, and so
is each mark that `Book.Stale` sets.

- `seedTurn`: one turn of one call;
- `update_alone`: the turns of one call alone are `Book.update`;
- `seedTurn_step`: all that a turn can do.

The version counts the swaps, so that a swap fails exactly if another one came between
its load and itself, as it does for a pointer that is never used twice. `SeedStep` gives
every kind of turn a constructor; the invariants that follow are proved case by case
over it.
-/

namespace Symm.Broker

open Symm.Lib

/-- The books while readers seed them. `version` counts the pending sets that were
swapped in, as the pointer to each is a new one; `snapshots` holds the symbols of
the snapshot frames accepted in full, `checked` those whose readiness check ran. -/
structure Seeding (β : Type) where
  book : Book β
  version : ℕ
  snapshots : List String
  checked : List String

/-- A call of `Update` or of `Stale` on the way: before the frame is applied, before
the pending set is loaded for an accepted entry, before it is swapped, before the
readiness check, returned, and with symbols left to mark. -/
inductive SeedCall
  | update (payload : Level3)
  | entry (payload : Level3) (data : Level3Data) (rest : List Level3Data)
  | swap (payload : Level3) (data : Level3Data) (rest : List Level3Data) (version : ℕ)
    (pending : Finset String)
  | check (payload : Level3) (data : Level3Data) (rest : List Level3Data)
  | returned (payload : Level3) (err : Option BookError)
  | marking (symbols : List String)

namespace SeedCall

/-- The loop over the accepted entries. -/
def publishing (payload : Level3) : List Level3Data → SeedCall
  | [] => .returned payload none
  | data :: rest => .entry payload data rest

/-- A readiness check is still to come. -/
def checksLeft : SeedCall → Bool
  | .entry payload _ _ => payload.type = "snapshot"
  | .swap _ _ _ _ _ | .check _ _ _ => true
  | .update _ | .returned _ _ | .marking _ => false

end SeedCall

variable {β ν : Type} (sdk : Sdk β ν)

/-- The readiness check of `Update`. -/
def Book.checkReady (book : Book β) : Book β :=
  if book.pending.all (fun pending => pending = ∅) ∧ book.stale = ∅ then
    { book with ready := true, seeded := true }
  else book

/-- The books after a frame that was accepted in full. -/
def Seeding.accept (payload : Level3) (applied : Book.Applied β) (s : Seeding β) : Seeding β :=
  { s with
    book := applied.book
    snapshots := if payload.type = "snapshot" then
        s.snapshots ++ applied.accepted.map Level3Data.symbol
      else s.snapshots }

/-- One turn of a call. -/
def seedTurn (_ : Unit) (s : Seeding β) : SeedCall → Seeding β × SeedCall
  | .update payload =>
    let applied := s.book.apply sdk payload.type payload.data
    match applied.err with
    -- what was applied before the error stays, but nothing of it is published
    | some err => ({ s with book := applied.book }, .returned payload (some err))
    | none => (s.accept payload applied, .publishing payload applied.accepted)
  | .entry payload data rest =>
    if payload.type = "snapshot" then
      match s.book.pending with
      -- nothing was ever expected
      | none => (s, .check payload data rest)
      | some pending => (s, .swap payload data rest s.version pending)
    else (s, .publishing payload rest)
  | .swap payload data rest version pending =>
    if s.version = version then
      ({ s with
          book := { s.book with pending := some (pending.erase data.symbol) }
          version := s.version + 1 },
        .check payload data rest)
    -- another reader was faster: load again
    else (s, .entry payload data rest)
  | .check payload data rest =>
    ({ s with book := s.book.checkReady, checked := s.checked ++ [data.symbol] },
      .publishing payload rest)
  | .returned payload err => (s, .returned payload err)
  | .marking [] => (s, .marking [])
  | .marking (symbol :: rest) =>
    ({ s with book := s.book.markStale [symbol] }, .marking rest)

/-- The books at `Expect`. -/
def Book.seeding (symbols : List String) (book : Book β) : Seeding β :=
  ⟨book.expect symbols, 0, [], []⟩

/-- The symbols of a frame. -/
def Level3.symbols (payload : Level3) : List String :=
  payload.data.map fun entry => entry.2.symbol

/-! ## A call alone -/

theorem publish_eq (data : Level3Data) (book : Book β) :
    book.publish "snapshot" data =
      Book.checkReady { book with
        pending := book.pending.map fun pending => pending.erase data.symbol } := rfl

/-- Publishing a snapshot takes its symbol off the pending ones, whatever map of them is
read. -/
theorem publish_snapshot {type : String} (htype : type = "snapshot") (data : Level3Data)
    {book : Book β} (pending : Option (Finset String))
    (hpending : pending = book.pending.map fun pending => pending.erase data.symbol) :
    Book.checkReady { book with pending := pending } = book.publish type data := by
  rw [htype, hpending, publish_eq]

/-- Alone, one entry is published as `Book.publish` does. -/
theorem entry_alone (payload : Level3) (data : Level3Data) (rest : List Level3Data)
    (s : Seeding β) : ∃ n version checked,
      runFrom (alone (seedTurn sdk)) (s, .entry payload data rest) (List.replicate n ()) =
        ({ s with
            book := s.book.publish payload.type data
            version := version, checked := checked }, .publishing payload rest) := by
  by_cases htype : payload.type = "snapshot"
  · cases hpending : s.book.pending with
    | none =>
      have hload : alone (seedTurn sdk) (s, .entry payload data rest) () =
          (s, .check payload data rest) := by
        show seedTurn sdk () s (.entry payload data rest) = _
        dsimp only [seedTurn]
        rw [if_pos htype, hpending]
      -- nothing is pending: load and check
      refine ⟨2, s.version, s.checked ++ [data.symbol], ?_⟩
      show alone (seedTurn sdk) (alone (seedTurn sdk) _ ()) () = _
      rw [hload, ← publish_snapshot htype data s.book.pending (by rw [hpending]; rfl)]
      rfl
    | some pending =>
      have hload : alone (seedTurn sdk) (s, .entry payload data rest) () =
          (s, .swap payload data rest s.version pending) := by
        show seedTurn sdk () s (.entry payload data rest) = _
        dsimp only [seedTurn]
        rw [if_pos htype, hpending]
      have hswap : alone (seedTurn sdk) (s, .swap payload data rest s.version pending) () =
          ({ s with
              book := { s.book with pending := some (pending.erase data.symbol) }
              version := s.version + 1 }, .check payload data rest) := if_pos rfl
      -- a set is pending: load, swap, which nobody disturbs, and check
      refine ⟨3, s.version + 1, s.checked ++ [data.symbol], ?_⟩
      show alone (seedTurn sdk) (alone (seedTurn sdk) (alone (seedTurn sdk) _ ()) ()) () = _
      rw [hload, hswap, ← publish_snapshot htype data (some (pending.erase data.symbol))
        (by rw [hpending]; rfl)]
      rfl
  · refine ⟨1, s.version, s.checked, ?_⟩
    have hpublish : s.book.publish payload.type data = s.book := if_neg htype
    rw [hpublish]
    exact if_neg htype

/-- Alone, the entries of a frame are published one after the other. -/
theorem publishing_alone (payload : Level3) (accepted : List Level3Data) (s : Seeding β) :
    ∃ n version checked, runFrom (alone (seedTurn sdk)) (s, .publishing payload accepted)
        (List.replicate n ()) =
      ({ s with
          book := accepted.foldl (Book.publish payload.type) s.book
          version := version, checked := checked }, .returned payload none) := by
  induction accepted generalizing s with
  | nil => exact ⟨0, s.version, s.checked, rfl⟩
  | cons data rest ih =>
    obtain ⟨n, version, checked, hn⟩ := entry_alone sdk payload data rest s
    obtain ⟨m, version', checked', hm⟩ := ih { s with
      book := s.book.publish payload.type data, version := version, checked := checked }
    refine ⟨n + m, version', checked', ?_⟩
    rw [List.replicate_add, runFrom_append]
    show runFrom _ (runFrom _ (s, SeedCall.entry payload data rest) _) _ = _
    rw [hn, hm]
    rfl

/-- Alone, a call leaves the books that `Book.update` leaves, and its error. -/
theorem update_alone (payload : Level3) (book : Book β) : ∃ n s,
    runFrom (alone (seedTurn sdk)) (⟨book, 0, [], []⟩, .update payload) (List.replicate n ()) =
      (s, .returned payload (book.update sdk payload).2.err) ∧
    s.book = (book.update sdk payload).1 := by
  cases herr : (book.apply sdk payload.type payload.data).err with
  | some err =>
    have hupdate : book.update sdk payload = ((book.apply sdk payload.type payload.data).book,
        ⟨some err, (book.apply sdk payload.type payload.data).touches, []⟩) := by
      unfold Book.update
      dsimp only
      rw [herr]
    refine ⟨1, { book := (book.apply sdk payload.type payload.data).book
                 version := 0, snapshots := [], checked := [] }, ?_, ?_⟩
    · show seedTurn sdk () _ (.update payload) = _
      rw [hupdate]
      dsimp only [seedTurn]
      rw [herr]
    · rw [hupdate]
  | none =>
    have hupdate : (book.update sdk payload).1 =
          (book.apply sdk payload.type payload.data).accepted.foldl (Book.publish payload.type)
            (book.apply sdk payload.type payload.data).book ∧
        (book.update sdk payload).2.err = none := by
      unfold Book.update
      dsimp only
      rw [herr]
      exact ⟨rfl, rfl⟩
    -- no other call comes between, so every swap succeeds
    obtain ⟨n, version, checked, hrun⟩ := publishing_alone sdk payload
      (book.apply sdk payload.type payload.data).accepted
      ((⟨book, 0, [], []⟩ : Seeding β).accept payload
        (book.apply sdk payload.type payload.data))
    have happly : alone (seedTurn sdk) (⟨book, 0, [], []⟩, .update payload) () =
        ((⟨book, 0, [], []⟩ : Seeding β).accept payload
            (book.apply sdk payload.type payload.data),
          .publishing payload (book.apply sdk payload.type payload.data).accepted) := by
      show seedTurn sdk () _ (.update payload) = _
      dsimp only [seedTurn]
      rw [herr]
    rw [← happly, ← runFrom_cons, ← List.replicate_succ] at hrun
    rw [hupdate.2]
    exact ⟨n + 1, _, hrun, hupdate.1.symm⟩

/-! ## What applying a frame leaves alone -/

namespace Book

/-- The part of the books that seeding reads, but for the stale marks. -/
structure SameFlags (book after : Book β) : Prop where
  pending : after.pending = book.pending
  ready : after.ready = book.ready
  seeded : after.seeded = book.seeded

theorem SameFlags.trans {a b c : Book β} (h : SameFlags a b) (h' : SameFlags b c) :
    SameFlags a c :=
  ⟨h'.pending.trans h.pending, h'.ready.trans h.ready, h'.seeded.trans h.seeded⟩

/-- A request for a subscription changes no flag. -/
theorem requestResubscribe_flags (symbol : String) (book : Book β) :
    SameFlags book (book.requestResubscribe symbol) ∧
      (book.requestResubscribe symbol).stale = book.stale := by
  obtain ⟨log, hlog⟩ := requestResubscribe_eq symbol book
  rw [hlog]
  exact ⟨⟨rfl, rfl, rfl⟩, rfl⟩

/-- Invalidating a book changes no flag of the seeding. -/
theorem invalidate_flags (fault : Sdk.EntryFault) (type : String) (entry : Level3Data)
    (book : Book β) : SameFlags book (book.invalidate fault type entry).1 ∧
      (book.invalidate fault type entry).1.stale = book.stale := by
  unfold invalidate
  dsimp only
  generalize (BookDiagnostic.mk _ _ _ _ _ _ _ _) = diagnostic
  obtain ⟨hflags, hstale⟩ := requestResubscribe_flags entry.symbol { book with
    failures := book.failures + 1
    invalid := book.invalid.insert entry.symbol ⟨diagnostic, 0⟩ }
  exact ⟨⟨hflags.pending, hflags.ready, hflags.seeded⟩, hstale⟩

/-- An entry makes nothing pending, and only a snapshot takes a symbol off the stale ones.
-/
theorem applyEntry_flags (type : String) (env : EntryEnv) (data : Level3Data) (book : Book β) :
    SameFlags book (book.applyEntry sdk type env data).1 ∧
      (type ≠ "snapshot" → (book.applyEntry sdk type env data).1.stale = book.stale) := by
  unfold applyEntry
  split
  · exact ⟨⟨rfl, rfl, rfl⟩, fun _ => rfl⟩
  dsimp only
  split
  · rename_i entry _
    unfold dropDelta
    dsimp only
    split
    · obtain ⟨hflags, hstale⟩ := requestResubscribe_flags data.symbol { book with
        invalid := book.invalid.insert data.symbol { entry with dropped := entry.dropped + 1 } }
      exact ⟨⟨hflags.pending, hflags.ready, hflags.seeded⟩, fun _ => hstale⟩
    · exact ⟨⟨rfl, rfl, rfl⟩, fun _ => rfl⟩
  split
  · exact ⟨⟨rfl, rfl, rfl⟩, fun _ => rfl⟩
  -- a snapshot opens the book anew and clears its mark, nothing else does
  have hopen : SameFlags book (book.openBook sdk type data.symbol env.depth).1 ∧
      (type ≠ "snapshot" →
        (book.openBook sdk type data.symbol env.depth).1.stale = book.stale) := by
    unfold openBook
    split
    · rename_i htype
      exact ⟨⟨rfl, rfl, rfl⟩, fun h => absurd htype h⟩
    · split <;> exact ⟨⟨rfl, rfl, rfl⟩, fun _ => rfl⟩
  generalize book.openBook sdk type data.symbol env.depth = opened at hopen ⊢
  obtain ⟨book', b⟩ := opened
  obtain ⟨hflags, hstale⟩ := hopen
  dsimp only at hflags hstale ⊢
  generalize sdk.applyData { data with type := type } b = applied
  obtain ⟨b', result⟩ := applied
  -- whatever the fault, a book that is invalid keeps its flags
  have hmarked : ∀ fault : Sdk.EntryFault,
      SameFlags book (invalidate fault type { data with type := type }
        { book' with books := book'.books.insert data.symbol b' }).1 ∧
      (type ≠ "snapshot" → (invalidate fault type { data with type := type }
        { book' with books := book'.books.insert data.symbol b' }).1.stale = book.stale) := by
    intro fault
    obtain ⟨hflags', hstale'⟩ := invalidate_flags fault type { data with type := type }
      { book' with books := book'.books.insert data.symbol b' }
    have hwrite : SameFlags book { book' with books := book'.books.insert data.symbol b' } :=
      ⟨hflags.pending, hflags.ready, hflags.seeded⟩
    exact ⟨hwrite.trans hflags', fun htype => hstale'.trans (hstale htype)⟩
  cases result with
  | ok accepted => exact ⟨⟨hflags.pending, hflags.ready, hflags.seeded⟩, hstale⟩
  | error fault =>
    cases fault with
    | mismatch checksum => exact hmarked (.mismatch checksum)
    | order err =>
      cases err with
      | absentLevel event orderID price => exact hmarked _
      | noPair => exact ⟨⟨hflags.pending, hflags.ready, hflags.seeded⟩, hstale⟩
      | notCanonical field value scale =>
        exact ⟨⟨hflags.pending, hflags.ready, hflags.seeded⟩, hstale⟩
      | unparsable value => exact ⟨⟨hflags.pending, hflags.ready, hflags.seeded⟩, hstale⟩

/-- A frame touches no flag, and only a snapshot frame takes stale marks off. -/
theorem apply_flags (type : String) (frame : List (EntryEnv × Level3Data)) (book : Book β) :
    SameFlags book (book.apply sdk type frame).book ∧
      (type ≠ "snapshot" → (book.apply sdk type frame).book.stale = book.stale) := by
  induction frame generalizing book with
  | nil => exact ⟨⟨rfl, rfl, rfl⟩, fun _ => rfl⟩
  | cons entry rest ih =>
    obtain ⟨env, data⟩ := entry
    have hentry := applyEntry_flags sdk type env data book
    unfold apply
    generalize book.applyEntry sdk type env data = turn at hentry ⊢
    obtain ⟨book', outcome⟩ := turn
    cases outcome with
    | failed err => exact hentry
    | skipped =>
      obtain ⟨hflags, hstale⟩ := ih book'
      exact ⟨hentry.1.trans hflags, fun htype => (hstale htype).trans (hentry.2 htype)⟩
    | accepted accepted =>
      obtain ⟨lastTouch, htouch⟩ := recordTouch_eq sdk accepted book'
      obtain ⟨hflags, hstale⟩ := ih (book'.recordTouch sdk accepted).1
      have hrecord : SameFlags book' (book'.recordTouch sdk accepted).1 ∧
          (book'.recordTouch sdk accepted).1.stale = book'.stale := by
        rw [htouch]
        exact ⟨⟨rfl, rfl, rfl⟩, rfl⟩
      exact ⟨(hentry.1.trans hrecord.1).trans hflags,
        fun htype => ((hstale htype).trans hrecord.2).trans (hentry.2 htype)⟩

/-- A snapshot frame without an error has accepted all its entries. -/
theorem apply_accepted {type : String} (htype : type = "snapshot")
    (frame : List (EntryEnv × Level3Data)) (book : Book β)
    (herr : (book.apply sdk type frame).err = none) :
    (book.apply sdk type frame).accepted.map Level3Data.symbol =
      frame.map fun entry => entry.2.symbol := by
  induction frame generalizing book with
  | nil => rfl
  | cons entry rest ih =>
    obtain ⟨env, data⟩ := entry
    have hcases := (applyEntry_cases sdk type env data book).2.2
    unfold apply at herr ⊢
    generalize book.applyEntry sdk type env data = turn at herr hcases ⊢
    obtain ⟨book', outcome⟩ := turn
    cases outcome with
    | failed err => cases herr
    -- only deltas are skipped
    | skipped =>
      rcases hcases with ⟨-, ⟨-, hne⟩ | h | h⟩ | ⟨_, _, -, ⟨_, -, h⟩ | ⟨_, h, -⟩ | ⟨_, h⟩⟩
      · exact absurd htype hne
      all_goals cases h
    | accepted accepted =>
      -- the book answers with an entry of the symbol that it was given
      have hsymbol : accepted.symbol = data.symbol := by
        rcases hcases with ⟨-, ⟨h, -⟩ | h | h⟩ | ⟨_, _, -, ⟨_, hok, h⟩ | ⟨_, h, -⟩ | ⟨_, h⟩⟩
        · cases h
        · cases h
        · cases h
        · cases h
          exact (sdk.applyData_ok hok).1
        · cases h
        · cases h
      have hrest := ih (book'.recordTouch sdk accepted).1 herr
      show (accepted :: _).map Level3Data.symbol = _
      rw [List.map_cons, List.map_cons, hsymbol, hrest]

end Book

/-! ## All that a turn can do -/

/-- A turn, by the branch it takes. -/
inductive SeedStep (s : Seeding β) : SeedCall → Seeding β → SeedCall → Prop
  -- `apply` returns before anything is published
  | refused {payload : Level3} {err : BookError} :
      (s.book.apply sdk payload.type payload.data).err = some err →
      SeedStep s (.update payload)
        { s with book := (s.book.apply sdk payload.type payload.data).book }
        (.returned payload (some err))
  | accepted {payload : Level3} : (s.book.apply sdk payload.type payload.data).err = none →
      SeedStep s (.update payload)
        (s.accept payload (s.book.apply sdk payload.type payload.data))
        (.publishing payload (s.book.apply sdk payload.type payload.data).accepted)
  | delta {payload : Level3} {data : Level3Data} {rest : List Level3Data} :
      payload.type ≠ "snapshot" →
      SeedStep s (.entry payload data rest) s (.publishing payload rest)
  | unexpected {payload : Level3} {data : Level3Data} {rest : List Level3Data} :
      payload.type = "snapshot" → s.book.pending = none →
      SeedStep s (.entry payload data rest) s (.check payload data rest)
  | loaded {payload : Level3} {data : Level3Data} {rest : List Level3Data}
      {pending : Finset String} : payload.type = "snapshot" → s.book.pending = some pending →
      SeedStep s (.entry payload data rest) s (.swap payload data rest s.version pending)
  -- the swap of the pointer, against the version that was loaded
  | won {payload : Level3} {data : Level3Data} {rest : List Level3Data}
      {pending : Finset String} :
      SeedStep s (.swap payload data rest s.version pending)
        { s with
          book := { s.book with pending := some (pending.erase data.symbol) }
          version := s.version + 1 }
        (.check payload data rest)
  -- somebody else has swapped it: load again
  | lost {payload : Level3} {data : Level3Data} {rest : List Level3Data} {version : ℕ}
      {pending : Finset String} : s.version ≠ version →
      SeedStep s (.swap payload data rest version pending) s (.entry payload data rest)
  | checked {payload : Level3} {data : Level3Data} {rest : List Level3Data} :
      SeedStep s (.check payload data rest)
        { s with book := s.book.checkReady, checked := s.checked ++ [data.symbol] }
        (.publishing payload rest)
  | returned {payload : Level3} {err : Option BookError} :
      SeedStep s (.returned payload err) s (.returned payload err)
  | marked : SeedStep s (.marking []) s (.marking [])
  | mark {symbol : String} {rest : List String} :
      SeedStep s (.marking (symbol :: rest)) { s with book := s.book.markStale [symbol] }
        (.marking rest)

theorem seedTurn_step (u : Unit) (s : Seeding β) (t : SeedCall) :
    SeedStep sdk s t (seedTurn sdk u s t).1 (seedTurn sdk u s t).2 := by
  cases t with
  | update payload =>
    dsimp only [seedTurn]
    cases herr : (s.book.apply sdk payload.type payload.data).err with
    | some err => exact .refused herr
    | none => exact .accepted herr
  | entry payload data rest =>
    dsimp only [seedTurn]
    by_cases htype : payload.type = "snapshot"
    · rw [if_pos htype]
      cases hpending : s.book.pending with
      | none => exact .unexpected htype hpending
      | some pending => exact .loaded htype hpending
    · rw [if_neg htype]
      exact .delta htype
  | swap payload data rest version pending =>
    dsimp only [seedTurn]
    -- the swap compares with what was loaded
    by_cases hversion : s.version = version
    · rw [if_pos hversion, ← hversion]
      exact .won
    · rw [if_neg hversion]
      exact .lost hversion
  | check payload data rest => exact .checked
  | returned payload err => exact .returned
  | marking symbols =>
    cases symbols with
    | nil => exact .marked
    | cons symbol rest => exact .mark

end Symm.Broker
