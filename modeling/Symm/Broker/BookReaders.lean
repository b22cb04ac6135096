import Symm.Broker.Book
import Symm.Lib.Machine

/-!
# What readers of a book see

A book is *verified* if it is the result of applying complete entries one after
the other, each of them accepted. An entry that fails on a missing pair
precision, on a non-canonical number or on an unparsable one returns without
marking its book, however far it got: it *tears* the book if it created or
changed it. A torn book is hidden only by a mark that was there anyway, that is
while its symbol is still pending or, for a delta, stale.

`Run` records beside the books what a run has received and which books are torn
and hidden by nothing but a pending snapshot.

- `Verified`: the history by which a book is verified, as an inductive;
- `tears`, `tornAfter`: which books an entry leaves torn;
- `safeEntry`, `SafeEvent`: the condition, asked of an entry on the books that it finds;
- `Inv`: a book that no mark of its own hides is verified or torn, and torn books are
  pending;
- `readers_verified`: what a reader is given along a run, by the invariant.

`applyEntry_cases` lists all that the turn of an entry can come to, and it is the one
place where the code of a turn is taken apart. `Accounted` is what the invariant needs
of each of the cases for the symbol of the entry; another symbol is not touched.
-/

namespace Symm.Broker

open Symm.Lib

variable {β ν : Type}

/-- The book is what complete and accepted entries of the symbol make of a new
one. -/
inductive Verified (sdk : Sdk β ν) (symbol : String) : List Level3Data → β → Prop
  | first {data data' : Level3Data} {depth : Int} {b : β} : data.symbol = symbol →
      sdk.applyData data (sdk.createBook symbol depth) = (b, .ok data') →
      Verified sdk symbol [data] b
  | next {entries : List Level3Data} {data data' : Level3Data} {b b' : β} :
      Verified sdk symbol entries b → data.symbol = symbol →
      sdk.applyData data b = (b', .ok data') → Verified sdk symbol (entries ++ [data]) b'

/-- A verified book goes back to some entry: an empty history verifies nothing. -/
theorem Verified.ne_nil {sdk : Sdk β ν} {symbol : String} {entries : List Level3Data} {b : β}
    (h : Verified sdk symbol entries b) : entries ≠ [] := by
  cases h with
  | first => exact List.cons_ne_nil _ _
  | next => simp

/-- A run of `Update`, `Expect` and `Stale`. -/
structure Run (β : Type) where
  book : Book β
  received : List Level3Data
  torn : Finset String

/-- What may happen to the books. -/
inductive BookEvent
  | update (payload : Level3)
  | expect (symbols : List String)
  | stale (symbols : List String)

namespace Run

variable (sdk : Sdk β ν) [DecidableEq β]

/-- A fresh `Book`. -/
def new (ready : Bool) : Run β := ⟨Book.new ready, [], ∅⟩

/-- The entry returns an error that marks nothing, after it has created or
changed the book of its symbol. -/
def tears (type : String) (env : EntryEnv) (data : Level3Data) (book : Book β) : Bool :=
  match book.applyEntry sdk type env data with
  | (after, .failed (.order _ _)) =>
    type = "snapshot" ∨ after.books.lookup data.symbol ≠ book.books.lookup data.symbol
  | _ => false

/-- The torn books after an entry. -/
def tornAfter (type : String) (env : EntryEnv) (data : Level3Data) (run : Run β) :
    Finset String :=
  let (after, outcome) := run.book.applyEntry sdk type env data
  if tears sdk type env data run.book then
    if data.symbol ∈ after.stale then run.torn else insert data.symbol run.torn
  else match outcome with
    | .accepted _ => if type = "snapshot" then run.torn.erase data.symbol else run.torn
    | .failed (.invalid _) => run.torn.erase data.symbol
    | _ => run.torn

/-- The run after an entry. -/
def entry (type : String) (env : EntryEnv) (data : Level3Data) (run : Run β) : Run β where
  book := match run.book.applyEntry sdk type env data with
    | (after, .accepted accepted) => (after.recordTouch sdk accepted).1
    | (after, _) => after
  received := run.received ++ [{ data with type := type }]
  torn := run.tornAfter sdk type env data

/-- The run after the entries of a frame, up to the first that fails. -/
def entries (type : String) : List (EntryEnv × Level3Data) → Run β → Run β
  | [], run => run
  | (env, data) :: rest, run =>
    match (run.book.applyEntry sdk type env data).2 with
    | .failed _ => run.entry sdk type env data
    | _ => entries type rest (run.entry sdk type env data)

/-- One event. -/
def step (run : Run β) : BookEvent → Run β
  | .update payload =>
    { run.entries sdk payload.type payload.data with book := (run.book.update sdk payload).1 }
  | .expect symbols => { run with book := run.book.expect symbols }
  | .stale symbols =>
    { run with book := run.book.markStale symbols, torn := run.torn \ symbols.toFinset }

/-- What readers may see. -/
def ReadersVerified (run : Run β) : Prop :=
  ∀ symbol b, run.book.read symbol = some b →
    ∃ entries, entries.Sublist run.received ∧ Verified sdk symbol entries b

/-- The entry tears no book, or one that a reader does not see: its symbol is
pending, or stale and the entry a delta. -/
def safeEntry (type : String) (env : EntryEnv) (data : Level3Data) (run : Run β) : Bool :=
  ¬ tears sdk type env data run.book ∨ run.book.isPending data.symbol ∨
    (type ≠ "snapshot" ∧ data.symbol ∈ run.book.stale)

/-- So do all entries of a frame, each when its turn comes. -/
def safeEntries (type : String) : List (EntryEnv × Level3Data) → Run β → Bool
  | [], _ => true
  | (env, data) :: rest, run => run.safeEntry sdk type env data &&
    match (run.book.applyEntry sdk type env data).2 with
    | .failed _ => true
    | _ => safeEntries type rest (run.entry sdk type env data)

/-- A frame tears only hidden books, and `Expect` keeps the torn ones pending. -/
def SafeEvent (run : Run β) : BookEvent → Prop
  | .update payload => run.safeEntries sdk payload.type payload.data = true
  | .expect symbols => ∀ symbol ∈ run.torn, symbol ∈ symbols
  | .stale _ => True

end Run

/-! ## What one entry does -/

namespace Sdk

variable (sdk : Sdk β ν)

/-- An accepted entry keeps its symbol and time. -/
theorem applyData_ok {data data' : Level3Data} {b b' : β}
    (h : sdk.applyData data b = (b', .ok data')) :
    data'.symbol = data.symbol ∧ data'.timestamp = data.timestamp := by
  unfold applyData at h
  split at h
  · cases h
  · split at h
    · cases h
    · dsimp only at h
      split at h
      · cases h
        unfold verify
        dsimp only
        split
        · split <;> exact ⟨rfl, rfl⟩
        · exact ⟨rfl, rfl⟩
      · cases h

end Sdk

namespace Book

variable (sdk : Sdk β ν)

/-- Two states of the books that agree on a symbol. -/
structure SameOn (symbol : String) (book after : Book β) : Prop where
  books : after.books.lookup symbol = book.books.lookup symbol
  stale : symbol ∈ after.stale ↔ symbol ∈ book.stale
  invalid : (after.invalid.lookup symbol).isSome = (book.invalid.lookup symbol).isSome

theorem SameOn.refl (symbol : String) (book : Book β) : SameOn symbol book book :=
  ⟨rfl, Iff.rfl, rfl⟩

/-- A request for a new subscription is only logged. -/
theorem requestResubscribe_eq (symbol : String) (book : Book β) :
    ∃ log, book.requestResubscribe symbol = { book with resubscribes := log } := by
  unfold requestResubscribe
  split
  · exact ⟨book.resubscribes, rfl⟩
  · exact ⟨_, rfl⟩

/-- A delta that is dropped leaves every book and flag as it was, but for the record of the
invalid book. -/
theorem dropDelta_spec {symbol : String} {entry : InvalidBook} {book : Book β}
    (h : book.invalid.lookup symbol = some entry) :
    (book.dropDelta symbol entry).pending = book.pending ∧
      ∀ t, SameOn t book (book.dropDelta symbol entry) := by
  have hsome : ∀ t, ((book.invalid.insert symbol
      { entry with dropped := entry.dropped + 1 }).lookup t).isSome =
        (book.invalid.lookup t).isSome := by
    intro t
    by_cases ht : t = symbol
    · subst ht
      simp [h]
    · rw [AList.lookup_insert_ne ht]
  unfold dropDelta
  dsimp only
  split
  · obtain ⟨log, hlog⟩ := requestResubscribe_eq symbol { book with
      invalid := book.invalid.insert symbol { entry with dropped := entry.dropped + 1 } }
    rw [hlog]
    exact ⟨rfl, fun t => ⟨rfl, Iff.rfl, hsome t⟩⟩
  · exact ⟨rfl, fun t => ⟨rfl, Iff.rfl, hsome t⟩⟩

/-- The book at hand for an entry. -/
theorem openBook_spec (type symbol : String) (depth : Int) (book : Book β) :
    (book.openBook sdk type symbol depth).1.pending = book.pending ∧
    (∀ t, t ≠ symbol → SameOn t book (book.openBook sdk type symbol depth).1) ∧
    ((type = "snapshot" ∧
        (book.openBook sdk type symbol depth).2 = sdk.createBook symbol depth ∧
        symbol ∉ (book.openBook sdk type symbol depth).1.stale) ∨
      (type ≠ "snapshot" ∧
        (book.openBook sdk type symbol depth).1.stale = book.stale ∧
        (book.openBook sdk type symbol depth).1.invalid = book.invalid ∧
        (book.books.lookup symbol = some (book.openBook sdk type symbol depth).2 ∨
          book.books.lookup symbol = none ∧
            (book.openBook sdk type symbol depth).2 = sdk.createBook symbol depth))) := by
  unfold openBook
  split
  -- a snapshot begins a new book and takes the marks of its symbol away
  · rename_i htype
    refine ⟨rfl, fun t ht => ⟨?_, ?_, ?_⟩, .inl ⟨htype, rfl, ?_⟩⟩
    · exact AList.lookup_insert_ne ht
    · simp [ht]
    · dsimp only
      rw [AList.lookup_erase_ne ht]
    · simp
  · rename_i htype
    split
    · rename_i b hb
      exact ⟨rfl, fun t _ => SameOn.refl t book, .inr ⟨htype, rfl, rfl, .inl hb⟩⟩
    · rename_i hnone
      refine ⟨rfl, fun t ht => ⟨?_, Iff.rfl, rfl⟩, .inr ⟨htype, rfl, rfl, .inr ⟨hnone, rfl⟩⟩⟩
      exact AList.lookup_insert_ne ht

/-- The entry was applied to the book `b`, which became `b'`. -/
structure Turn (type : String) (data : Level3Data) (book after : Book β) (b b' : β) : Prop where
  books : after.books.lookup data.symbol = some b'
  opened : (∃ depth, b = sdk.createBook data.symbol depth) ∨
    type ≠ "snapshot" ∧ book.books.lookup data.symbol = some b
  stale : data.symbol ∈ after.stale ↔ type ≠ "snapshot" ∧ data.symbol ∈ book.stale
  valid : type ≠ "snapshot" → book.invalid.lookup data.symbol = none

/-- Writing the opened book back is the turn of its entry. -/
theorem turn_of_openBook {type : String} {depth : Int} {data : Level3Data} {book after : Book β}
    {b' : β} (hvalid : type ≠ "snapshot" → book.invalid.lookup data.symbol = none)
    (hbooks : after.books =
      (book.openBook sdk type data.symbol depth).1.books.insert data.symbol b')
    (hstale : after.stale = (book.openBook sdk type data.symbol depth).1.stale) :
    Turn sdk type data book after (book.openBook sdk type data.symbol depth).2 b' := by
  obtain ⟨-, -, hopen⟩ := openBook_spec sdk type data.symbol depth book
  refine ⟨by rw [hbooks, AList.lookup_insert], ?_, ?_, hvalid⟩
  · rcases hopen with ⟨-, hb, -⟩ | ⟨htype, -, -, hb | ⟨-, hb⟩⟩
    · exact .inl ⟨depth, hb⟩
    · exact .inr ⟨htype, hb⟩
    · exact .inl ⟨depth, hb⟩
  · rw [hstale]
    rcases hopen with ⟨htype, -, hs⟩ | ⟨htype, hs, -, -⟩
    · exact ⟨fun h => absurd h hs, fun h => absurd htype h.1⟩
    · rw [hs]
      exact ⟨fun h => ⟨htype, h⟩, fun h => h.2⟩

/-- Marking a symbol invalid touches nothing but its mark. -/
theorem invalidate_spec (fault : Sdk.EntryFault) (type : String) (data : Level3Data)
    (book : Book β) :
    (invalidate fault type data book).1.pending = book.pending ∧
      (invalidate fault type data book).1.books = book.books ∧
      (invalidate fault type data book).1.stale = book.stale ∧
      (∀ t, t ≠ data.symbol →
        (invalidate fault type data book).1.invalid.lookup t = book.invalid.lookup t) ∧
      ∃ diagnostic, (invalidate fault type data book).2 = .failed (.invalid diagnostic) ∧
        ((invalidate fault type data book).1.invalid.lookup data.symbol).isSome := by
  unfold invalidate
  dsimp only
  generalize hdiag : (BookDiagnostic.mk _ _ _ _ _ _ _ _) = diagnostic
  obtain ⟨log, hlog⟩ := requestResubscribe_eq data.symbol { book with
    failures := book.failures + 1
    invalid := book.invalid.insert data.symbol ⟨diagnostic, 0⟩ }
  rw [hlog]
  refine ⟨rfl, rfl, rfl, fun t ht => AList.lookup_insert_ne ht, diagnostic, rfl, ?_⟩
  dsimp only
  rw [AList.lookup_insert, Option.isSome_some]

/-- All that the turn of an entry can come to. -/
theorem applyEntry_cases (type : String) (env : EntryEnv) (data : Level3Data) (book : Book β) :
    (book.applyEntry sdk type env data).1.pending = book.pending ∧
    (∀ t, t ≠ data.symbol → SameOn t book (book.applyEntry sdk type env data).1) ∧
    ((SameOn data.symbol book (book.applyEntry sdk type env data).1 ∧
        ((book.applyEntry sdk type env data).2 = .skipped ∧ type ≠ "snapshot" ∨
          (book.applyEntry sdk type env data).2 = .failed .cancelled ∨
          (book.applyEntry sdk type env data).2 = .failed .noDepth)) ∨
      ∃ b b', Turn sdk type data book (book.applyEntry sdk type env data).1 b b' ∧
        ((∃ accepted, sdk.applyData { data with type := type } b = (b', .ok accepted) ∧
            (book.applyEntry sdk type env data).2 = .accepted accepted) ∨
          (∃ diagnostic, (book.applyEntry sdk type env data).2 = .failed (.invalid diagnostic) ∧
            ((book.applyEntry sdk type env data).1.invalid.lookup data.symbol).isSome) ∨
          ∃ err, (book.applyEntry sdk type env data).2 = .failed (.order data.symbol err))) := by
  unfold applyEntry
  split
  · exact ⟨rfl, fun t _ => SameOn.refl t book, .inl ⟨SameOn.refl _ book, .inr (.inl rfl)⟩⟩
  dsimp only
  split
  · rename_i entry hentry
    by_cases htype : type = "snapshot"
    · simp [htype] at hentry
    · rw [if_neg htype] at hentry
      obtain ⟨hpend, hsame⟩ := dropDelta_spec hentry
      exact ⟨hpend, fun t _ => hsame t, .inl ⟨hsame _, .inl ⟨rfl, htype⟩⟩⟩
  rename_i hvalid
  split
  · exact ⟨rfl, fun t _ => SameOn.refl t book, .inl ⟨SameOn.refl _ book, .inr (.inr rfl)⟩⟩
  obtain ⟨hpend, hother, -⟩ := openBook_spec sdk type data.symbol env.depth book
  have hmark : type ≠ "snapshot" → book.invalid.lookup data.symbol = none := by
    intro htype
    rwa [if_neg htype] at hvalid
  have hturn : ∀ {after : Book β} {b' : β},
      after.books = (book.openBook sdk type data.symbol env.depth).1.books.insert data.symbol b' →
      after.stale = (book.openBook sdk type data.symbol env.depth).1.stale →
      Turn sdk type data book after (book.openBook sdk type data.symbol env.depth).2 b' :=
    turn_of_openBook sdk hmark
  generalize book.openBook sdk type data.symbol env.depth = opened at hpend hother hturn ⊢
  obtain ⟨book', b⟩ := opened
  dsimp only at hpend hother hturn ⊢
  generalize hap : sdk.applyData { data with type := type } b = applied
  obtain ⟨b', result⟩ := applied
  -- writing the book back touches its symbol only, and no mark
  have hwrite : ∀ t, t ≠ data.symbol →
      SameOn t book { book' with books := book'.books.insert data.symbol b' } := fun t ht =>
    ⟨(AList.lookup_insert_ne ht).trans (hother t ht).books, (hother t ht).stale,
      (hother t ht).invalid⟩
  -- and so does marking it invalid
  have hinvalid : ∀ fault : Sdk.EntryFault,
      let marked := invalidate fault type { data with type := type }
        { book' with books := book'.books.insert data.symbol b' }
      marked.1.pending = book.pending ∧ (∀ t, t ≠ data.symbol → SameOn t book marked.1) ∧
        Turn sdk type data book marked.1 b b' ∧
        ∃ diagnostic, marked.2 = .failed (.invalid diagnostic) ∧
          (marked.1.invalid.lookup data.symbol).isSome := by
    intro fault
    obtain ⟨hp, hbooks, hstale, hinv, hdiag⟩ := invalidate_spec fault type
      { data with type := type } { book' with books := book'.books.insert data.symbol b' }
    refine ⟨hp.trans hpend, fun t ht => ⟨?_, ?_, ?_⟩, hturn hbooks hstale, hdiag⟩
    · rw [hbooks]
      exact (hwrite t ht).books
    · rw [hstale]
      exact (hwrite t ht).stale
    · rw [hinv t ht]
      exact (hwrite t ht).invalid
  cases result with
  | ok accepted =>
    exact ⟨hpend, hwrite, .inr ⟨b, b', hturn rfl rfl, .inl ⟨accepted, hap, rfl⟩⟩⟩
  | error fault =>
    cases fault with
    | mismatch checksum =>
      obtain ⟨h₁, h₂, h₃, h₄⟩ := hinvalid (.mismatch checksum)
      exact ⟨h₁, h₂, .inr ⟨b, b', h₃, .inr (.inl h₄)⟩⟩
    | order err =>
      cases err with
      | absentLevel event orderID price =>
        obtain ⟨h₁, h₂, h₃, h₄⟩ := hinvalid (.order (.absentLevel event orderID price))
        exact ⟨h₁, h₂, .inr ⟨b, b', h₃, .inr (.inl h₄)⟩⟩
      | noPair =>
        exact ⟨hpend, hwrite, .inr ⟨b, b', hturn rfl rfl, .inr (.inr ⟨_, rfl⟩)⟩⟩
      | notCanonical field value scale =>
        exact ⟨hpend, hwrite, .inr ⟨b, b', hturn rfl rfl, .inr (.inr ⟨_, rfl⟩)⟩⟩
      | unparsable value =>
        exact ⟨hpend, hwrite, .inr ⟨b, b', hturn rfl rfl, .inr (.inr ⟨_, rfl⟩)⟩⟩

/-- `StaleSymbol` says exactly when a reader is given nothing. -/
theorem read_isSome {symbol : String} (hsymbol : symbol ≠ "") (book : Book β) :
    (book.read symbol).isSome = !book.staleSymbol symbol := by
  unfold read staleSymbol
  by_cases hp : book.isPending symbol = true
  · simp [hp]
  by_cases hs : symbol ∈ book.stale
  · simp [hp, hs]
  cases hi : book.invalid.lookup symbol with
  | some entry => simp [hp, hs]
  | none => cases hb : book.books.lookup symbol <;> simp [hp, hs, hsymbol]

/-- Touches are beside the books. -/
theorem recordTouch_eq (data : Level3Data) (book : Book β) :
    ∃ lastTouch, (book.recordTouch sdk data).1 = { book with lastTouch := lastTouch } := by
  unfold recordTouch
  dsimp only
  split
  · split
    · exact ⟨book.lastTouch, rfl⟩
    · split
      · exact ⟨book.lastTouch, rfl⟩
      · split <;> exact ⟨_, rfl⟩
  · exact ⟨book.lastTouch, rfl⟩

end Book

namespace Run

variable (sdk : Sdk β ν) [DecidableEq β]

/-- What keeps torn books out of sight: a book that no mark of its own hides is
verified or torn, and torn books are pending. -/
structure Inv (run : Run β) : Prop where
  sound : ∀ symbol b, run.book.books.lookup symbol = some b →
    symbol ∈ run.book.stale ∨ (run.book.invalid.lookup symbol).isSome ∨ symbol ∈ run.torn ∨
      ∃ entries, entries.Sublist run.received ∧ Verified sdk symbol entries b
  hidden : ∀ symbol ∈ run.torn, run.book.isPending symbol = true

omit [DecidableEq β] in
/-- Under the invariant, every book that a reader is given has been verified. -/
theorem Inv.readers {run : Run β} (h : run.Inv sdk) : run.ReadersVerified sdk := by
  intro symbol b hread
  unfold Book.read at hread
  split at hread
  · cases hread
  rename_i hpending
  split at hread
  · cases hread
  rename_i hstale
  split at hread
  · cases hread
  rename_i hinvalid
  rcases h.sound symbol b hread with hs | hs | hs | hs
  · exact absurd hs hstale
  · exact absurd hs hinvalid
  · exact absurd (h.hidden symbol hs) hpending
  · exact hs

section Entry

variable {sdk} {type : String} {env : EntryEnv} {data : Level3Data} {run : Run β}

/-- An entry has the book, the marks and the pending set of `applyEntry`. -/
theorem entry_book (sdk : Sdk β ν) (type : String) (env : EntryEnv) (data : Level3Data)
    (run : Run β) : ∃ lastTouch, (run.entry sdk type env data).book =
      { (run.book.applyEntry sdk type env data).1 with lastTouch := lastTouch } := by
  unfold entry
  dsimp only
  split
  · rename_i after accepted heq
    rw [heq]
    exact Book.recordTouch_eq sdk accepted after
  · rename_i after _ _ heq
    rw [heq]
    exact ⟨after.lastTouch, rfl⟩

/-- Tearing a book that is not stale afterwards records it as torn. -/
theorem mem_tornAfter_of_tears (ht : tears sdk type env data run.book = true) :
    data.symbol ∈ (run.book.applyEntry sdk type env data).1.stale ∨
      data.symbol ∈ run.tornAfter sdk type env data := by
  by_cases hs : data.symbol ∈ (run.book.applyEntry sdk type env data).1.stale
  · exact .inl hs
  · right
    unfold tornAfter
    dsimp only
    rw [if_pos ht, if_neg hs]
    exact Finset.mem_insert_self _ _

/-- The other symbols stay torn or not. -/
theorem mem_tornAfter_other {t : String} (ht : t ≠ data.symbol) :
    t ∈ run.tornAfter sdk type env data ↔ t ∈ run.torn := by
  unfold tornAfter
  dsimp only
  split
  · split
    · exact Iff.rfl
    · simp [ht]
  · split
    · split
      · simp [ht]
      · exact Iff.rfl
    · simp [ht]
    · exact Iff.rfl

/-- A book becomes torn by being torn, and only while it is not stale. -/
theorem of_mem_tornAfter {t : String} (ht : t ∈ run.tornAfter sdk type env data) :
    t ∈ run.torn ∨ t = data.symbol ∧ tears sdk type env data run.book = true ∧
      data.symbol ∉ (run.book.applyEntry sdk type env data).1.stale := by
  unfold tornAfter at ht
  dsimp only at ht
  split at ht
  · rename_i htears
    split at ht
    · exact .inl ht
    · rename_i hstale
      rcases Finset.mem_insert.mp ht with rfl | ht
      · exact .inr ⟨rfl, htears, hstale⟩
      · exact .inl ht
  · split at ht
    · split at ht
      · exact .inl (Finset.mem_of_mem_erase ht)
      · exact .inl ht
    · exact .inl (Finset.mem_of_mem_erase ht)
    · exact .inl ht

/-- Without a tear a symbol leaves the torn ones by a fresh snapshot, or when its
book is marked invalid. -/
theorem mem_tornAfter (hmem : data.symbol ∈ run.torn) :
    data.symbol ∈ run.tornAfter sdk type env data ∨
      (∃ accepted, (run.book.applyEntry sdk type env data).2 = .accepted accepted ∧
        type = "snapshot") ∨
      ∃ diagnostic, (run.book.applyEntry sdk type env data).2 = .failed (.invalid diagnostic) := by
  unfold tornAfter
  dsimp only
  split
  · split
    · exact .inl hmem
    · exact .inl (Finset.mem_insert_of_mem hmem)
  · split
    · rename_i accepted heq
      split
      · rename_i htype
        exact .inr (.inl ⟨accepted, heq, htype⟩)
      · exact .inl hmem
    · rename_i diagnostic heq
      exact .inr (.inr ⟨diagnostic, heq⟩)
    · exact .inl hmem

/-- So a delta on a torn book leaves it torn, unless it is marked invalid. -/
theorem mem_tornAfter_of_delta (hmem : data.symbol ∈ run.torn) (htype : type ≠ "snapshot")
    (hvalid : ∀ diagnostic,
      (run.book.applyEntry sdk type env data).2 ≠ .failed (.invalid diagnostic)) :
    data.symbol ∈ run.tornAfter sdk type env data := by
  rcases mem_tornAfter hmem with ht | ⟨_, -, hsnap⟩ | ⟨diagnostic, heq⟩
  · exact ht
  · exact absurd hsnap htype
  · exact absurd heq (hvalid diagnostic)

/-- An order error that tears nothing is that of a delta which changed nothing. -/
theorem not_tears {symbol : String} {err : OrderError}
    (hout : (run.book.applyEntry sdk type env data).2 = .failed (.order symbol err))
    (ht : ¬ tears sdk type env data run.book = true) :
    type ≠ "snapshot" ∧ (run.book.applyEntry sdk type env data).1.books.lookup data.symbol =
      run.book.books.lookup data.symbol := by
  unfold tears at ht
  split at ht
  · rename_i after _ _ heq
    rw [heq]
    simpa [not_or] using ht
  · rename_i hne
    exact (hne _ _ _ (Prod.ext rfl hout)).elim

/-- What holds of the book at hand after a delta that is applied to it or leaves it. -/
theorem Inv.carried (h : run.Inv sdk) {after : Book β} {b₀ b b' : β}
    (hturn : Book.Turn sdk type data run.book after b₀ b') (htype : type ≠ "snapshot")
    (hb : run.book.books.lookup data.symbol = some b)
    (hout : ∀ diagnostic, (run.book.applyEntry sdk type env data).2 ≠
      .failed (.invalid diagnostic)) :
    data.symbol ∈ after.stale ∨ data.symbol ∈ run.tornAfter sdk type env data ∨
      ∃ entries, entries.Sublist run.received ∧ Verified sdk data.symbol entries b := by
  rcases h.sound _ b hb with hs | hs | hs | hs
  · exact .inl (hturn.stale.mpr ⟨htype, hs⟩)
  · rw [hturn.valid htype] at hs
    cases hs
  · exact .inr (.inl (mem_tornAfter_of_delta hs htype hout))
  · exact .inr (.inr hs)

/-- What an entry leaves of a book: a mark of its own that hides it, a tear, or
complete entries that it is verified by. -/
def Accounted (sdk : Sdk β ν) (type : String) (env : EntryEnv) (data : Level3Data) (run : Run β)
    (symbol : String) (b : β) : Prop :=
  let after := (run.book.applyEntry sdk type env data).1
  symbol ∈ after.stale ∨ (after.invalid.lookup symbol).isSome ∨
    symbol ∈ run.tornAfter sdk type env data ∨
      ∃ entries, entries.Sublist (run.entry sdk type env data).received ∧
        Verified sdk symbol entries b

/-- The verified stay verified, with more received. -/
theorem verified_entry {symbol : String} {b : β}
    (h : ∃ entries, entries.Sublist run.received ∧ Verified sdk symbol entries b) :
    ∃ entries, entries.Sublist (run.entry sdk type env data).received ∧
      Verified sdk symbol entries b := by
  obtain ⟨entries, hsub, hv⟩ := h
  exact ⟨entries, hsub.trans (List.sublist_append_left _ _), hv⟩

/-- Another symbol is not touched. -/
theorem Inv.accounted_other (h : run.Inv sdk) {symbol : String} {b : β}
    (hsym : symbol ≠ data.symbol)
    (hsame : Book.SameOn symbol run.book (run.book.applyEntry sdk type env data).1)
    (hlookup : run.book.books.lookup symbol = some b) :
    run.Accounted sdk type env data symbol b := by
  unfold Accounted
  dsimp only
  rw [hsame.stale, hsame.invalid, mem_tornAfter_other hsym]
  rcases h.sound symbol b hlookup with hs | hs | hs | hs
  · exact .inl hs
  · exact .inr (.inl hs)
  · exact .inr (.inr (.inl hs))
  · exact .inr (.inr (.inr (verified_entry hs)))

/-- An entry of which nothing was applied tears nothing and takes no tear away. -/
theorem Inv.accounted_idle (h : run.Inv sdk) {b : β}
    (hsame : Book.SameOn data.symbol run.book (run.book.applyEntry sdk type env data).1)
    (hout : (run.book.applyEntry sdk type env data).2 = .skipped ∧ type ≠ "snapshot" ∨
      (run.book.applyEntry sdk type env data).2 = .failed .cancelled ∨
      (run.book.applyEntry sdk type env data).2 = .failed .noDepth)
    (hlookup : run.book.books.lookup data.symbol = some b) :
    run.Accounted sdk type env data data.symbol b := by
  unfold Accounted
  dsimp only
  rw [hsame.stale, hsame.invalid]
  rcases h.sound _ b hlookup with hs | hs | hs | hs
  · exact .inl hs
  · exact .inr (.inl hs)
  · rcases mem_tornAfter hs with ht | ⟨_, heq, -⟩ | ⟨_, heq⟩
    · exact .inr (.inr (.inl ht))
    · rcases hout with ⟨ho, -⟩ | ho | ho <;> rw [ho] at heq <;> cases heq
    · rcases hout with ⟨ho, -⟩ | ho | ho <;> rw [ho] at heq <;> cases heq
  · exact .inr (.inr (.inr (verified_entry hs)))

/-- A complete entry verifies the book it is applied to. -/
theorem Inv.accounted_accepted (h : run.Inv sdk) {b b' : β} {accepted : Level3Data}
    (hturn : Book.Turn sdk type data run.book (run.book.applyEntry sdk type env data).1 b b')
    (hap : sdk.applyData { data with type := type } b = (b', .ok accepted))
    (hout : (run.book.applyEntry sdk type env data).2 = .accepted accepted) :
    run.Accounted sdk type env data data.symbol b' := by
  rcases hturn.opened with ⟨depth, hb⟩ | ⟨htype, hb⟩
  · -- on a new book
    refine .inr (.inr (.inr ⟨[{ data with type := type }], ?_, ?_⟩))
    · exact List.sublist_append_right _ _
    · exact .first rfl (hb ▸ hap)
  · -- on the book at hand, by a delta
    have hno : ∀ diagnostic, (run.book.applyEntry sdk type env data).2 ≠
        .failed (.invalid diagnostic) := by
      intro diagnostic heq
      rw [hout] at heq
      cases heq
    rcases h.carried hturn htype hb hno with hs | hs | ⟨entries, hsub, hv⟩
    · exact .inl hs
    · exact .inr (.inr (.inl hs))
    · exact .inr (.inr (.inr ⟨_, hsub.append (List.Sublist.refl _), .next hv rfl hap⟩))

/-- An order error that marks nothing tears the book, or has left it as it was. -/
theorem Inv.accounted_order (h : run.Inv sdk) {b b' : β} {symbol : String} {err : OrderError}
    (hturn : Book.Turn sdk type data run.book (run.book.applyEntry sdk type env data).1 b b')
    (hout : (run.book.applyEntry sdk type env data).2 = .failed (.order symbol err)) :
    run.Accounted sdk type env data data.symbol b' := by
  by_cases htears : tears sdk type env data run.book = true
  · rcases mem_tornAfter_of_tears htears with hs | hs
    · exact .inl hs
    · exact .inr (.inr (.inl hs))
  · obtain ⟨htype, hkept⟩ := not_tears hout htears
    rw [hturn.books] at hkept
    have hno : ∀ diagnostic, (run.book.applyEntry sdk type env data).2 ≠
        .failed (.invalid diagnostic) := by
      intro diagnostic heq
      rw [hout] at heq
      cases heq
    rcases h.carried hturn htype hkept.symm hno with hs | hs | hs
    · exact .inl hs
    · exact .inr (.inr (.inl hs))
    · exact .inr (.inr (.inr (verified_entry hs)))

/-- A book that is there after an entry has been made by the entries that the run accounts
for. -/
theorem Inv.accounted (h : run.Inv sdk) {symbol : String} {b : β}
    (hlookup : (run.book.applyEntry sdk type env data).1.books.lookup symbol = some b) :
    run.Accounted sdk type env data symbol b := by
  obtain ⟨-, hother, hcases⟩ := Book.applyEntry_cases sdk type env data run.book
  by_cases hsym : symbol = data.symbol
  · subst hsym
    rcases hcases with ⟨hsame, hout⟩ | ⟨b₀, b', hturn, hout⟩
    · rw [hsame.books] at hlookup
      exact h.accounted_idle hsame hout hlookup
    · rw [hturn.books] at hlookup
      cases hlookup
      rcases hout with ⟨accepted, hap, hout⟩ | ⟨_, -, hinvalid⟩ | ⟨err, hout⟩
      · exact h.accounted_accepted hturn hap hout
      · exact .inr (.inl hinvalid)
      · exact h.accounted_order hturn hout
  · have hsame := hother symbol hsym
    rw [hsame.books] at hlookup
    exact h.accounted_other hsym hsame hlookup

/-- One entry of a frame keeps the invariant, if it tears no book that a reader sees. -/
theorem Inv.entry (h : run.Inv sdk) (hsafe : run.safeEntry sdk type env data = true) :
    (run.entry sdk type env data).Inv sdk := by
  obtain ⟨hpend, -, hcases⟩ := Book.applyEntry_cases sdk type env data run.book
  obtain ⟨lastTouch, hbook⟩ := entry_book sdk type env data run
  constructor
  · intro symbol b hlookup
    rw [hbook] at hlookup ⊢
    exact h.accounted hlookup
  · intro t ht
    have hsame : (run.entry sdk type env data).book.isPending t = run.book.isPending t := by
      rw [hbook, Book.isPending, Book.isPending, hpend]
    rw [hsame]
    rcases of_mem_tornAfter ht with hold | ⟨rfl, htears, hstale⟩
    · exact h.hidden t hold
    · rcases of_decide_eq_true hsafe with hnot | hpending | ⟨htype, hs⟩
      · exact absurd htears hnot
      · exact hpending
      · rcases hcases with ⟨hkeep, -⟩ | ⟨b, b', hturn, -⟩
        · exact absurd (hkeep.stale.mpr hs) hstale
        · exact absurd (hturn.stale.mpr ⟨htype, hs⟩) hstale

end Entry

/-! ## Whole frames -/

section Frame

variable {sdk}

/-- The entries leave the books that `Book.apply` leaves. -/
theorem entries_book (type : String) (data : List (EntryEnv × Level3Data)) (run : Run β) :
    (run.entries sdk type data).book = (run.book.apply sdk type data).book := by
  induction data generalizing run with
  | nil => rfl
  | cons head rest ih =>
    obtain ⟨env, data⟩ := head
    unfold entries Book.apply
    cases happ : run.book.applyEntry sdk type env data with
    | mk after outcome =>
      cases outcome with
      | failed err =>
        dsimp only
        rw [entry, happ]
      | skipped =>
        dsimp only
        rw [ih, entry, happ]
      | accepted accepted =>
        dsimp only
        rw [ih, entry, happ]

/-- A whole frame keeps the invariant, entry by entry. -/
theorem Inv.entries {type : String} {data : List (EntryEnv × Level3Data)} {run : Run β}
    (h : run.Inv sdk) (hsafe : run.safeEntries sdk type data = true) :
    (run.entries sdk type data).Inv sdk := by
  induction data generalizing run with
  | nil => exact h
  | cons head rest ih =>
    obtain ⟨env, data⟩ := head
    obtain ⟨hhead, hrest⟩ := Bool.and_eq_true_iff.mp hsafe
    have hentry := h.entry hhead
    unfold Run.entries
    cases hout : (run.book.applyEntry sdk type env data).2 with
    | failed err => exact hentry
    | skipped =>
      rw [hout] at hrest
      exact ih hentry hrest
    | accepted accepted =>
      rw [hout] at hrest
      exact ih hentry hrest

/-- An accepted snapshot is not torn. -/
theorem tornAfter_of_accepted {type : String} (htype : type = "snapshot") {env : EntryEnv}
    {data accepted : Level3Data} {run : Run β}
    (hout : (run.book.applyEntry sdk type env data).2 = .accepted accepted) :
    run.tornAfter sdk type env data = run.torn.erase data.symbol := by
  have htears : ¬ tears sdk type env data run.book = true := by
    unfold tears
    split
    · rename_i after _ _ heq
      rw [heq] at hout
      cases hout
    · exact Bool.false_ne_true
  unfold tornAfter
  dsimp only
  rw [if_neg htears, hout]
  exact if_pos htype

/-- After a frame of snapshots without error no accepted symbol is torn. -/
theorem entries_torn {type : String} (htype : type = "snapshot")
    (data : List (EntryEnv × Level3Data)) (run : Run β)
    (hok : (run.book.apply sdk type data).err = none) :
    (run.entries sdk type data).torn ⊆ run.torn ∧
      ∀ accepted ∈ (run.book.apply sdk type data).accepted,
        accepted.symbol ∉ (run.entries sdk type data).torn := by
  induction data generalizing run with
  | nil => exact ⟨fun _ h => h, fun accepted h => absurd h List.not_mem_nil⟩
  | cons head rest ih =>
    obtain ⟨env, data⟩ := head
    obtain ⟨-, -, hcases⟩ := Book.applyEntry_cases sdk type env data run.book
    have hbook : (run.entry sdk type env data).book =
        match run.book.applyEntry sdk type env data with
        | (after, .accepted accepted) => (after.recordTouch sdk accepted).1
        | (after, _) => after := rfl
    unfold entries
    unfold Book.apply at hok ⊢
    cases happ : run.book.applyEntry sdk type env data with
    | mk after outcome =>
      rw [happ] at hok hcases hbook
      cases outcome with
      | failed err => cases hok
      | skipped =>
        rcases hcases with ⟨-, ⟨-, hne⟩ | h | h⟩ | ⟨_, _, -, ⟨_, -, h⟩ | ⟨_, h, -⟩ | ⟨_, h⟩⟩
        · exact absurd htype hne
        all_goals cases h
      | accepted accepted =>
        dsimp only at hok hbook ⊢
        rw [← hbook] at hok ⊢
        obtain ⟨hsub, hnone⟩ := ih (run.entry sdk type env data) hok
        have htorn : (run.entry sdk type env data).torn = run.torn.erase data.symbol :=
          tornAfter_of_accepted htype (by rw [happ])
        rw [htorn] at hsub
        refine ⟨hsub.trans (Finset.erase_subset _ _), fun d hd => ?_⟩
        -- a later entry may be of the same symbol, but tears nothing either
        rcases List.mem_cons.mp hd with rfl | hd
        · intro hmem
          have hsymbol : d.symbol = data.symbol := by
            rcases hcases with ⟨-, ⟨h, -⟩ | h | h⟩ | ⟨_, _, -, ⟨_, hap, h⟩ | ⟨_, h, -⟩ | ⟨_, h⟩⟩
            · cases h
            · cases h
            · cases h
            · cases h
              exact (Sdk.applyData_ok sdk hap).1
            · cases h
            · cases h
          rw [hsymbol] at hmem
          exact absurd (hsub hmem) (Finset.notMem_erase _ _)
        · exact hnone d hd

end Frame

/-! ## Publishing -/

end Run

namespace Book

/-- Publishing an entry touches no book, and what was pending stays so unless it is the
symbol of a snapshot. -/
theorem publish_spec (type : String) (book : Book β) (data : Level3Data) :
    (book.publish type data).books = book.books ∧ (book.publish type data).stale = book.stale ∧
      (book.publish type data).invalid = book.invalid ∧
      ∀ t, book.isPending t = true → (type = "snapshot" → t ≠ data.symbol) →
        (book.publish type data).isPending t = true := by
  have herase : ∀ t, book.isPending t = true → t ≠ data.symbol →
      (book.pending.map fun pending => pending.erase data.symbol).any
        (fun pending => t ∈ pending) = true := by
    intro t ht hne
    obtain ⟨pending, hp, hmem⟩ := Option.any_eq_true _ _ |>.mp ht
    rw [hp, Option.map_some, Option.any_some, decide_eq_true_eq, Finset.mem_erase]
    exact ⟨hne, by simpa using hmem⟩
  unfold publish
  split
  · rename_i htype
    dsimp only
    split
    · exact ⟨rfl, rfl, rfl, fun t ht hne => herase t ht (hne htype)⟩
    · exact ⟨rfl, rfl, rfl, fun t ht hne => herase t ht (hne htype)⟩
  · exact ⟨rfl, rfl, rfl, fun t ht _ => ht⟩

/-- The same over all accepted entries of a frame. -/
theorem foldl_publish_spec (type : String) (accepted : List Level3Data) (book : Book β) :
    (accepted.foldl (publish type) book).books = book.books ∧
      (accepted.foldl (publish type) book).stale = book.stale ∧
      (accepted.foldl (publish type) book).invalid = book.invalid ∧
      ∀ t, book.isPending t = true → (type = "snapshot" → ∀ data ∈ accepted, data.symbol ≠ t) →
        (accepted.foldl (publish type) book).isPending t = true := by
  induction accepted generalizing book with
  | nil => exact ⟨rfl, rfl, rfl, fun t ht _ => ht⟩
  | cons data rest ih =>
    obtain ⟨hb, hs, hi, hp⟩ := publish_spec type book data
    obtain ⟨hb', hs', hi', hp'⟩ := ih (book.publish type data)
    refine ⟨hb'.trans hb, hs'.trans hs, hi'.trans hi, fun t ht hne => ?_⟩
    refine hp' t (hp t ht fun htype => ?_) fun htype d hd => ?_
    · exact (hne htype data List.mem_cons_self).symm
    · exact hne htype d (List.mem_cons_of_mem data hd)

end Book

namespace Run

variable (sdk : Sdk β ν) [DecidableEq β]

omit [DecidableEq β] in
/-- The invariant reads the books, the marks, the torn ones and whether these
are pending. -/
theorem Inv.congr {run run' : Run β} (h : run.Inv sdk)
    (hbooks : run'.book.books = run.book.books) (hstale : run'.book.stale = run.book.stale)
    (hinvalid : run'.book.invalid = run.book.invalid)
    (hreceived : run'.received = run.received) (htorn : run'.torn = run.torn)
    (hhidden : ∀ symbol ∈ run.torn, run'.book.isPending symbol = true) : run'.Inv sdk where
  sound := by
    rw [hbooks, hstale, hinvalid, hreceived, htorn]
    exact h.sound
  hidden := by
    rw [htorn]
    exact hhidden

/-- Every event of a run keeps the invariant. -/
theorem Inv.step {run : Run β} (h : run.Inv sdk) {event : BookEvent}
    (hsafe : run.SafeEvent sdk event) : (run.step sdk event).Inv sdk := by
  cases event with
  | update payload =>
    have hentries : (run.entries sdk payload.type payload.data).Inv sdk := h.entries hsafe
    have hbook : (run.entries sdk payload.type payload.data).book =
        (run.book.apply sdk payload.type payload.data).book := entries_book _ _ run
    show Inv sdk { run.entries sdk payload.type payload.data with
      book := (run.book.update sdk payload).1 }
    unfold Book.update
    dsimp only
    split
    · -- a frame that fails publishes nothing
      rw [← hbook]
      exact hentries
    · rename_i hok
      obtain ⟨hb, hs, hi, hp⟩ := Book.foldl_publish_spec payload.type
        (run.book.apply sdk payload.type payload.data).accepted
        (run.book.apply sdk payload.type payload.data).book
      rw [← hbook] at hb hs hi hp
      refine hentries.congr sdk ?_ ?_ ?_ rfl rfl fun symbol hmem => ?_
      · rw [← hb, hbook]
      · rw [← hs, hbook]
      · rw [← hi, hbook]
      · rw [← hbook]
        refine hp symbol (hentries.hidden symbol hmem) fun htype data hdata heq => ?_
        exact (entries_torn htype payload.data run hok).2 data hdata (heq ▸ hmem)
  | expect symbols =>
    refine h.congr sdk rfl rfl rfl rfl rfl fun symbol hmem => ?_
    show (run.book.expect symbols).isPending symbol = true
    simpa [Book.isPending, Book.expect] using hsafe symbol hmem
  | stale symbols =>
    constructor
    · intro symbol b hlookup
      show symbol ∈ run.book.stale ∪ symbols.toFinset ∨ _ ∨ symbol ∈ run.torn \ symbols.toFinset ∨ _
      rcases h.sound symbol b hlookup with hs | hs | hs | hs
      · exact .inl (Finset.mem_union_left _ hs)
      · exact .inr (.inl hs)
      · by_cases hmem : symbol ∈ symbols.toFinset
        · exact .inl (Finset.mem_union_right _ hmem)
        · exact .inr (.inr (.inl (Finset.mem_sdiff.mpr ⟨hs, hmem⟩)))
      · exact .inr (.inr (.inr hs))
    · intro symbol hmem
      exact h.hidden symbol (Finset.mem_sdiff.mp hmem).1

/-- Along every run of `Update`, `Expect` and `Stale` on a fresh book whose
entries tear only hidden books, readers see verified books only. -/
theorem readers_verified (ready : Bool) (events : List BookEvent)
    (hsafe : Along (step sdk) (SafeEvent sdk) (new ready) events) :
    Everywhere (step sdk) (ReadersVerified sdk) (new ready) events := by
  have hstep : ∀ (run : Run β) (event : BookEvent), run.Inv sdk → run.SafeEvent sdk event →
      (run.step sdk event).Inv sdk := fun _ _ h hs => h.step sdk hs
  have hnew : (new ready : Run β).Inv sdk := by
    refine ⟨fun symbol b hlookup => ?_, fun symbol hmem => ?_⟩
    · change (∅ : AList fun _ : String => β).lookup symbol = some b at hlookup
      rw [AList.lookup_empty] at hlookup
      cases hlookup
    · exact absurd hmem (Finset.notMem_empty symbol)
  exact everywhere_of_inv hstep (fun _ h => h.readers sdk) hnew hsafe

/-! ## A venue to run the books on -/

end Run

/-- Books as lists of resting orders, with their direction, price, id and
quantity; every pair has one price decimal. -/
def sampleSdk : Sdk (List (BookDirection × ℚ × String × ℚ)) ℚ where
  createBook _ _ := []
  keys b direction := (b.filter (·.1 = direction)).map fun order => toString order.2.1
  level b direction key :=
    match b.filter fun order => order.1 = direction ∧ toString order.2.1 = key with
    | [] => none
    | order :: rest => some ⟨some order.2.1, (order :: rest).map (·.2.2.1)⟩
  update o b :=
    let others := b.filter fun order =>
      ¬ (order.1 = o.direction ∧ order.2.1 = o.price ∧ order.2.2.1 = o.id)
    if o.quantity = 0 then others else others ++ [(o.direction, o.price, o.id, o.quantity)]
  enforceDepth b := b
  l3Checksum b server :=
    ⟨server = toString b.length, server, toString b.length, "", ""⟩
  best b direction := ((b.filter (·.1 = direction)).head?).map fun order =>
    ⟨some order.2.1, some order.2.2.2⟩
  pairInfo _ := some ⟨1, 8⟩
  parse value := some value
  setScale value _ := value
  zero := 0
  cmp := compare
  text := toString
  value price := price

/-- An entry without venue checksum that adds two bids, the second at `price`. -/
def sampleEntry (price : ℚ) : EntryEnv × Level3Data :=
  (⟨false, 10⟩, {
    symbol := "A/B", type := "", timestamp := 1, checksum := 0
    bids := [⟨"add", "o1", some (1 / 2), some 1, 1⟩, ⟨"add", "o2", some price, some 1, 1⟩]
    asks := [] })

namespace Run

/-- A snapshot that fails while its symbol is pending is not seen; the one that
follows is, and so is a delta that moves an order. -/
theorem readers_verified_sample :
    Everywhere (step sampleSdk) (ReadersVerified sampleSdk) (new false) [
      .expect ["A/B"], .update ⟨"snapshot", [sampleEntry (1 / 4)]⟩,
      .update ⟨"snapshot", [sampleEntry (3 / 10)]⟩, .update ⟨"update", [sampleEntry (2 / 5)]⟩] ∧
    (runFrom (step sampleSdk) (new false) [
      .expect ["A/B"], .update ⟨"snapshot", [sampleEntry (1 / 4)]⟩,
      .update ⟨"snapshot", [sampleEntry (3 / 10)]⟩,
      .update ⟨"update", [sampleEntry (2 / 5)]⟩]).book.read "A/B" =
        some [(.bid, 1 / 2, "o1", 1), (.bid, 2 / 5, "o2", 1)] := by
  constructor
  · refine readers_verified sampleSdk false _ ⟨?_, ?_, ?_, ?_, trivial⟩
    · exact fun symbol hmem => absurd hmem (Finset.notMem_empty symbol)
    · show safeEntries sampleSdk _ _ _ = true
      decide +kernel
    · show safeEntries sampleSdk _ _ _ = true
      decide +kernel
    · show safeEntries sampleSdk _ _ _ = true
      decide +kernel
  · decide +kernel

/-- A snapshot whose second bid has two decimals fails there, and readers see
its first bid. -/
theorem sampleEntry_torn :
    ¬ Everywhere (step sampleSdk) (ReadersVerified sampleSdk) (new false)
      [.update ⟨"snapshot", [sampleEntry (1 / 4)]⟩] := by
  intro h
  obtain ⟨entries, hsub, hv⟩ := h.last "A/B" [(.bid, 1 / 2, "o1", 1)] (by decide +kernel)
  have hfails : ∀ data b data' depth, [data].Sublist
      [{ (sampleEntry (1 / 4)).2 with type := "snapshot" }] →
      sampleSdk.applyData data (sampleSdk.createBook "A/B" depth) ≠ (b, .ok data') := by
    intro data b data' depth hdata happ
    obtain rfl := List.mem_singleton.mp (List.singleton_sublist.mp hdata)
    have herr : (sampleSdk.applyData { (sampleEntry (1 / 4)).2 with type := "snapshot" } []).2.isOk =
        false := by decide +kernel
    rw [show sampleSdk.createBook "A/B" depth = [] from rfl] at happ
    rw [happ] at herr
    cases herr
  have hreceived : (runFrom (step sampleSdk) (new false)
      [.update ⟨"snapshot", [sampleEntry (1 / 4)]⟩]).received =
        [{ (sampleEntry (1 / 4)).2 with type := "snapshot" }] := by decide +kernel
  rw [hreceived] at hsub
  cases hv with
  | first _ happ => exact hfails _ _ _ _ hsub happ
  | next hv _ _ =>
    have hlen := hsub.length_le
    rw [List.length_append, List.length_singleton, List.length_singleton] at hlen
    exact hv.ne_nil (List.length_eq_zero_iff.mp (by omega))

end Run

end Symm.Broker
