import Symm.Broker.BookReaders

/-!
# What a frame publishes

`Book.apply` returns the entries it accepted together with the error of the
entry it stopped at. `Book.Update` returns that error before it publishes
anything, so a frame is published whole or not at all: the theorem says which
frames have accepted entries that are not published.

- `applyEntry_outcome`: an entry is accepted, skipped or fails;
- `apply_accepted`, `apply_err`: what a frame has accepted when it stops;
- `lateFault`: an entry fails after another one was accepted;
- `publishesAccepted_iff`: all that is accepted is published exactly if there is none.

The entries of a frame are applied in turn, each to the books that the ones before it
left. `drops` and `fails` say of an entry, on the books that it finds, whether it is
passed over or ends the frame; the one that does neither is accepted. They are
predicates of the input, and `applyEntry_outcome` shows that the code does as they say.

`lateFault` is then computed along the frame: some entry fails after an accepted one. An
entry accepted in a frame that fails was applied to its book for good, since there is no
rollback, but nobody is told.
-/

namespace Symm.Broker

namespace Book

variable {β ν : Type} (sdk : Sdk β ν)

/-! ## Frames that fail late -/

/-- The entry is a delta on an invalid book. -/
def drops (type : String) (data : Level3Data) (book : Book β) : Bool :=
  type ≠ "snapshot" ∧ (book.invalid.lookup data.symbol).isSome

/-- The turn of the entry fails: the context is done, or the entry reaches its
book and there is no depth, an order that does not apply or a wrong checksum. -/
def fails (type : String) (env : EntryEnv) (data : Level3Data) (book : Book β) : Bool :=
  env.done || !book.drops type data &&
    (env.depth ≤ 0 || !(sdk.applyData { data with type := type }
      (book.openBook sdk type data.symbol env.depth).2).2.isOk)

/-- The books that the entry after this one finds. -/
def next (type : String) (env : EntryEnv) (data : Level3Data) (book : Book β) : Book β :=
  match book.applyEntry sdk type env data with
  | (book, .accepted data) => (book.recordTouch sdk data).1
  | (book, _) => book

/-- Some entry fails. -/
def fault (type : String) : List (EntryEnv × Level3Data) → Book β → Bool
  | [], _ => false
  | (env, data) :: rest, book =>
    book.fails sdk type env data || fault type rest (book.next sdk type env data)

/-- Some entry fails after one that was neither dropped nor failed. -/
def lateFault (type : String) : List (EntryEnv × Level3Data) → Book β → Bool
  | [], _ => false
  | (env, data) :: rest, book =>
    !book.fails sdk type env data &&
      if book.drops type data then lateFault type rest (book.next sdk type env data)
      else fault sdk type rest (book.next sdk type env data)

/-- An entry fails, is dropped or is accepted, as its predicates say. -/
theorem applyEntry_outcome (type : String) (env : EntryEnv) (data : Level3Data) (book : Book β) :
    (book.fails sdk type env data = true ∧
      ∃ err, (book.applyEntry sdk type env data).2 = .failed err) ∨
    (book.fails sdk type env data = false ∧ book.drops type data = true ∧
      (book.applyEntry sdk type env data).2 = .skipped) ∨
    (book.fails sdk type env data = false ∧ book.drops type data = false ∧
      ∃ accepted, (book.applyEntry sdk type env data).2 = .accepted accepted) := by
  have hdrops : book.drops type data =
      (if type = "snapshot" then none else book.invalid.lookup data.symbol).isSome := by
    unfold drops
    by_cases htype : type = "snapshot" <;> simp [htype]
  unfold fails applyEntry
  rw [hdrops]
  -- in the order of the tests: closed, dropped, without depth, refused by the book
  cases hdone : env.done with
  | true => exact .inl ⟨rfl, _, rfl⟩
  | false =>
    cases hinvalid : (if type = "snapshot" then none else book.invalid.lookup data.symbol) with
    | some entry => exact .inr (.inl ⟨rfl, rfl, by simp [hinvalid]⟩)
    | none =>
      by_cases hdepth : env.depth ≤ 0
      · exact .inl ⟨by simp [hdepth], _, by simp [hinvalid, hdepth]; rfl⟩
      · generalize hopen : book.openBook sdk type data.symbol env.depth = opened
        generalize happ : sdk.applyData { data with type := type } opened.2 = applied
        obtain ⟨b, result⟩ := applied
        cases result with
        | ok accepted =>
          refine .inr (.inr ⟨by simp [hdepth, Except.isOk, Except.toBool], rfl, accepted, ?_⟩)
          simp [hinvalid, hdepth, hopen, happ]
        | error err =>
          refine .inl ⟨by simp [Except.isOk, Except.toBool], ?_⟩
          cases err with
          | mismatch checksum => exact ⟨_, by simp [hinvalid, hdepth, hopen, happ]; rfl⟩
          | order err =>
            cases err <;> exact ⟨_, by simp [hinvalid, hdepth, hopen, happ]; rfl⟩

/-- A frame ends in an error when an entry fails. -/
theorem apply_err (type : String) (frame : List (EntryEnv × Level3Data)) (book : Book β) :
    (book.apply sdk type frame).err.isSome = book.fault sdk type frame := by
  induction frame generalizing book with
  | nil => rfl
  | cons entry rest ih =>
    obtain ⟨env, data⟩ := entry
    have hnext := ih (book.next sdk type env data)
    unfold apply fault
    unfold next at hnext ⊢
    generalize happ : book.applyEntry sdk type env data = turn at hnext ⊢
    obtain ⟨book', outcome⟩ := turn
    rcases applyEntry_outcome sdk type env data book with ⟨hf, err, hout⟩ | ⟨hf, -, hout⟩ |
      ⟨hf, -, accepted, hout⟩
    · rw [happ] at hout
      subst hout
      rw [hf]
      rfl
    · rw [happ] at hout
      subst hout
      rw [hf]
      exact hnext
    · rw [happ] at hout
      subst hout
      rw [hf]
      exact hnext

/-- A frame ends in an error with accepted entries when an entry fails late. -/
theorem apply_late (type : String) (frame : List (EntryEnv × Level3Data)) (book : Book β) :
    ((book.apply sdk type frame).err.isSome && !(book.apply sdk type frame).accepted.isEmpty) =
      book.lateFault sdk type frame := by
  induction frame generalizing book with
  | nil => rfl
  | cons entry rest ih =>
    obtain ⟨env, data⟩ := entry
    have hnext := ih (book.next sdk type env data)
    have herr := apply_err sdk type rest (book.next sdk type env data)
    unfold apply lateFault
    unfold next at hnext herr ⊢
    generalize happ : book.applyEntry sdk type env data = turn at hnext herr ⊢
    obtain ⟨book', outcome⟩ := turn
    -- failed, dropped or accepted; only after an accepted one a fault is late
    rcases applyEntry_outcome sdk type env data book with ⟨hf, err, hout⟩ | ⟨hf, hd, hout⟩ |
      ⟨hf, hd, accepted, hout⟩
    · rw [happ] at hout
      subst hout
      rw [hf]
      rfl
    · rw [happ] at hout
      subst hout
      rw [hf, hd]
      exact hnext
    · rw [happ] at hout
      subst hout
      rw [hf, hd]
      show (_ && true) = _
      rw [Bool.and_true]
      exact herr

/-! ## Publishing -/

/-- A published snapshot is no longer pending, and publishing makes none so. -/
theorem isPending_publish {t : String} {book : Book β} {data : Level3Data}
    (h : book.isPending t = false ∨ data.symbol = t) :
    (book.publish "snapshot" data).isPending t = false := by
  have herase : (book.pending.map fun pending => pending.erase data.symbol).any
      (fun pending => t ∈ pending) = false := by
    unfold isPending at h
    cases hp : book.pending with
    | none => rfl
    | some pending =>
      rw [hp] at h
      rcases h with h | h
      · have hnot : t ∉ pending := by simpa using h
        simp [hnot]
      · simp [h]
  unfold publish
  rw [if_pos rfl]
  dsimp only
  split <;> exact herase

/-- After a snapshot frame was published, none of its symbols is pending. -/
theorem isPending_foldl_publish {t : String} (accepted : List Level3Data) (book : Book β)
    (h : book.isPending t = false ∨ ∃ data ∈ accepted, data.symbol = t) :
    (accepted.foldl (publish "snapshot") book).isPending t = false := by
  induction accepted generalizing book with
  | nil =>
    rcases h with h | ⟨data, hmem, -⟩
    · exact h
    · cases hmem
  | cons data rest ih =>
    show (rest.foldl (publish "snapshot") (book.publish "snapshot" data)).isPending t = false
    refine ih _ ?_
    rcases h with h | ⟨d, hmem, hd⟩
    · exact .inl (isPending_publish (.inl h))
    · rcases List.mem_cons.mp hmem with rfl | hmem
      · exact .inl (isPending_publish (.inr hd))
      · exact .inr ⟨d, hmem, hd⟩

/-- Each entry that `apply` accepts is notified, and if it is a snapshot its
symbol is no longer pending. -/
def PublishesAccepted (payload : Level3) (book : Book β) : Prop :=
  ∀ data ∈ (book.apply sdk payload.type payload.data).accepted,
    (data.symbol, data.timestamp) ∈ (book.update sdk payload).2.notified ∧
      (payload.type = "snapshot" → (book.update sdk payload).1.isPending data.symbol = false)

/-- A frame publishes what it accepted, unless an entry fails late. -/
theorem publishesAccepted_iff (payload : Level3) (book : Book β) :
    book.PublishesAccepted sdk payload ↔
      book.lateFault sdk payload.type payload.data = false := by
  rw [← apply_late]
  unfold PublishesAccepted update
  dsimp only
  generalize book.apply sdk payload.type payload.data = applied
  cases herr : applied.err with
  | some err =>
    rw [Option.isSome_some, Bool.true_and, Bool.not_eq_false', List.isEmpty_iff]
    constructor
    · intro h
      cases hacc : applied.accepted with
      | nil => rfl
      | cons data rest =>
        have := (h data (by rw [hacc]; exact List.mem_cons_self)).1
        cases this
    · intro hnil data hmem
      rw [hnil] at hmem
      cases hmem
  | none =>
    refine iff_of_true (fun data hmem => ⟨List.mem_map.mpr ⟨data, hmem, rfl⟩, fun htype => ?_⟩) rfl
    rw [htype]
    exact isPending_foldl_publish _ _ (.inr ⟨data, hmem, rfl⟩)

/-- A snapshot of one good book and one that a bad order tears: the first is
accepted, stays pending and is not notified. -/
theorem sampleEntry_unpublished :
    ¬ ((new true : Book (List (BookDirection × ℚ × String × ℚ))).expect
        ["A/B", "C/D"]).PublishesAccepted sampleSdk
      ⟨"snapshot", [sampleEntry (3 / 10),
        ((sampleEntry (1 / 4)).1, { (sampleEntry (1 / 4)).2 with symbol := "C/D" })]⟩ ∧
    (((new true : Book (List (BookDirection × ℚ × String × ℚ))).expect
        ["A/B", "C/D"]).update sampleSdk
      ⟨"snapshot", [sampleEntry (3 / 10),
        ((sampleEntry (1 / 4)).1, { (sampleEntry (1 / 4)).2 with symbol := "C/D" })]⟩).1.isPending
          "A/B" = true := by
  rw [publishesAccepted_iff]
  decide +kernel

end Book

end Symm.Broker
