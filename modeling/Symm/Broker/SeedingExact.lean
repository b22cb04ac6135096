import Symm.Broker.Seeding

/-!
# Seeding is neither early nor lost

Several readers seed the books at once, and marks come in between.

- `Seeding.Outstanding`: what is pending has had no check yet, and what is not has had
  its snapshot;
- `Watched`: while nothing is stale, a check is to come, the system is READY, or an
  expected symbol has no check yet;
- `seeding_exact`: the system is READY neither before every expected symbol had
  its snapshot nor later than the last of them.

Part of the argument is that the last check is not lost: whoever takes the last symbol
out of the set checks after the swap, so a check that finds something pending is
followed by another one.
-/

namespace Symm.Broker

open Symm.Lib

variable {β ν : Type} (sdk : Sdk β ν)

/-! ## The invariant -/

namespace Book

theorem checkReady_flags (book : Book β) :
    book.checkReady.pending = book.pending ∧ book.checkReady.stale = book.stale := by
  unfold checkReady
  split <;> exact ⟨rfl, rfl⟩

/-- With nothing pending and nothing stale the system is ready and seeded. -/
theorem checkReady_ready {book : Book β} (hpending : book.pending = some ∅)
    (hstale : book.stale = ∅) : book.checkReady.ready = true ∧ book.checkReady.seeded = true := by
  unfold checkReady
  rw [if_pos]
  · exact ⟨rfl, rfl⟩
  · exact ⟨by rw [hpending]; rfl, hstale⟩

end Book

/-- What only grows, and what only shrinks. -/
structure Seeding.Grows (s s' : Seeding β) : Prop where
  snapshots : ∀ x ∈ s.snapshots, x ∈ s'.snapshots
  checked : ∀ x ∈ s.checked, x ∈ s'.checked
  version : s.version ≤ s'.version
  same : s.version = s'.version → s'.book.pending = s.book.pending
  pending : ∀ P', s'.book.pending = some P' → ∃ P, s.book.pending = some P ∧ P' ⊆ P
  ready : s.book.ready = true ∧ s.book.seeded = true →
    s'.book.ready = true ∧ s'.book.seeded = true

/-- The pending set `P`: only expected symbols are in it, one that left it had its
snapshot, and one whose check ran has left it. -/
structure Seeding.Outstanding (symbols : List String) (s : Seeding β) (P : Finset String) :
    Prop where
  pending : s.book.pending = some P
  expected : ∀ x ∈ P, x ∈ symbols
  landed : ∀ x ∈ symbols, x ∉ P → x ∈ s.snapshots
  checked : ∀ x ∈ s.checked, x ∉ P

/-- A snapshot frame with the entries `left` to publish: all have landed, and the
checks of the others ran. -/
structure Seeding.Remaining (s : Seeding β) (payload : Level3) (left : List Level3Data) : Prop where
  landed : ∀ data ∈ left, data.symbol ∈ s.snapshots
  checked : ∀ x ∈ payload.symbols, x ∈ s.checked ∨ x ∈ left.map Level3Data.symbol

namespace SeedCall

/-- What holds of a call on the way. -/
def Good (s : Seeding β) : SeedCall → Prop
  | .entry payload data rest => payload.type = "snapshot" → s.Remaining payload (data :: rest)
  | .swap payload data rest version pending =>
    payload.type = "snapshot" ∧ s.Remaining payload (data :: rest) ∧ version ≤ s.version ∧
      (version = s.version → s.book.pending = some pending)
  | .check payload data rest =>
    payload.type = "snapshot" ∧ s.Remaining payload (data :: rest) ∧
      ∀ P, s.book.pending = some P → data.symbol ∉ P
  | .returned payload none => payload.type = "snapshot" → ∀ x ∈ payload.symbols, x ∈ s.checked
  | .update _ | .returned _ (some _) | .marking _ => True

end SeedCall

/-- What remains to be published goes on remaining while the state grows. -/
theorem Seeding.Remaining.mono {s s' : Seeding β} (h : s.Grows s') {payload : Level3}
    {left : List Level3Data} (hleft : s.Remaining payload left) : s'.Remaining payload left :=
  ⟨fun data hdata => h.snapshots _ (hleft.landed data hdata),
    fun x hx => (hleft.checked x hx).imp_left (h.checked x)⟩

/-- A call in its loop is good if what it has left remains. -/
theorem good_publishing {s : Seeding β} {payload : Level3} {left : List Level3Data}
    (h : payload.type = "snapshot" → s.Remaining payload left) :
    (SeedCall.publishing payload left).Good s := by
  cases left with
  | nil =>
    intro htype x hx
    rcases (h htype).checked x hx with hchecked | hleft
    · exact hchecked
    · cases hleft
  | cons data rest => exact h

variable {sdk}

/-- A turn of a good call lets the state grow. -/
theorem SeedStep.grows {s s' : Seeding β} {t t' : SeedCall} (h : SeedStep sdk s t s' t')
    (hgood : t.Good s) : s.Grows s' := by
  have hsame : ∀ book : Book β, Book.SameFlags s.book book →
      s.Grows { s with book := book } := by
    intro book hflags
    refine ⟨fun _ hx => hx, fun _ hx => hx, le_rfl, fun _ => hflags.pending,
      fun P' hP' => ⟨P', hflags.pending.symm.trans hP', Finset.Subset.refl P'⟩, fun hready => ?_⟩
    exact ⟨hflags.ready.trans hready.1, hflags.seeded.trans hready.2⟩
  have hrefl : s.Grows s := hsame s.book ⟨rfl, rfl, rfl⟩
  cases h with
  | refused herr => exact hsame _ (Book.apply_flags sdk _ _ s.book).1
  | @accepted payload herr =>
    have hframe := hsame _ (Book.apply_flags sdk payload.type payload.data s.book).1
    refine ⟨fun x hx => ?_, hframe.checked, hframe.version, hframe.same, hframe.pending,
      hframe.ready⟩
    unfold Seeding.accept
    dsimp only
    split
    · exact List.mem_append_left _ hx
    · exact hx
  | delta htype => exact hrefl
  | unexpected htype hpending => exact hrefl
  | loaded htype hpending => exact hrefl
  | @won payload data rest pending =>
    -- the set that was copied is the set that is replaced
    refine ⟨fun _ hx => hx, fun _ hx => hx, Nat.le_succ _, fun h => ?_, fun P' hP' => ?_,
      fun hready => hready⟩
    · exact absurd h (Nat.succ_ne_self _).symm
    · cases hP'
      exact ⟨pending, hgood.2.2.2 rfl, Finset.erase_subset _ _⟩
  | lost hversion => exact hrefl
  | checked =>
    have hpending := (Book.checkReady_flags s.book).1
    refine ⟨fun _ hx => hx, fun _ hx => List.mem_append_left _ hx, le_rfl, fun _ => hpending,
      fun P' hP' => ⟨P', hpending.symm.trans hP', Finset.Subset.refl P'⟩, fun hready => ?_⟩
    show s.book.checkReady.ready = true ∧ s.book.checkReady.seeded = true
    unfold Book.checkReady
    split
    · exact ⟨rfl, rfl⟩
    · exact hready
  | returned => exact hrefl
  | marked => exact hrefl
  | mark => exact hsame _ ⟨rfl, rfl, rfl⟩

/-- Calls stay good while others run. -/
theorem SeedCall.Good.mono {s s' : Seeding β} (h : s.Grows s') {t : SeedCall}
    (hgood : t.Good s) : t.Good s' := by
  cases t with
  | update payload => trivial
  | entry payload data rest => exact fun htype => (hgood htype).mono h
  | swap payload data rest version pending =>
    obtain ⟨htype, hleft, hle, hsame⟩ := hgood
    refine ⟨htype, hleft.mono h, hle.trans h.version, fun hversion => ?_⟩
    -- no swap in between, or the versions would differ
    have hv : version = s.version := le_antisymm hle (hversion.symm ▸ h.version)
    exact (h.same (hv ▸ hversion)).trans (hsame hv)
  | check payload data rest =>
    obtain ⟨htype, hleft, hgone⟩ := hgood
    refine ⟨htype, hleft.mono h, fun P' hP' hmem => ?_⟩
    obtain ⟨P, hP, hsub⟩ := h.pending P' hP'
    exact hgone P hP (hsub hmem)
  | returned payload err =>
    cases err with
    | some err => trivial
    | none => exact fun htype x hx => h.checked x (hgood htype x hx)
  | marking symbols => trivial

/-- The call that moves keeps what holds of it. -/
theorem SeedStep.good {s s' : Seeding β} {t t' : SeedCall} (h : SeedStep sdk s t s' t')
    (hgood : t.Good s) : t'.Good s' := by
  cases h with
  | refused herr => trivial
  | @accepted payload herr =>
    refine good_publishing fun htype => ?_
    have hsymbols := Book.apply_accepted sdk htype payload.data s.book herr
    constructor
    · intro data hdata
      unfold Seeding.accept
      dsimp only
      rw [if_pos htype]
      exact List.mem_append_right _ (List.mem_map_of_mem hdata)
    · intro x hx
      rw [hsymbols]
      exact .inr hx
  | delta htype => exact good_publishing fun h => absurd h htype
  | unexpected htype hpending =>
    refine ⟨htype, hgood htype, fun P hP => ?_⟩
    rw [hpending] at hP
    -- the swap has put the set without this symbol
    cases hP
  | loaded htype hpending => exact ⟨htype, hgood htype, le_rfl, fun _ => hpending⟩
  | @won payload data rest pending =>
    obtain ⟨htype, hleft, -, -⟩ := hgood
    refine ⟨htype, ⟨hleft.landed, hleft.checked⟩, fun P hP => ?_⟩
    cases hP
    exact Finset.notMem_erase data.symbol pending
  | lost hversion => exact fun _ => hgood.2.1
  | @checked payload data rest =>
    obtain ⟨htype, hleft, -⟩ := hgood
    refine good_publishing fun _ => ⟨fun data' hdata' => ?_, fun x hx => ?_⟩
    · exact hleft.landed data' (List.mem_cons_of_mem data hdata')
    · rcases hleft.checked x hx with hchecked | hmem
      · exact .inl (List.mem_append_left _ hchecked)
      · rw [List.map_cons, List.mem_cons] at hmem
        rcases hmem with rfl | hrest
        · exact .inl (List.mem_append_right _ (List.mem_singleton_self _))
        · exact .inr hrest
  | returned => exact hgood
  | marked => trivial
  | mark => trivial

/-- So does the pending set. -/
theorem SeedStep.outstanding {symbols : List String} {s s' : Seeding β} {t t' : SeedCall}
    (h : SeedStep sdk s t s' t') (hgood : t.Good s) {P : Finset String}
    (hP : s.Outstanding symbols P) : ∃ P', s'.Outstanding symbols P' := by
  have hgrows := h.grows hgood
  -- a step that leaves the pending set leaves what is outstanding
  have hkeep : s'.book.pending = s.book.pending → s'.checked = s.checked →
      ∃ P', s'.Outstanding symbols P' := by
    intro hpending hchecked
    refine ⟨P, hpending.trans hP.pending, hP.expected, fun x hx hgone => ?_, ?_⟩
    · exact hgrows.snapshots x (hP.landed x hx hgone)
    · rw [hchecked]
      exact hP.checked
  cases h with
  | refused herr => exact hkeep (Book.apply_flags sdk _ _ s.book).1.pending rfl
  | accepted herr => exact hkeep (Book.apply_flags sdk _ _ s.book).1.pending rfl
  | delta htype => exact ⟨P, hP⟩
  | unexpected htype hpending => exact ⟨P, hP⟩
  | loaded htype hpending => exact ⟨P, hP⟩
  | @won payload data rest pending =>
    obtain ⟨-, hleft, -, hsame⟩ := hgood
    have hpending : P = pending := by
      rw [hP.pending] at hsame
      exact Option.some.inj (hsame rfl)
    subst hpending
    refine ⟨P.erase data.symbol, rfl, fun x hx => hP.expected x (Finset.mem_of_mem_erase hx),
      fun x hx hgone => ?_, fun x hx hmem => hP.checked x hx (Finset.mem_of_mem_erase hmem)⟩
    -- the symbol of this snapshot goes out, and its snapshot has landed
    by_cases hxd : x = data.symbol
    · rw [hxd]
      exact hleft.landed data List.mem_cons_self
    · exact hP.landed x hx fun hmem => hgone (Finset.mem_erase.2 ⟨hxd, hmem⟩)
  | lost hversion => exact ⟨P, hP⟩
  | @checked payload data rest =>
    obtain ⟨-, -, hgone⟩ := hgood
    refine ⟨P, (Book.checkReady_flags s.book).1.trans hP.pending, hP.expected, hP.landed,
      fun x hx => ?_⟩
    rcases List.mem_append.1 hx with hold | hnew
    · exact hP.checked x hold
    · rw [List.mem_singleton.1 hnew]
      exact hgone P hP.pending
  | returned => exact ⟨P, hP⟩
  | marked => exact ⟨P, hP⟩
  | mark => exact hkeep rfl rfl

/-! ## What the calls come to -/

/-- A loop that is over has nothing left. -/
theorem publishing_eq_returned {payload payload' : Level3} {left : List Level3Data}
    {err : Option BookError}
    (h : SeedCall.publishing payload left = .returned payload' err) :
    left = [] ∧ payload = payload' := by
  cases left with
  | nil =>
    cases h
    exact ⟨rfl, rfl⟩
  | cons data rest => cases h

theorem checksLeft_publishing {payload : Level3} (htype : payload.type = "snapshot")
    {left : List Level3Data} (hleft : left ≠ []) :
    (SeedCall.publishing payload left).checksLeft = true := by
  cases left with
  | nil => exact absurd rfl hleft
  | cons data rest => exact decide_eq_true htype

/-- The check makes the system READY if those of all expected symbols ran. -/
theorem check_ready {symbols : List String} {s : Seeding β} {payload : Level3} {data : Level3Data}
    {rest : List Level3Data} (hgood : (SeedCall.check payload data rest).Good s)
    {P : Finset String} (hP : s.Outstanding symbols P) (hstale : s.book.stale = ∅)
    (hall : ∀ x ∈ symbols, x ∈ s.checked ++ [data.symbol]) :
    s.book.checkReady.ready = true ∧ s.book.checkReady.seeded = true := by
  refine Book.checkReady_ready ?_ hstale
  rw [hP.pending]
  congr 1
  by_contra hne
  obtain ⟨x, hx⟩ := Finset.nonempty_iff_ne_empty.2 hne
  rcases List.mem_append.1 (hall x (hP.expected x hx)) with hold | hnew
  · exact hP.checked x hold hx
  · rw [List.mem_singleton.1 hnew] at hx
    exact hgood.2.2 P hP.pending hx

/-- Only a check that finds nothing pending and nothing stale makes the system
READY. -/
theorem SeedStep.ready {symbols : List String} {s s' : Seeding β} {t t' : SeedCall}
    (h : SeedStep sdk s t s' t') {P : Finset String} (hP : s.Outstanding symbols P)
    (hbusy : s.book.ready = false) (hready : s'.book.ready = true) :
    (∀ x ∈ symbols, x ∈ s.snapshots) ∧ s.book.stale = ∅ := by
  -- only the check after an entry can set the flag
  have hsame : s'.book.ready = s.book.ready → False := by
    intro heq
    rw [heq, hbusy] at hready
    cases hready
  cases h with
  | refused herr => exact (hsame (Book.apply_flags sdk _ _ s.book).1.ready).elim
  | accepted herr => exact (hsame (Book.apply_flags sdk _ _ s.book).1.ready).elim
  | checked =>
    have hcheck : s.book.checkReady.ready = true := hready
    unfold Book.checkReady at hcheck
    split at hcheck
    · rename_i hclear
      obtain ⟨hpending, hstale⟩ := hclear
      rw [hP.pending] at hpending
      have hempty : P = ∅ := of_decide_eq_true hpending
      refine ⟨fun x hx => hP.landed x hx ?_, hstale⟩
      rw [hempty]
      exact Finset.notMem_empty x
    · rw [hbusy] at hcheck
      cases hcheck
  | delta htype => exact (hsame rfl).elim
  | unexpected htype hpending => exact (hsame rfl).elim
  | loaded htype hpending => exact (hsame rfl).elim
  | won => exact (hsame rfl).elim
  | lost hversion => exact (hsame rfl).elim
  | returned => exact (hsame rfl).elim
  | marked => exact (hsame rfl).elim
  | mark => exact (hsame rfl).elim

/-- The turn at which a snapshot `Update` returns is a readiness check. -/
theorem SeedStep.last_check {s s' : Seeding β} {t t' : SeedCall} (h : SeedStep sdk s t s' t')
    {payload : Level3} (htype : payload.type = "snapshot") (hne : payload.symbols ≠ [])
    (hflight : t ≠ .returned payload none) (hreturned : t' = .returned payload none) :
    ∃ data, t = .check payload data [] ∧
      s' = { s with book := s.book.checkReady, checked := s.checked ++ [data.symbol] } := by
  cases h with
  | refused herr => cases hreturned
  | accepted herr =>
    obtain ⟨hnil, rfl⟩ := publishing_eq_returned hreturned
    have hsymbols := Book.apply_accepted sdk htype _ s.book herr
    rw [hnil] at hsymbols
    exact absurd hsymbols.symm hne
  | delta hdelta =>
    obtain ⟨-, rfl⟩ := publishing_eq_returned hreturned
    exact absurd htype hdelta
  | checked =>
    obtain ⟨rfl, rfl⟩ := publishing_eq_returned hreturned
    exact ⟨_, rfl, rfl⟩
  | unexpected _ _ => cases hreturned
  | loaded _ _ => cases hreturned
  | won => cases hreturned
  | lost _ => cases hreturned
  | returned => exact absurd hreturned hflight
  | marked => cases hreturned
  | mark => cases hreturned

/-- Where the frame is accepted in full, a turn leaves behind a check to come, a READY
system, an expected symbol without its check, or what was there before. -/
theorem SeedStep.watched {symbols : List String} {s s' : Seeding β} {t t' : SeedCall}
    (h : SeedStep sdk s t s' t') (hgood : t.Good s) {P : Finset String}
    (hP : s.Outstanding symbols P)
    (hfull : ∀ payload, t = .update payload →
      (s.book.apply sdk payload.type payload.data).err = none)
    (hstale : s'.book.stale = ∅) :
    t'.checksLeft = true ∨ (s'.book.ready = true ∧ s'.book.seeded = true) ∨
      (∃ x ∈ symbols, x ∉ s'.checked) ∨
      s.book.stale = ∅ ∧ t.checksLeft = false ∧ s'.checked = s.checked := by
  cases h with
  | @refused payload err herr =>
    rw [hfull payload rfl] at herr
    cases herr
  | @accepted payload herr =>
    by_cases htype : payload.type = "snapshot"
    -- a snapshot without entries takes no mark off
    · by_cases hdata : payload.data = []
      · rw [hdata] at hstale ⊢
        exact .inr (.inr (.inr ⟨hstale, rfl, rfl⟩))
      · refine .inl (checksLeft_publishing htype fun hnil => hdata ?_)
        have hsymbols := Book.apply_accepted sdk htype payload.data s.book herr
        rw [hnil] at hsymbols
        exact List.map_eq_nil_iff.1 hsymbols.symm
    · have hsame := (Book.apply_flags sdk payload.type payload.data s.book).2 htype
      exact .inr (.inr (.inr ⟨hsame.symm.trans hstale, rfl, rfl⟩))
  | delta htype => exact .inr (.inr (.inr ⟨hstale, decide_eq_false htype, rfl⟩))
  | unexpected htype hpending => exact .inl rfl
  | loaded htype hpending => exact .inl rfl
  | won => exact .inl rfl
  | lost hversion => exact .inl (decide_eq_true hgood.1)
  | @checked payload data rest =>
    by_cases hall : ∀ x ∈ symbols, x ∈ s.checked ++ [data.symbol]
    · have hclear : s.book.stale = ∅ := (Book.checkReady_flags s.book).2.symm.trans hstale
      exact .inr (.inl (check_ready hgood hP hclear hall))
    · push Not at hall
      exact .inr (.inr (.inl hall))
  | returned => exact .inr (.inr (.inr ⟨hstale, rfl, rfl⟩))
  | marked => exact .inr (.inr (.inr ⟨hstale, rfl, rfl⟩))
  | @mark symbol rest =>
    have hmem : symbol ∈ s.book.stale ∪ [symbol].toFinset := by simp
    have hempty : s.book.stale ∪ [symbol].toFinset = ∅ := hstale
    rw [hempty] at hmem
    exact absurd hmem (Finset.notMem_empty symbol)

/-! ## All calls at once -/

/-- What a caller asks for. -/
inductive SeedRequest
  | update (payload : Level3)
  | stale (symbols : List String)

def SeedRequest.start : SeedRequest → SeedCall
  | .update payload => .update payload
  | .stale symbols => .marking symbols

/-- The calls before their first turn, right after `Expect`. -/
def seedStart (symbols : List String) (book : Book β) (requests : ℕ → SeedRequest) :
    Threads (Seeding β) SeedCall :=
  ⟨book.seeding symbols, fun i => (requests i).start⟩

/-- The call is an `Update` of a snapshot frame with this symbol, and it has returned
without an error. -/
def SeedCall.hasReturned (symbol : String) : SeedCall → Bool
  | .returned payload none => payload.type = "snapshot" ∧ symbol ∈ payload.symbols
  | _ => false

/-- A call has returned for a symbol if it returned from a snapshot of it without an error.
-/
theorem SeedCall.hasReturned_iff {symbol : String} {t : SeedCall} :
    t.hasReturned symbol = true ↔
      ∃ payload, t = .returned payload none ∧ payload.type = "snapshot" ∧
        symbol ∈ payload.symbols := by
  constructor
  · intro h
    cases t with
    | returned payload err =>
      cases err with
      | none => exact ⟨payload, rfl, of_decide_eq_true h⟩
      | some err => cases h
    | update _ | entry _ _ _ | swap _ _ _ _ _ | check _ _ _ | marking _ => cases h
  · rintro ⟨payload, rfl, hreturned⟩
    exact decide_eq_true hreturned

/-- Each expected symbol was in a snapshot frame whose `Update` has returned. -/
def AllReturned (symbols : List String) (s : Threads (Seeding β) SeedCall) : Prop :=
  ∀ symbol ∈ symbols, ∃ i, (s.calls i).hasReturned symbol = true

variable (sdk) in
/-- The frame is accepted in full. -/
def FullFrame (s : Threads (Seeding β) SeedCall) (e : ℕ × Unit) : Prop :=
  ∀ payload, s.calls e.1 = .update payload →
    (s.shared.book.apply sdk payload.type payload.data).err = none

/-- The pending set, and each call. -/
abbrev SeedInv (symbols : List String) : Threads (Seeding β) SeedCall → Prop :=
  Threads.Inv (fun s => ∃ P, s.Outstanding symbols P) (fun _ s t => t.Good s) fun _ _ => True

variable (sdk)

/-- A turn of any call keeps the invariant. -/
theorem seedInv_turn {symbols : List String} {s : Threads (Seeding β) SeedCall}
    (hs : SeedInv symbols s) (e : ℕ × Unit) : SeedInv symbols (turns (seedTurn sdk) s e) := by
  have hpres : Threads.Preserves (seedTurn sdk) (fun _ _ _ => True)
      (fun s => ∃ P, s.Outstanding symbols P) (fun _ s t => t.Good s) fun _ _ => True := by
    constructor
    · rintro _ u s t - ⟨P, hP⟩ hgood
      exact (seedTurn_step sdk u s t).outstanding hgood hP
    · intro _ u s t _ _ hgood
      exact (seedTurn_step sdk u s t).good hgood
    · intro _ _ u s t t' _ _ _ hgood hgood' _ _
      exact hgood'.mono ((seedTurn_step sdk u s t).grows hgood)
    · intros
      exact ⟨trivial, trivial⟩
  exact inv_turns hpres hs e trivial

/-- It holds before the first turn. -/
theorem seedInv_start (symbols : List String) (book : Book β) (requests : ℕ → SeedRequest) :
    SeedInv symbols (seedStart symbols book requests) := by
  refine ⟨⟨symbols.toFinset, rfl, fun x hx => List.mem_toFinset.1 hx, ?_, ?_⟩, ?_, ?_⟩
  · exact fun x hx hgone => absurd (List.mem_toFinset.2 hx) hgone
  · exact fun x hx => absurd hx List.not_mem_nil
  · intro i
    show (requests i).start.Good _
    cases requests i <;> trivial
  · exact fun _ _ _ => trivial

/-- Once all have returned, all were checked. -/
theorem AllReturned.checked {symbols : List String} {s : Threads (Seeding β) SeedCall}
    (h : AllReturned symbols s) (hs : SeedInv symbols s) :
    ∀ x ∈ symbols, x ∈ s.shared.checked := by
  intro x hx
  obtain ⟨i, hi⟩ := h x hx
  obtain ⟨payload, hcall, htype, hmem⟩ := SeedCall.hasReturned_iff.1 hi
  have hgood := hs.call i
  rw [hcall] at hgood
  exact hgood htype x hmem

/-- The return of the last expected snapshot, with nothing stale, leaves the system
READY. -/
theorem last_return {symbols : List String} {s : Threads (Seeding β) SeedCall} (e : ℕ × Unit)
    (hs : SeedInv symbols s) (hbefore : ¬ AllReturned symbols s)
    (hafter : AllReturned symbols (turns (seedTurn sdk) s e))
    (hstale : (turns (seedTurn sdk) s e).shared.book.stale = ∅) :
    (turns (seedTurn sdk) s e).shared.book.ready = true ∧
      (turns (seedTurn sdk) s e).shared.book.seeded = true := by
  obtain ⟨i, u⟩ := e
  have hall := hafter.checked (seedInv_turn sdk hs (i, u))
  unfold AllReturned at hbefore
  push Not at hbefore
  obtain ⟨x, hx, hmissing⟩ := hbefore
  obtain ⟨j, hj⟩ := hafter x hx
  -- another call has not moved, so it had returned before
  have hji : j = i := by
    by_contra hne
    rw [turns_other s hne] at hj
    exact hmissing j hj
  subst hji
  obtain ⟨payload, hcall, htype, hmem⟩ := SeedCall.hasReturned_iff.1 hj
  rw [turns_self] at hcall
  have hflight : s.calls j ≠ .returned payload none :=
    fun h => hmissing j (SeedCall.hasReturned_iff.2 ⟨payload, h, htype, hmem⟩)
  obtain ⟨data, hcheck, hshared⟩ := (seedTurn_step sdk u s.shared (s.calls j)).last_check htype
    (List.ne_nil_of_mem hmem) hflight hcall
  have hgood := hs.call j
  rw [hcheck] at hgood
  obtain ⟨P, hP⟩ := hs.shared
  change (seedTurn sdk u s.shared (s.calls j)).1.book.stale = ∅ at hstale
  change ∀ x ∈ symbols, x ∈ (seedTurn sdk u s.shared (s.calls j)).1.checked at hall
  rw [hshared] at hstale hall
  have hclear : s.shared.book.stale = ∅ :=
    (Book.checkReady_flags s.shared.book).2.symm.trans hstale
  show (seedTurn sdk u s.shared (s.calls j)).1.book.ready = true ∧
    (seedTurn sdk u s.shared (s.calls j)).1.book.seeded = true
  rw [hshared]
  exact check_ready hgood hP hclear hall

/-- A READY system stays READY. -/
theorem ready_runFrom {symbols : List String} {s : Threads (Seeding β) SeedCall}
    (hs : SeedInv symbols s)
    (hready : s.shared.book.ready = true ∧ s.shared.book.seeded = true) (es : List (ℕ × Unit)) :
    (runFrom (turns (seedTurn sdk)) s es).shared.book.ready = true ∧
      (runFrom (turns (seedTurn sdk)) s es).shared.book.seeded = true := by
  have hstep : ∀ (s : Threads (Seeding β) SeedCall) (e : ℕ × Unit),
      (SeedInv symbols s ∧ s.shared.book.ready = true ∧ s.shared.book.seeded = true) →
      SeedInv symbols (turns (seedTurn sdk) s e) ∧
        (turns (seedTurn sdk) s e).shared.book.ready = true ∧
        (turns (seedTurn sdk) s e).shared.book.seeded = true := by
    rintro s ⟨i, u⟩ ⟨hs, hready⟩
    have hgrows := (seedTurn_step sdk u s.shared (s.calls i)).grows (hs.call i)
    exact ⟨seedInv_turn sdk hs (i, u), hgrows.ready hready⟩
  exact (always_runFrom hstep ⟨hs, hready⟩ es).2

/-- While nothing is stale, a check is to come, the system is READY, or an expected
symbol has no check yet. -/
def Watched (symbols : List String) (s : Threads (Seeding β) SeedCall) : Prop :=
  s.shared.book.stale = ∅ → (∃ i, (s.calls i).checksLeft = true) ∨
    (s.shared.book.ready = true ∧ s.shared.book.seeded = true) ∨
    ∃ x ∈ symbols, x ∉ s.shared.checked

/-- A turn keeps every symbol watched, if frames are full. -/
theorem watched_turn {symbols : List String} {s : Threads (Seeding β) SeedCall} (e : ℕ × Unit)
    (hs : SeedInv symbols s) (hw : Watched symbols s) (hfull : FullFrame sdk s e) :
    Watched symbols (turns (seedTurn sdk) s e) := by
  obtain ⟨i, u⟩ := e
  intro hstale
  obtain ⟨P, hP⟩ := hs.shared
  have hstep := seedTurn_step sdk u s.shared (s.calls i)
  -- the turn leaves a check to come, or the flag set, or a symbol without a check
  rcases hstep.watched (hs.call i) hP hfull hstale with hleft | hready | hunchecked |
    ⟨hclear, hidle, hchecked⟩
  · refine .inl ⟨i, ?_⟩
    rw [turns_self]
    exact hleft
  · exact .inr (.inl hready)
  · exact .inr (.inr hunchecked)
  · rcases hw hclear with ⟨j, hj⟩ | hready | ⟨x, hx, hmissing⟩
    -- what was to come from another call still is
    · have hji : j ≠ i := by
        rintro rfl
        rw [hidle] at hj
        cases hj
      refine .inl ⟨j, ?_⟩
      rw [turns_other s hji]
      exact hj
    · exact .inr (.inl ((hstep.grows (hs.call i)).ready hready))
    · refine .inr (.inr ⟨x, hx, ?_⟩)
      show x ∉ (seedTurn sdk u s.shared (s.calls i)).1.checked
      rw [hchecked]
      exact hmissing

/-- Where the calls are after a run that starts at `Expect`. -/
def seedRun (symbols : List String) (book : Book β) (requests : ℕ → SeedRequest)
    (es : List (ℕ × Unit)) : Threads (Seeding β) SeedCall :=
  runFrom (turns (seedTurn sdk)) (seedStart symbols book requests) es

theorem seedRun_append (symbols : List String) (book : Book β) (requests : ℕ → SeedRequest)
    (es fs : List (ℕ × Unit)) : seedRun sdk symbols book requests (es ++ fs) =
      runFrom (turns (seedTurn sdk)) (seedRun sdk symbols book requests es) fs :=
  runFrom_append _ _ es fs

theorem seedInv_run (symbols : List String) (book : Book β) (requests : ℕ → SeedRequest)
    (es : List (ℕ × Unit)) : SeedInv symbols (seedRun sdk symbols book requests es) := by
  have hstep : ∀ (s : Threads (Seeding β) SeedCall) (e : ℕ × Unit), SeedInv symbols s →
      SeedInv symbols (turns (seedTurn sdk) s e) := fun _ e hs => seedInv_turn sdk hs e
  exact always_runFrom hstep (seedInv_start symbols book requests) es

/-- Seeding is neither early nor lost. A turn makes the system READY only if every
expected symbol had its snapshot and nothing is stale. If nothing is stale when the
last expected snapshot's `Update` returns, the system is READY and signalled from
then on; and if marks came and went while frames were accepted in full, it is so
once no check is left to come. -/
theorem seeding_exact (symbols : List String) (book : Book β) (requests : ℕ → SeedRequest)
    (es : List (ℕ × Unit)) :
    (∀ e, (seedRun sdk symbols book requests es).shared.book.ready = false →
      (seedRun sdk symbols book requests (es ++ [e])).shared.book.ready = true →
      (∀ x ∈ symbols, x ∈ (seedRun sdk symbols book requests es).shared.snapshots) ∧
        (seedRun sdk symbols book requests es).shared.book.stale = ∅) ∧
    (∀ e fs, ¬ AllReturned symbols (seedRun sdk symbols book requests es) →
      AllReturned symbols (seedRun sdk symbols book requests (es ++ [e])) →
      (seedRun sdk symbols book requests (es ++ [e])).shared.book.stale = ∅ →
      (seedRun sdk symbols book requests (es ++ e :: fs)).shared.book.ready = true ∧
        (seedRun sdk symbols book requests (es ++ e :: fs)).shared.book.seeded = true) ∧
    (symbols ≠ [] →
      Along (turns (seedTurn sdk)) (FullFrame sdk) (seedStart symbols book requests) es →
      AllReturned symbols (seedRun sdk symbols book requests es) →
      (seedRun sdk symbols book requests es).shared.book.stale = ∅ →
      (∀ i, ((seedRun sdk symbols book requests es).calls i).checksLeft = false) →
      (seedRun sdk symbols book requests es).shared.book.ready = true ∧
        (seedRun sdk symbols book requests es).shared.book.seeded = true) := by
  have hrun := seedInv_run sdk symbols book requests es
  refine ⟨fun e hbusy hready => ?_, fun e fs hbefore hafter hstale => ?_,
    fun hne hfull hall hstale hidle => ?_⟩
  · rw [seedRun_append] at hready
    obtain ⟨P, hP⟩ := hrun.shared
    exact (seedTurn_step sdk e.2 _ _).ready hP hbusy hready
  · rw [seedRun_append] at hafter hstale ⊢
    have hready := last_return sdk e hrun hbefore hafter hstale
    exact ready_runFrom sdk (seedInv_turn sdk hrun e) hready fs
  · -- a check is to come, or all is ready, or a symbol has had none
    have hstep : ∀ (s : Threads (Seeding β) SeedCall) (e : ℕ × Unit),
        (SeedInv symbols s ∧ Watched symbols s) → FullFrame sdk s e →
        SeedInv symbols (turns (seedTurn sdk) s e) ∧
          Watched symbols (turns (seedTurn sdk) s e) :=
      fun s e hs hfull => ⟨seedInv_turn sdk hs.1 e, watched_turn sdk e hs.1 hs.2 hfull⟩
    have hstart : Watched symbols (seedStart symbols book requests) := by
      intro _
      obtain ⟨x, hx⟩ := List.exists_mem_of_ne_nil symbols hne
      exact .inr (.inr ⟨x, hx, List.not_mem_nil⟩)
    have hw : Watched symbols (seedRun sdk symbols book requests es) :=
      (inv_runFrom hstep ⟨seedInv_start symbols book requests, hstart⟩ hfull).2
    rcases hw hstale with ⟨i, hi⟩ | hready | ⟨x, hx, hmissing⟩
    · rw [hidle i] at hi
      cases hi
    · exact hready
    · exact absurd (hall.checked hrun x hx) hmissing

/-- Two readers bring the same snapshot, and the second loses the swap to the first. -/
theorem seeding_exact_sample :
    (seedRun sampleSdk ["A/B"] (Book.new false) (fun _ => .update ⟨"snapshot", [sampleEntry 1]⟩)
      [(0, ()), (1, ()), (0, ()), (1, ()), (0, ()), (1, ()), (0, ())]).shared.book.ready =
        true := by
  have hexact := seeding_exact sampleSdk ["A/B"] (Book.new false)
    (fun _ => .update ⟨"snapshot", [sampleEntry 1]⟩)
    [(0, ()), (1, ()), (0, ()), (1, ()), (0, ()), (1, ())]
  refine (hexact.2.1 (0, ()) [] (fun hall => ?_) (fun x hx => ⟨0, ?_⟩) ?_).1
  · obtain ⟨i, hi⟩ := hall "A/B" (List.mem_singleton_self _)
    match i with
    | 0 => exact absurd hi (by decide +kernel)
    | 1 => exact absurd hi (by decide +kernel)
    | i + 2 =>
      unfold seedRun at hi
      rw [calls_runFrom_of_not_mem _ (by simp)] at hi
      cases hi
  · rw [List.mem_singleton.1 hx]
    decide +kernel
  · decide +kernel

end Symm.Broker
