import Symm.Tokenizer.Boundary

/-!
# What the segmenter keeps

The segmenter holds a stream of symbol ids, the place of its last cut, a
histogram of what came in since, and the names behind the ids. Each symbol
changes all of them a little, and a cut counts the open segment again.

- `Interned`: the vocabulary numbers the symbols seen, from 1 on;
- `Exact`: the histogram counts the open segment, and all else fits the stream;
- `analyze_cases`: what one symbol does;
- `Fed`: a segmenter that was fed some symbols, with saves and restores on the
  way;
- `segmenter_exact`: such a segmenter is exact, and cuts two symbols or more.

Ids are `uint32` and go around; below 2^32 symbols no two share one (`Few`), and that is
the one bound that the results have.
-/

namespace Symm.Tokenizer

open SymbolHistogram

universe u

namespace MDL

variable {K : Type u} [Field K] [LinearOrder K] (log : K → K)

/-! ## The vocabulary -/

/-- The vocabulary gives the symbols seen the ids from 1 on, each its own. -/
structure Interned (mdl : MDL K) (seen : Finset String) : Prop where
  known : ∀ symbol, (mdl.vocab.lookup symbol).isSome ↔ symbol ∈ seen
  nextID : mdl.nextID.toNat = seen.card + 1
  injective : ∀ a b id, mdl.vocab.lookup a = some id → mdl.vocab.lookup b = some id → a = b
  onto : ∀ id : UInt32, (∃ a, mdl.vocab.lookup a = some id) ↔
    1 ≤ id.toNat ∧ id.toNat < mdl.nextID.toNat

variable {mdl : MDL K} {seen : Finset String} {symbol : String}

omit [LinearOrder K] in
/-- A new segmenter has interned nothing. -/
theorem interned_new : Interned (new : MDL K) ∅ where
  known := fun _ => by simp [new]
  nextID := rfl
  injective := by
    intro a b id h
    simp [new] at h
  onto := by
    intro id
    have hone : (new : MDL K).nextID.toNat = 1 := rfl
    rw [hone]
    refine iff_of_false ?_ (by omega)
    rintro ⟨a, h⟩
    simp [new] at h

omit [Field K] [LinearOrder K] in
/-- A new symbol takes the next id. -/
theorem Interned.intern (h : Interned mdl seen) (symbol : String)
    (hfew : (insert symbol seen).card + 1 < 2 ^ 32) :
    Interned (mdl.intern symbol).1 (insert symbol seen) ∧
      (mdl.intern symbol).1.vocab.lookup symbol = some (mdl.intern symbol).2 ∧
      mdl.nextID.toNat ≤ (mdl.intern symbol).1.nextID.toNat := by
  unfold MDL.intern
  cases hlookup : mdl.vocab.lookup symbol with
  | some id =>
    have hmem : symbol ∈ seen := (h.known symbol).mp (by rw [hlookup]; rfl)
    rw [Finset.insert_eq_of_mem hmem]
    exact ⟨h, hlookup, le_rfl⟩
  | none =>
    have hnew : symbol ∉ seen := fun hmem => by
      rw [← h.known, hlookup] at hmem
      cases hmem
    rw [Finset.card_insert_of_notMem hnew] at hfew
    have hid := h.nextID
    have hnext : (mdl.nextID + 1).toNat = mdl.nextID.toNat + 1 := by
      rw [UInt32.toNat_add, Nat.mod_eq_of_lt]
      · rfl
      · show mdl.nextID.toNat + 1 < 2 ^ 32
        omega
    -- the next id has no symbol yet
    have hfree : ∀ a, mdl.vocab.lookup a ≠ some mdl.nextID := fun a ha => by
      have := ((h.onto mdl.nextID).mp ⟨a, ha⟩).2
      omega
    have hread : ∀ a id, (mdl.vocab.insert symbol mdl.nextID).lookup a = some id ↔
        a = symbol ∧ mdl.nextID = id ∨ mdl.vocab.lookup a = some id := by
      intro a id
      by_cases ha : a = symbol
      · rw [ha, AList.lookup_insert, hlookup, Option.some.injEq]
        simp
      · rw [AList.lookup_insert_ne ha]
        simp [ha]
    refine ⟨⟨fun a => ?_, ?_, fun a b id ha hb => ?_, fun id => ?_⟩, AList.lookup_insert _, ?_⟩
    · show ((mdl.vocab.insert symbol mdl.nextID).lookup a).isSome ↔ _
      by_cases ha : a = symbol
      · rw [ha, AList.lookup_insert]
        exact iff_of_true rfl (Finset.mem_insert_self symbol seen)
      · rw [AList.lookup_insert_ne ha, h.known, Finset.mem_insert, or_iff_right ha]
    · rw [Finset.card_insert_of_notMem hnew]
      exact hnext.trans (congrArg (· + 1) hid)
    · rcases (hread a id).mp ha with ⟨has, hida⟩ | hold
      · rcases (hread b id).mp hb with ⟨hbs, -⟩ | hold
        · exact has.trans hbs.symm
        · exact absurd (hida ▸ hold) (hfree b)
      · rcases (hread b id).mp hb with ⟨-, hidb⟩ | hold'
        · exact absurd (hidb ▸ hold) (hfree a)
        · exact h.injective a b id hold hold'
    · show (∃ a, (mdl.vocab.insert symbol mdl.nextID).lookup a = some id) ↔
        1 ≤ id.toNat ∧ id.toNat < (mdl.nextID + 1).toNat
      rw [hnext]
      constructor
      · rintro ⟨a, ha⟩
        rcases (hread a id).mp ha with ⟨-, rfl⟩ | ha
        · omega
        · have := (h.onto id).mp ⟨a, ha⟩
          omega
      · rintro ⟨hpos, hlt⟩
        by_cases hlast : id.toNat = mdl.nextID.toNat
        · exact ⟨symbol, (hread symbol id).mpr (.inl ⟨rfl, UInt32.toNat_inj.mp hlast.symm⟩)⟩
        · obtain ⟨a, ha⟩ := (h.onto id).mpr ⟨hpos, by omega⟩
          exact ⟨a, (hread a id).mpr (.inr ha)⟩
    · show mdl.nextID.toNat ≤ (mdl.nextID + 1).toNat
      omega

/-! ## One symbol -/

/-- The stream, the last cut and the histogram fit together, and every id in the
stream has a name. -/
structure Exact (mdl : MDL K) : Prop where
  offset : mdl.offset ≤ mdl.stream.length
  dist : mdl.dist.Tallies mdl.segment
  injective : ∀ a b id, mdl.vocab.lookup a = some id → mdl.vocab.lookup b = some id → a = b
  onto : ∀ id : UInt32, (∃ a, mdl.vocab.lookup a = some id) ↔
    1 ≤ id.toNat ∧ id.toNat < mdl.nextID.toNat
  stream : ∀ id ∈ mdl.stream, 1 ≤ id.toNat ∧ id.toNat < mdl.nextID.toNat

omit [Field K] [LinearOrder K] in
/-- Reading a symbol tallies it with the others, as long as ids do not wrap. -/
theorem Exact.read (h : Exact mdl) (hi : Interned mdl seen)
    (hfew : (insert symbol seen).card + 1 < 2 ^ 32) :
    Exact (mdl.read symbol) ∧ Interned (mdl.read symbol) (insert symbol seen) ∧
      (mdl.read symbol).offset = mdl.offset := by
  obtain ⟨hi', hlookup, hle⟩ := hi.intern symbol hfew
  have hsame : (mdl.intern symbol).1.stream = mdl.stream ∧
      (mdl.intern symbol).1.offset = mdl.offset ∧ (mdl.intern symbol).1.dist = mdl.dist := by
    unfold MDL.intern
    split <;> exact ⟨rfl, rfl, rfl⟩
  obtain ⟨hstream, hoffset, hdist⟩ := hsame
  refine ⟨⟨?_, ?_, hi'.injective, hi'.onto, fun id hid => ?_⟩,
    ⟨hi'.known, hi'.nextID, hi'.injective, hi'.onto⟩, hoffset⟩
  · show (mdl.intern symbol).1.offset ≤ ((mdl.intern symbol).1.stream ++ [_]).length
    rw [hoffset, hstream, List.length_append]
    exact h.offset.trans (Nat.le_add_right _ _)
  · show ((mdl.intern symbol).1.dist.add _).Tallies
      (((mdl.intern symbol).1.stream ++ [_]).drop (mdl.intern symbol).1.offset)
    rw [hdist, hstream, hoffset, List.drop_append_of_le_length h.offset]
    exact (h.dist.add _).perm (List.perm_append_singleton _ _).symm
  · rcases List.mem_append.mp hid with hid | hid
    · rw [hstream] at hid
      have := h.stream id hid
      exact ⟨this.1, this.2.trans_le hle⟩
    · rw [List.mem_singleton.mp hid]
      exact (hi'.onto _).mp ⟨symbol, hlookup⟩

/-- A symbol is read, and then either nothing more happens or the open segment is
cut at a split `detectBoundary` found. -/
theorem analyze_cases (mdl : MDL K) (hne : symbol ≠ "") :
    mdl.analyze log symbol = (mdl.read symbol, false, 0) ∨
    ∃ k g, (mdl.read symbol).detectBoundary log (mdl.read symbol).segment
        (mdl.read symbol).dist = (true, k, g) ∧
      mdl.analyze log symbol = ({ mdl.read symbol with
        offset := (mdl.read symbol).offset + k
        dist := ((mdl.read symbol).stream.drop ((mdl.read symbol).offset + k)).foldl
          SymbolHistogram.add .new
        lastGain := g }, true, g) := by
  unfold analyze
  rw [if_neg hne]
  dsimp only
  split
  · exact .inl rfl
  · split
    · exact .inl rfl
    · next hcut =>
      rw [not_or, not_not] at hcut
      exact .inr ⟨_, _, Prod.ext hcut.1 rfl, rfl⟩

/-- Where `detectBoundary` finds a split, two symbols or more are on each side. -/
theorem split_of_detect {dist : SymbolHistogram} {stream : List UInt32}
    (hdist : dist.Tallies stream) {k : ℕ} {g : K}
    (h : mdl.detectBoundary log stream dist = (true, k, g)) : 2 ≤ k ∧ k + 2 ≤ stream.length := by
  rcases detectBoundary_cases log mdl hdist with ⟨k', hbest, -, heq⟩ | ⟨-, heq⟩
  · rw [h, Prod.mk.injEq, Prod.mk.injEq] at heq
    obtain ⟨hlow, hhigh⟩ := hbest.allowed
    have hm := le_max_right mdl.minSegmentSymbols 2
    omega
  · rw [h, Prod.mk.injEq] at heq
    cases heq.1

/-- Analyzing one keeps the histogram exact, through a cut too. -/
theorem Exact.analyze (h : Exact mdl) (hi : Interned mdl seen) (hne : symbol ≠ "")
    (hfew : (insert symbol seen).card + 1 < 2 ^ 32) :
    Exact (mdl.analyze log symbol).1 ∧
      Interned (mdl.analyze log symbol).1 (insert symbol seen) := by
  obtain ⟨hread, hinterned, -⟩ := h.read hi hfew
  rcases analyze_cases log mdl hne with heq | ⟨k, g, hdetect, heq⟩
  · rw [heq]
    exact ⟨hread, hinterned⟩
  · rw [heq]
    have hsplit := split_of_detect log hread.dist hdetect
    rw [segment, List.length_drop] at hsplit
    refine ⟨⟨?_, tallies_foldl _, hread.injective, hread.onto, hread.stream⟩,
      ⟨hinterned.known, hinterned.nextID, hinterned.injective, hinterned.onto⟩⟩
    show (mdl.read symbol).offset + k ≤ (mdl.read symbol).stream.length
    omega

/-- A cut leaves two symbols or more on each side, and without a cut the place of
the last one stays. -/
theorem Exact.cut (h : Exact mdl) (hi : Interned mdl seen) (hne : symbol ≠ "")
    (hfew : (insert symbol seen).card + 1 < 2 ^ 32) :
    ((mdl.analyze log symbol).2.1 = true →
      mdl.offset + 2 ≤ (mdl.analyze log symbol).1.offset ∧
      (mdl.analyze log symbol).1.offset + 2 ≤ (mdl.analyze log symbol).1.stream.length) ∧
    ((mdl.analyze log symbol).2.1 = false → (mdl.analyze log symbol).1.offset = mdl.offset) := by
  obtain ⟨hread, -, hoffset⟩ := h.read hi hfew
  rcases analyze_cases log mdl hne with heq | ⟨k, g, hdetect, heq⟩
  · rw [heq]
    exact ⟨fun hcut => absurd hcut Bool.false_ne_true, fun _ => hoffset⟩
  · rw [heq]
    have hsplit := split_of_detect log hread.dist hdetect
    rw [segment, List.length_drop] at hsplit
    refine ⟨fun _ => ?_, fun hcut => absurd hcut Bool.true_eq_false.mp⟩
    dsimp only
    omega

/-- The offset never goes back. -/
theorem offset_le_analyze (mdl : MDL K) (symbol : String) :
    mdl.offset ≤ (mdl.analyze log symbol).1.offset := by
  have hoffset : (mdl.read symbol).offset = mdl.offset := by
    unfold read MDL.intern
    split <;> rfl
  by_cases hne : symbol = ""
  · rw [MDL.analyze, if_pos hne]
  · rcases analyze_cases log mdl hne with heq | ⟨k, g, -, heq⟩
    · rw [heq]
      exact hoffset.ge
    · rw [heq]
      exact hoffset.ge.trans (Nat.le_add_right _ k)

/-! ## Runs -/

/-- A segmenter that was fed `symbols` since it was new. On the way its state may
have been saved and restored into another one. -/
inductive Fed : List String → MDL K → Prop
  | new : Fed [] new
  | analyze {symbols : List String} {mdl : MDL K} (symbol : String) : Fed symbols mdl →
      Fed (symbols ++ [symbol]) (mdl.analyze log symbol).1
  | restore {symbols others : List String} {saved mdl : MDL K} : Fed symbols saved →
      Fed others mdl → Fed symbols (mdl.restore saved.state)

/-- The different symbols among those fed; the empty string is none. -/
def fedSymbols (symbols : List String) : Finset String := (symbols.filter (· ≠ "")).toFinset

/-- Few enough for the ids not to wrap. -/
def Few (symbols : List String) : Prop := (fedSymbols symbols).card < 2 ^ 32 - 1

instance : DecidablePred Few := fun symbols =>
  inferInstanceAs (Decidable ((fedSymbols symbols).card < 2 ^ 32 - 1))

theorem fedSymbols_concat (symbols : List String) {symbol : String} (hne : symbol ≠ "") :
    fedSymbols (symbols ++ [symbol]) = insert symbol (fedSymbols symbols) := by
  rw [fedSymbols, List.filter_append, List.filter_cons_of_pos (by simpa using hne),
    List.filter_nil, List.toFinset_append, Finset.union_comm]
  rfl

theorem fedSymbols_concat_empty (symbols : List String) :
    fedSymbols (symbols ++ [""]) = fedSymbols symbols := by
  rw [fedSymbols, List.filter_append, List.filter_cons_of_neg (by simp), List.filter_nil,
    List.append_nil, fedSymbols]

/-- A longer history has no fewer symbols. -/
theorem Few.of_append {symbols more : List String} (h : Few (symbols ++ more)) : Few symbols := by
  refine lt_of_le_of_lt (Finset.card_le_card ?_) h
  rw [fedSymbols, fedSymbols, List.filter_append, List.toFinset_append]
  exact Finset.subset_union_left

/-- The segmenter that is fed the symbols without a save. -/
def feed (mdl : MDL K) (symbols : List String) : MDL K :=
  symbols.foldl (fun mdl symbol => (mdl.analyze log symbol).1) mdl

theorem offset_le_feed (mdl : MDL K) (symbols : List String) :
    mdl.offset ≤ (mdl.feed log symbols).offset := by
  induction symbols generalizing mdl with
  | nil => exact le_rfl
  | cons symbol symbols ih => exact (offset_le_analyze log mdl symbol).trans (ih _)

namespace Fed

variable {symbols : List String}

/-- No run changes the least length of a segment. -/
theorem minSegmentSymbols (h : Fed log symbols mdl) : mdl.minSegmentSymbols = 2 := by
  induction h with
  | new => rfl
  | analyze symbol _ ih => rw [minSegmentSymbols_analyze, ih]
  | restore _ _ _ ih => exact ih

/-- Saves and restores leave no trace, and the segmenter is exact. -/
theorem exact (h : Fed log symbols mdl) (hfew : Few symbols) :
    Exact mdl ∧ Interned mdl (fedSymbols symbols) ∧ mdl = (MDL.new : MDL K).feed log symbols := by
  induction h with
  | new =>
    exact ⟨⟨le_rfl, tallies_new, interned_new.injective, interned_new.onto,
      fun id hid => absurd hid List.not_mem_nil⟩, interned_new, rfl⟩
  | @analyze symbols mdl symbol _ ih =>
    obtain ⟨hexact, hinterned, heq⟩ := ih hfew.of_append
    have hfeed : (mdl.analyze log symbol).1 =
        (MDL.new : MDL K).feed log (symbols ++ [symbol]) := by
      rw [MDL.feed, List.foldl_append, heq]
      rfl
    -- an empty symbol is ignored
    by_cases hne : symbol = ""
    · rw [hne, fedSymbols_concat_empty]
      rw [hne] at hfeed
      rw [MDL.analyze, if_pos rfl] at hfeed ⊢
      exact ⟨hexact, hinterned, hfeed⟩
    · have hcard : (insert symbol (fedSymbols symbols)).card + 1 < 2 ^ 32 := by
        have := hfew
        rw [Few, fedSymbols_concat symbols hne] at this
        omega
      rw [fedSymbols_concat symbols hne]
      obtain ⟨hexact', hinterned'⟩ := hexact.analyze log hinterned hne hcard
      exact ⟨hexact', hinterned', hfeed⟩
  | @restore symbols others saved mdl hsaved hmdl ih _ =>
    obtain ⟨hexact, hinterned, heq⟩ := ih hfew
    -- a state with the id zero is not restored, and no segmenter is ever in one
    have hid : saved.nextID ≠ 0 := by
      intro hzero
      have := hinterned.nextID
      rw [hzero] at this
      exact absurd this (Nat.succ_ne_zero _).symm
    have hseg := (hmdl.minSegmentSymbols log).trans (hsaved.minSegmentSymbols log).symm
    rw [restore_state hseg hid]
    exact ⟨hexact, hinterned, heq⟩

end Fed

/-- While the scan runs, the two histograms together count what the full one
counts. -/
theorem scan_balanced {dist : SymbolHistogram} {stream : List UInt32}
    (hdist : dist.Tallies stream) (m j : ℕ) :
    let acc := (stream.take j).zipIdx.foldl (scan log dist stream.length m) (Scan.start dist)
    (∀ id, acc.left.count id + acc.right.count id = dist.count id) ∧
      acc.left.total + acc.right.total = dist.total := by
  have hparts := List.take_append_drop j stream
  have hprefix := scan_prefix log (stream.take j) (stream.drop j) m (by rwa [hparts])
  rw [hparts] at hprefix
  obtain ⟨hleft, hright, -⟩ := hprefix
  refine ⟨fun id => ?_, ?_⟩
  · rw [hleft.count, hright.count, hdist.count]
    conv_rhs => rw [← hparts, List.count_append]
    rfl
  · rw [hleft.total, hright.total, hdist.total]
    conv_rhs => rw [← hparts, List.length_append]
    rfl

/-- A segmenter that was fed fewer symbols than there are ids is exact, its cuts
only move on, and whatever symbol comes next, a cut leaves two symbols or more on
each side, and the scan for it never loses count. -/
theorem segmenter_exact {symbols : List String} (h : Fed log symbols mdl) (hfew : Few symbols) :
    Exact mdl ∧
    (∀ more later, Fed log (symbols ++ more) later → Few (symbols ++ more) →
      mdl.offset ≤ later.offset) ∧
    ∀ symbol, symbol ≠ "" → Few (symbols ++ [symbol]) →
      ((mdl.analyze log symbol).2.1 = true →
        mdl.offset + 2 ≤ (mdl.analyze log symbol).1.offset ∧
        (mdl.analyze log symbol).1.offset + 2 ≤ (mdl.analyze log symbol).1.stream.length) ∧
      ((mdl.analyze log symbol).2.1 = false →
        (mdl.analyze log symbol).1.offset = mdl.offset) ∧
      ∀ m j, let seg := (mdl.read symbol).segment
        let acc := (seg.take j).zipIdx.foldl (scan log (mdl.read symbol).dist seg.length m)
          (Scan.start (mdl.read symbol).dist)
        (∀ id, acc.left.count id + acc.right.count id = (mdl.read symbol).dist.count id) ∧
          acc.left.total + acc.right.total = (mdl.read symbol).dist.total := by
  obtain ⟨hexact, hinterned, heq⟩ := h.exact log hfew
  refine ⟨hexact, fun more later hlater hmore => ?_, fun symbol hne hnext => ?_⟩
  · obtain ⟨-, -, hfeed⟩ := hlater.exact log hmore
    rw [hfeed, heq, feed, feed, List.foldl_append]
    exact offset_le_feed log _ more
  · have hcard : (insert symbol (fedSymbols symbols)).card + 1 < 2 ^ 32 := by
      rw [Few, fedSymbols_concat symbols hne] at hnext
      omega
    obtain ⟨hcut, hstay⟩ := hexact.cut log hinterned hne hcard
    obtain ⟨hread, -, -⟩ := hexact.read hinterned hcard
    exact ⟨hcut, hstay, fun m j => scan_balanced log hread.dist m j⟩

/-- Two symbols, a restart, and two more. -/
theorem segmenter_exact_sample :
    Exact ((((new : MDL ℝ).restore
      (((new : MDL ℝ).analyze Real.log "R00").1.analyze Real.log "R01").1.state).analyze
        Real.log "R00").1.analyze Real.log "R01").1 := by
  have hsaved : Fed Real.log ["R00", "R01"]
      (((new : MDL ℝ).analyze Real.log "R00").1.analyze Real.log "R01").1 :=
    .analyze "R01" (.analyze "R00" .new)
  have hfed : Fed Real.log ["R00", "R01", "R00", "R01"] _ :=
    .analyze "R01" (.analyze "R00" (.restore hsaved .new))
  exact (segmenter_exact Real.log hfed (by decide)).1

end MDL

end Symm.Tokenizer
