import Mathlib.Algebra.Ring.Nat
import Symm.Ui.ClosedListing

/-!
# Frames of closed lots (`ui/hub_prefix.go`, `ui/hub.go`)

The closed lots of a tier are sent in frames that the pump does not drop. The list is
cut where the next entry would take a frame over its budget, and an entry that is
over the budget by itself is skipped.

- `marshalEntry`, `marshalFrame`: the JSON of an entry and of a frame, over that of a
  row, which is sonic's;
- `chunkClosedEntries`: the cuts;
- `Cut.Sound`: the invariant of its loop;
- `closed_chunks`: what is skipped, and how long a frame is.

The loop counts eight bytes for what joins two entries, where a comma takes one, and
nothing for the braces and names around a chunk. Those take at most fifty bytes
(`length_scope`), less what was counted too much, so a frame of a chunk that is within
the budget is never more than 43 bytes over it (`length_frame_le`). The budget leaves a
tenth of the maximum free, which is more than that from 1024 bytes on.

An entry that is over the budget by itself is skipped by the code, and `closed_chunks`
says which those are: the chunks hold exactly the others, in order.
-/

namespace Symm.Ui

open Symm.Lib

/-- What `sonic.Marshal` makes of the map of a row. -/
abbrev MarshalRow := List (String × Json) → Option (List UInt8)

def bytes (text : String) : List UInt8 := text.toUTF8.data.toList

section Marshal

variable (marshal : MarshalRow)

/-- `sonic.Marshal` of a `closedEntry`. -/
def marshalEntry (entry : ClosedEntry) : Option (List UInt8) :=
  (marshal entry.row).map fun row =>
    bytes "\x7b\"epoch\":" ++ bytes (toString entry.epoch) ++
      bytes ",\"tick\":" ++ bytes (toString entry.tick) ++
      bytes ",\"timestamp\":" ++ bytes (toString entry.timestamp) ++
      bytes ",\"row\":" ++ row ++ bytes "\x7d"

/-- `sonic.Marshal` of the envelope of a `closedListing`. -/
def marshalFrame (scope : String) (entries : List ClosedEntry) : Option (List UInt8) :=
  (entries.mapM (marshalEntry marshal)).map fun parts =>
    bytes "\x7b\"closed\":\x7b\"scope\":\"" ++ bytes scope ++ bytes "\",\"entries\":[" ++
      (bytes ",").intercalate parts ++ bytes "]\x7d\x7d"

end Marshal

/-- `closedListingScope`. -/
def closedListingScope (pre : String) : String :=
  if "virtual/closed".toList <+: pre.toList then "virtual/closed"
  else if "real/closed".toList <+: pre.toList then "real/closed"
  else if "paper/closed".toList <+: pre.toList then "paper/closed"
  else "paper/closed"

/-- `listFrameBudget`, where `configured` is `MaxMessageBytes` if there is a
configuration. -/
def listFrameBudget (configured : Option Int64) : Int64 :=
  let maxBytes := match configured with
    | some configured => if 0 < configured then configured else 4194304
    | none => 4194304
  maxBytes * 9 / 10

/-- The pump drops a frame that is too long. -/
def dropsFrame (maxBytes : Int64) (frame : List UInt8) : Prop :=
  0 < maxBytes ∧ maxBytes.toInt < frame.length

/-- The entries from one index to before another. -/
def slice (entries : List ClosedEntry) (start stop : ℕ) : List ClosedEntry :=
  (entries.take stop).drop start

/-- The variables of the loop of `chunkClosedEntries`. -/
structure Cut where
  chunks : List (List ClosedEntry)
  start : ℕ
  used : ℕ

section Chunks

variable (marshal : MarshalRow) (entries : List ClosedEntry) (budget : ℤ)

def entryCost (entry : ClosedEntry) : ℕ :=
  match marshalEntry marshal entry with
  | none => 64
  | some raw => raw.length + 8

/-- `flush`. -/
def Cut.flush (stop : ℕ) (cut : Cut) : Cut :=
  if stop ≤ cut.start then cut
  else ⟨cut.chunks ++ [slice entries cut.start stop], stop, 64⟩

/-- The body of the loop. -/
def Cut.add (cut : Cut) (next : ClosedEntry × ℕ) : Cut :=
  let cost := entryCost marshal next.1
  let cut := if cut.start < next.2 ∧ budget < (cut.used + cost : ℕ) then cut.flush entries next.2
    else cut
  if budget < cost then { cut with start := next.2 + 1, used := 64 }
  else { cut with used := cut.used + cost }

def chunkClosedEntries : List (List ClosedEntry) :=
  if entries = [] ∨ budget ≤ 0 then []
  else ((entries.zipIdx.foldl (Cut.add marshal entries budget) ⟨[], 0, 64⟩).flush entries
    entries.length).chunks

end Chunks

/-! ## The cuts -/

section Loop

variable {marshal : MarshalRow} {entries : List ClosedEntry} {budget : ℤ}

/-- The bytes that the loop counts for a chunk. -/
def chunkCost (marshal : MarshalRow) (chunk : List ClosedEntry) : ℕ :=
  64 + (chunk.map (entryCost marshal)).sum

/-- The chunk is within the budget, or it is one entry that is. -/
def Within (marshal : MarshalRow) (budget : ℤ) (chunk : List ClosedEntry) : Prop :=
  (chunkCost marshal chunk : ℤ) ≤ budget ∨
    ∃ entry, chunk = [entry] ∧ (entryCost marshal entry : ℤ) ≤ budget

/-- The entries that are not skipped. -/
def fitting (marshal : MarshalRow) (budget : ℤ) (entries : List ClosedEntry) : List ClosedEntry :=
  entries.filter fun entry => decide ((entryCost marshal entry : ℤ) ≤ budget)

/-- What is cut off and what is pending since are the entries before this index that
are not skipped, and both are within the budget. -/
structure Cut.Sound (marshal : MarshalRow) (entries : List ClosedEntry) (budget : ℤ) (i : ℕ)
    (cut : Cut) : Prop where
  start : cut.start ≤ i
  kept : cut.chunks.flatten ++ slice entries cut.start i = fitting marshal budget (entries.take i)
  chunks : ∀ chunk ∈ cut.chunks, chunk ≠ [] ∧ Within marshal budget chunk
  used : cut.used = chunkCost marshal (slice entries cut.start i)
  pending : slice entries cut.start i = [] ∨ Within marshal budget (slice entries cut.start i)

theorem entryCost_pos (entry : ClosedEntry) : 0 < entryCost marshal entry := by
  unfold entryCost
  split <;> omega

theorem slice_self (i : ℕ) : slice entries i i = [] := by
  unfold slice
  rw [List.drop_eq_nil_iff, List.length_take]
  omega

theorem slice_ne_nil {start stop : ℕ} (h : start < stop) (hstop : stop ≤ entries.length) :
    slice entries start stop ≠ [] := by
  unfold slice
  rw [Ne, List.drop_eq_nil_iff, List.length_take]
  omega

/-- The entries up to the next one are those before it and the one. -/
theorem take_succ_of_getElem? {i : ℕ} {entry : ClosedEntry} (hentry : entries[i]? = some entry) :
    entries.take (i + 1) = entries.take i ++ [entry] := by
  rw [List.take_add_one, hentry]
  rfl

theorem slice_succ {start i : ℕ} {entry : ClosedEntry} (hentry : entries[i]? = some entry)
    (hstart : start ≤ i) : slice entries start (i + 1) = slice entries start i ++ [entry] := by
  have hi : i < entries.length := (List.getElem?_eq_some_iff.mp hentry).1
  unfold slice
  rw [take_succ_of_getElem? hentry, List.drop_append_of_le_length]
  rw [List.length_take]
  omega

/-- An entry adds its own cost to a chunk. -/
theorem chunkCost_append (chunk : List ClosedEntry) (entry : ClosedEntry) :
    chunkCost marshal (chunk ++ [entry]) = chunkCost marshal chunk + entryCost marshal entry := by
  unfold chunkCost
  rw [List.map_append, List.sum_append, List.map_singleton, List.sum_singleton]
  omega

theorem fitting_append (front : List ClosedEntry) (entry : ClosedEntry) :
    fitting marshal budget (front ++ [entry]) = fitting marshal budget front ++
      if (entryCost marshal entry : ℤ) ≤ budget then [entry] else [] := by
  unfold fitting
  rw [List.filter_append]
  refine congrArg _ ?_
  split
  · rename_i hfits
    exact List.filter_cons_of_pos (decide_eq_true hfits)
  · rename_i hover
    exact List.filter_cons_of_neg fun hfits => hover (of_decide_eq_true hfits)

/-- A cut moves what is pending to the chunks. -/
theorem Cut.Sound.flush {i : ℕ} {cut : Cut} (h : cut.Sound marshal entries budget i)
    (hi : i ≤ entries.length) :
    (cut.flush entries i).Sound marshal entries budget i ∧ (cut.flush entries i).start = i := by
  unfold Cut.flush
  split
  · rename_i hle
    exact ⟨h, Nat.le_antisymm h.start hle⟩
  · rename_i hlt
    have hne : slice entries cut.start i ≠ [] := slice_ne_nil (Nat.lt_of_not_le hlt) hi
    refine ⟨⟨Nat.le_refl i, ?_, ?_, ?_, .inl (slice_self i)⟩, rfl⟩
    · show (cut.chunks ++ [slice entries cut.start i]).flatten ++ slice entries i i = _
      rw [slice_self, List.append_nil, List.flatten_concat]
      exact h.kept
    · intro chunk hchunk
      rcases List.mem_append.mp hchunk with hold | hnew
      · exact h.chunks chunk hold
      · obtain rfl := List.mem_singleton.mp hnew
        exact ⟨hne, h.pending.resolve_left hne⟩
    · show 64 = chunkCost marshal (slice entries i i)
      rw [slice_self]
      rfl

/-- Before an entry is counted, nothing is pending or there is room for it. -/
theorem Cut.Sound.room {i : ℕ} {cut : Cut} (h : cut.Sound marshal entries budget i)
    (hi : i ≤ entries.length) (cost : ℕ) :
    ∃ cut' : Cut, (if cut.start < i ∧ budget < (cut.used + cost : ℕ) then cut.flush entries i
        else cut) = cut' ∧ cut'.Sound marshal entries budget i ∧
      (cut'.start = i ∨ ((cut'.used + cost : ℕ) : ℤ) ≤ budget) := by
  split
  · obtain ⟨hflushed, hstart⟩ := h.flush hi
    exact ⟨_, rfl, hflushed, .inl hstart⟩
  · refine ⟨cut, rfl, h, ?_⟩
    have := h.start
    omega

/-- The loop skips an entry that is over the budget, and holds one that is not. -/
theorem Cut.Sound.add {i : ℕ} {cut : Cut} (h : cut.Sound marshal entries budget i)
    {entry : ClosedEntry} (hentry : entries[i]? = some entry) :
    (cut.add marshal entries budget (entry, i)).Sound marshal entries budget (i + 1) := by
  have hi : i < entries.length := (List.getElem?_eq_some_iff.mp hentry).1
  -- the list is cut first if the entry does not fit behind the others
  obtain ⟨cut', hcut', h', hroom⟩ := h.room hi.le (entryCost marshal entry)
  have hkept : fitting marshal budget (entries.take (i + 1)) =
      cut'.chunks.flatten ++ slice entries cut'.start i ++
        if (entryCost marshal entry : ℤ) ≤ budget then [entry] else [] := by
    rw [take_succ_of_getElem? hentry, fitting_append, h'.kept]
  unfold Cut.add
  dsimp only
  rw [hcut']
  split
  -- too long by itself: it is skipped, and the next chunk starts behind it
  · rename_i hover
    have hstart : cut'.start = i := hroom.resolve_right (by omega)
    refine ⟨Nat.le_refl _, ?_, h'.chunks, ?_, .inl (slice_self _)⟩
    · rw [hkept, if_neg (by omega), hstart, slice_self, slice_self]
      rw [List.append_nil, List.append_nil]
    · show 64 = chunkCost marshal (slice entries (i + 1) (i + 1))
      rw [slice_self]
      rfl
  -- it goes into the open chunk
  · rename_i hfits
    have hslice := slice_succ hentry h'.start
    refine ⟨h'.start.trans (Nat.le_succ i), ?_, h'.chunks, ?_, .inr ?_⟩
    · rw [hkept, if_pos (by omega), hslice, List.append_assoc]
    · show cut'.used + entryCost marshal entry =
        chunkCost marshal (slice entries cut'.start (i + 1))
      rw [hslice, chunkCost_append, ← h'.used]
    · show Within marshal budget (slice entries cut'.start (i + 1))
      rw [hslice]
      rcases hroom with hstart | hroom
      · refine .inr ⟨entry, ?_, by omega⟩
        rw [hstart, slice_self]
        rfl
      · refine .inl ?_
        rw [chunkCost_append, ← h'.used]
        exact hroom

/-- The loop, from an index on. -/
theorem Cut.Sound.foldl {i : ℕ} {cut : Cut} (h : cut.Sound marshal entries budget i)
    {rest : List ClosedEntry} (hrest : entries.drop i = rest) (hi : i ≤ entries.length) :
    ((rest.zipIdx i).foldl (Cut.add marshal entries budget) cut).Sound marshal entries budget
      entries.length := by
  induction rest generalizing i cut with
  | nil =>
    have hend : i = entries.length := Nat.le_antisymm hi (List.drop_eq_nil_iff.mp hrest)
    rw [← hend]
    exact h
  | cons entry rest ih =>
    have hentry : entries[i]? = some entry := by
      rw [← List.head?_drop, hrest]
      rfl
    have hnext : entries.drop (i + 1) = rest := by
      rw [← List.tail_drop, hrest]
      rfl
    exact ih (h.add hentry) hnext (List.getElem?_eq_some_iff.mp hentry).1

/-- The chunks are the entries that are not skipped, and each is within the budget. -/
theorem chunkClosedEntries_spec (marshal : MarshalRow) (entries : List ClosedEntry) (budget : ℤ) :
    (chunkClosedEntries marshal entries budget).flatten = fitting marshal budget entries ∧
      ∀ chunk ∈ chunkClosedEntries marshal entries budget,
        chunk ≠ [] ∧ Within marshal budget chunk := by
  unfold chunkClosedEntries
  split
  · rename_i hnone
    refine ⟨?_, fun chunk hchunk => absurd hchunk List.not_mem_nil⟩
    symm
    unfold fitting
    rw [List.flatten_nil, List.filter_eq_nil_iff]
    intro entry hmem hfits
    rcases hnone with rfl | hbudget
    · exact List.not_mem_nil hmem
    · have hpos : 0 < entryCost marshal entry := entryCost_pos entry
      have := of_decide_eq_true hfits
      omega
  · have hstart : Cut.Sound marshal entries budget 0 ⟨[], 0, 64⟩ := by
      refine ⟨Nat.le_refl 0, rfl, fun chunk hchunk => absurd hchunk List.not_mem_nil, rfl, .inl rfl⟩
    obtain ⟨hsound, hend⟩ := (hstart.foldl rfl (Nat.zero_le _)).flush (Nat.le_refl _)
    refine ⟨?_, hsound.chunks⟩
    have hkept := hsound.kept
    rw [hend, slice_self, List.append_nil, List.take_length] at hkept
    exact hkept

end Loop

/-! ## The frames -/

section Frames

variable {marshal : MarshalRow}

/-- Joining parts costs one separator for each of them at most. -/
theorem length_intercalate_le (sep : List UInt8) (parts : List (List UInt8)) :
    (sep.intercalate parts).length ≤ (parts.map fun part => part.length + sep.length).sum := by
  induction parts with
  | nil => exact Nat.le_refl _
  | cons part rest ih =>
    cases rest with
    | nil =>
      rw [List.intercalate_singleton, List.map_singleton, List.sum_singleton]
      exact Nat.le_add_right _ _
    | cons next rest =>
      rw [List.intercalate_cons_cons, List.map_cons, List.sum_cons, List.length_append,
        List.length_append]
      exact Nat.add_le_add_left ih _

/-- What the loop counts for an entry is its bytes and eight more. -/
theorem sum_entryCost {chunk : List ClosedEntry} {parts : List (List UInt8)}
    (h : chunk.mapM (marshalEntry marshal) = some parts) :
    (parts.map fun part => part.length + 1).sum + 7 * chunk.length =
      (chunk.map (entryCost marshal)).sum := by
  induction chunk generalizing parts with
  | nil =>
    cases h
    rfl
  | cons entry chunk ih =>
    rw [List.mapM_cons] at h
    obtain ⟨part, hpart, h⟩ := Option.bind_eq_some_iff.mp h
    obtain ⟨rest, hrest, hparts⟩ := Option.bind_eq_some_iff.mp h
    cases hparts
    have hcost : entryCost marshal entry = part.length + 8 := by
      unfold entryCost
      rw [hpart]
    rw [List.map_cons, List.sum_cons, List.map_cons, List.sum_cons, hcost, ← ih hrest,
      List.length_cons]
    omega

/-- Around its entries a frame has at most fifty bytes. -/
theorem length_scope (pre : String) : (bytes (closedListingScope pre)).length ≤ 14 := by
  unfold closedListingScope
  split
  · decide
  split
  · decide
  split <;> decide

/-- The cost of an entry counts eight bytes for what joins it, where a comma takes one. -/
theorem length_frame {pre : String} {chunk : List ClosedEntry} {frame : List UInt8}
    (h : marshalFrame marshal (closedListingScope pre) chunk = some frame) :
    frame.length + 7 * chunk.length ≤ 50 + (chunk.map (entryCost marshal)).sum := by
  obtain ⟨parts, hparts, rfl⟩ := Option.map_eq_some_iff.mp h
  have hentries := length_intercalate_le (bytes ",") parts
  have hcosts := sum_entryCost hparts
  have hcomma : (bytes ",").length = 1 := by decide
  have hscope := length_scope pre
  have hopen : (bytes "\x7b\"closed\":\x7b\"scope\":\"").length = 20 := by decide
  have hmiddle : (bytes "\",\"entries\":[").length = 13 := by decide
  have hclose : (bytes "]\x7d\x7d").length = 3 := by decide
  rw [hcomma] at hentries
  simp only [List.length_append]
  omega

/-- A frame of a chunk within the budget is at most 43 bytes over it. -/
theorem length_frame_le {pre : String} {chunk : List ClosedEntry} {frame : List UInt8}
    {budget : ℤ} (hne : chunk ≠ []) (hwithin : Within marshal budget chunk)
    (h : marshalFrame marshal (closedListingScope pre) chunk = some frame) :
    (frame.length : ℤ) ≤ budget + 43 := by
  have hlength := length_frame h
  have hpos : 0 < chunk.length := List.length_pos_iff.mpr hne
  rcases hwithin with hcost | ⟨entry, rfl, hcost⟩
  · unfold chunkCost at hcost
    omega
  · rw [List.map_singleton, List.sum_singleton] at hlength
    omega

/-- The budget leaves a tenth, also where its product overflows. -/
theorem listFrameBudget_add_le {maxBytes : Int64} (h : 1024 ≤ maxBytes) :
    (listFrameBudget (some maxBytes)).toInt + 102 ≤ maxBytes.toInt := by
  have hmax : (1024 : ℤ) ≤ maxBytes.toInt := Int64.le_iff_toInt_le.mp h
  have hbudget : listFrameBudget (some maxBytes) = maxBytes * 9 / 10 := by
    have hpos : 0 < maxBytes := by
      rw [Int64.lt_iff_toInt_lt]
      exact lt_of_lt_of_le (by decide) hmax
    unfold listFrameBudget
    dsimp only
    rw [if_pos hpos]
  have hlt := maxBytes.toInt_lt
  have hnine : (9 : Int64).toInt = 9 := by decide
  have hten : (10 : Int64).toInt = 10 := by decide
  rw [hbudget, Int64.toInt_div, Int64.toInt_mul, hnine, hten]
  generalize maxBytes.toInt = m at hmax hlt ⊢
  -- the product is below `2 ^ 63`, and it is exact unless `m` is far over a tenth of that
  have hlow : -2 ^ 63 ≤ (m * 9).bmod (2 ^ 64) := Int.le_bmod (by decide)
  have hhigh : (m * 9).bmod (2 ^ 64) < 2 ^ 63 := Int.bmod_lt (by decide)
  have hexact : m * 9 < 2 ^ 63 → (m * 9).bmod (2 ^ 64) = m * 9 := fun hsmall =>
    Int.bmod_eq_of_le (by omega) (by omega)
  generalize (m * 9).bmod (2 ^ 64) = product at hlow hhigh hexact ⊢
  have hquotient : product / 10 ≤ product.tdiv 10 ∧ product.tdiv 10 ≤ product / 10 + 1 := by
    rw [Int.tdiv_eq_ediv]
    split
    · omega
    · have hsign : Int.sign 10 = 1 := rfl
      omega
  generalize product.tdiv 10 = quotient at hquotient ⊢
  rw [Int.bmod_eq_of_le (by omega) (by omega)]
  by_cases hsmall : m * 9 < 2 ^ 63
  · have := hexact hsmall
    omega
  · omega

/-- Where every row marshals the frame does. -/
theorem marshalFrame_ne_none {scope : String} {chunk : List ClosedEntry}
    (h : ∀ entry ∈ chunk, marshal entry.row ≠ none) : marshalFrame marshal scope chunk ≠ none := by
  have hparts : ∃ parts, chunk.mapM (marshalEntry marshal) = some parts := by
    induction chunk with
    | nil => exact ⟨[], rfl⟩
    | cons entry chunk ih =>
      obtain ⟨row, hrow⟩ := Option.ne_none_iff_exists'.mp (h entry List.mem_cons_self)
      obtain ⟨parts, hparts⟩ := ih fun entry hmem => h entry (List.mem_cons_of_mem _ hmem)
      have hentry : ∃ part, marshalEntry marshal entry = some part := by
        unfold marshalEntry
        rw [hrow]
        exact ⟨_, rfl⟩
      obtain ⟨part, hpart⟩ := hentry
      refine ⟨part :: parts, ?_⟩
      rw [List.mapM_cons, hpart, hparts]
      rfl
  obtain ⟨parts, hparts⟩ := hparts
  unfold marshalFrame
  rw [hparts]
  nofun

end Frames

/-- For every list of closed entries and every maximum from 1024 bytes on, the chunks
hold the entries that are not over the budget by themselves, in order; none is empty;
and the frame of a chunk marshals if its rows do, and the pump does not drop it. -/
theorem closed_chunks (marshal : MarshalRow) (entries : List ClosedEntry) (maxBytes : Int64)
    (pre : String) (h : 1024 ≤ maxBytes) :
    (chunkClosedEntries marshal entries (listFrameBudget (some maxBytes)).toInt).flatten =
      entries.filter (fun entry =>
        decide ((entryCost marshal entry : ℤ) ≤ (listFrameBudget (some maxBytes)).toInt)) ∧
    ∀ chunk ∈ chunkClosedEntries marshal entries (listFrameBudget (some maxBytes)).toInt,
      chunk ≠ [] ∧
      ((∀ entry ∈ chunk, marshal entry.row ≠ none) →
        marshalFrame marshal (closedListingScope pre) chunk ≠ none) ∧
      ∀ frame, marshalFrame marshal (closedListingScope pre) chunk = some frame →
        (frame.length : ℤ) ≤ maxBytes.toInt ∧ ¬ dropsFrame maxBytes frame := by
  obtain ⟨hflatten, hchunks⟩ := chunkClosedEntries_spec marshal entries
    (listFrameBudget (some maxBytes)).toInt
  refine ⟨hflatten, fun chunk hchunk => ?_⟩
  obtain ⟨hne, hwithin⟩ := hchunks chunk hchunk
  refine ⟨hne, marshalFrame_ne_none, fun frame hframe => ?_⟩
  have hlength := length_frame_le hne hwithin hframe
  have hroom := listFrameBudget_add_le h
  have hle : (frame.length : ℤ) ≤ maxBytes.toInt := by omega
  exact ⟨hle, fun hdrops => absurd hdrops.2 (not_lt.mpr hle)⟩

/-- The JSON of a row that has an id only. -/
def marshalId : MarshalRow
  | [("id", .str id)] => some (bytes ("\x7b\"id\":\"" ++ id ++ "\"\x7d"))
  | _ => none

def entryOf (id : String) : ClosedEntry := ⟨12, 3, 99, [("id", .str id)]⟩

/-- An entry over the limit is left out, and the others go out in their order. -/
theorem closed_chunks_skipped :
    (chunkClosedEntries marshalId [entryOf "a", entryOf (String.ofList (List.replicate 900 'x')),
        entryOf "b"] (listFrameBudget (some 1024)).toInt).flatten = [entryOf "a", entryOf "b"] ∧
      ∀ chunk ∈ chunkClosedEntries marshalId [entryOf "a",
        entryOf (String.ofList (List.replicate 900 'x')), entryOf "b"]
        (listFrameBudget (some 1024)).toInt, chunk ≠ [] := by
  obtain ⟨hflatten, hchunks⟩ := closed_chunks marshalId [entryOf "a",
    entryOf (String.ofList (List.replicate 900 'x')), entryOf "b"] 1024 "paper/closed" (by decide)
  rw [List.filter_cons_of_pos (by decide +kernel), List.filter_cons_of_neg (by decide +kernel),
    List.filter_cons_of_pos (by decide +kernel), List.filter_nil] at hflatten
  exact ⟨hflatten, fun chunk hchunk => (hchunks chunk hchunk).1⟩

end Symm.Ui
