import Mathlib.Algebra.BigOperators.Group.List.Basic
import Mathlib.Algebra.Order.Group.Int
import Mathlib.Algebra.Ring.Nat
import Mathlib.Data.Rat.Init
import Symm.Lib.Objects

/-!
# Frames of path thresholds (`ui/hub_prefix.go`)

The thresholds of a listing are sent in one frame or more. A frame is closed before
the key that would take it over the budget; a key that is over the budget by itself
has a frame of its own. Go reads the map in any order.

- `chunkThresholds`: the frames, for the order in which the map is read;
- `Chunking.Sound`: the invariant of its loop;
- `chunks_partition`: each key is in one frame, and the frames are within the budget.

The loop keeps the frames that are closed, the pending one, and the bytes that it has
counted for it. `Chunking.Sound` says that together they hold each entry read so far
once, that every closed frame fits or has one key, and that the count is the pending
frame's own. An entry is added to a frame that has room for it or is empty, which is why
a key over the budget is alone.

The order of the map is a parameter, so `mem_chunks` and `lookup_chunk` are what a
reader of the frames may rely on: the keys of the listing, each with its own threshold.
-/

namespace Symm.Ui

open Symm.Lib

/-- A key of a map, with its value. -/
abbrev Threshold := Sigma fun _ : String => ℚ

/-- The bytes that the loop counts for a key. -/
def thresholdCost (key : String) : ℕ := key.utf8ByteSize + 24

/-- The variables of the loop of `chunkThresholds`. -/
structure Chunking where
  chunks : List (Objects ℚ)
  current : Objects ℚ
  used : ℕ

/-- `flush`. -/
def Chunking.flush (chunking : Chunking) : Chunking :=
  if chunking.current.keys.length = 0 then chunking
  else ⟨chunking.chunks ++ [chunking.current], ∅, 64⟩

/-- The body of the loop. -/
def Chunking.add (budget : ℤ) (chunking : Chunking) (entry : Threshold) : Chunking :=
  let cost := thresholdCost entry.1
  let chunking :=
    if 0 < chunking.current.keys.length ∧ budget < (chunking.used + cost : ℕ) then chunking.flush
    else chunking
  { chunking with
    current := chunking.current.insert entry.1 entry.2
    used := chunking.used + cost }

/-- `chunkThresholds`, where the map is read in the order of `all`. -/
def chunkThresholds (all : List Threshold) (budget : ℤ) : List (Objects ℚ) :=
  if all.length = 0 ∨ budget ≤ 0 then []
  else (all.foldl (Chunking.add budget) ⟨[], ∅, 64⟩).flush.chunks

/-! ## The frames -/

section Loop

variable {budget : ℤ} {chunking : Chunking} {done : List Threshold}

/-- The bytes that the loop counts for a frame. -/
def frameCost (chunk : Objects ℚ) : ℕ := 64 + (chunk.keys.map thresholdCost).sum

/-- A frame is within the budget, or it has one key. -/
def Fits (budget : ℤ) (chunk : Objects ℚ) : Prop :=
  (frameCost chunk : ℤ) ≤ budget ∨ chunk.keys.length = 1

/-- The entries of the frames and of the pending one are those read so far. -/
structure Chunking.Sound (budget : ℤ) (done : List Threshold) (chunking : Chunking) : Prop where
  kept : (chunking.chunks.flatMap (·.entries) ++ chunking.current.entries).Perm done
  chunks : ∀ chunk ∈ chunking.chunks, chunk.keys.length ≠ 0 ∧ Fits budget chunk
  used : chunking.used = frameCost chunking.current
  pending : chunking.current.keys.length = 0 ∨ Fits budget chunking.current

/-- Closing a chunk keeps the frames within the budget. -/
theorem Chunking.Sound.flush (h : chunking.Sound budget done) :
    chunking.flush.Sound budget done := by
  unfold Chunking.flush
  split
  · exact h
  · rename_i hpending
    refine ⟨?_, fun chunk hchunk => ?_, rfl, .inl rfl⟩
    · have hkept : ((chunking.chunks ++ [chunking.current]).flatMap (·.entries) ++
          (∅ : Objects ℚ).entries) =
          chunking.chunks.flatMap (·.entries) ++ chunking.current.entries := by
        rw [List.flatMap_append, List.flatMap_singleton, AList.empty_entries, List.append_nil]
      rw [hkept]
      exact h.kept
    · rcases List.mem_append.mp hchunk with hchunk | hchunk
      · exact h.chunks chunk hchunk
      · rw [List.mem_singleton.mp hchunk]
        exact ⟨hpending, h.pending.resolve_left hpending⟩

/-- A key that was not read yet is added to the pending frame. -/
theorem Chunking.Sound.insert (h : chunking.Sound budget done) {entry : Threshold}
    (hnew : entry.1 ∉ done.map Sigma.fst)
    (hroom : chunking.current.keys.length = 0 ∨
      ((chunking.used + thresholdCost entry.1 : ℕ) : ℤ) ≤ budget) :
    Chunking.Sound budget (done ++ [entry])
      { chunking with
        current := chunking.current.insert entry.1 entry.2
        used := chunking.used + thresholdCost entry.1 } := by
  -- the pending frame holds only keys that were read
  have hmem : entry.1 ∉ chunking.current := by
    intro hmem
    obtain ⟨e, he, hkey⟩ := List.mem_map.mp (AList.mem_keys.mp hmem)
    refine hnew (hkey ▸ List.mem_map_of_mem ?_)
    exact h.kept.mem_iff.mp (List.mem_append_right _ he)
  have hentries : (chunking.current.insert entry.1 entry.2).entries =
      entry :: chunking.current.entries := AList.entries_insert_of_notMem hmem
  have hkeys : (chunking.current.insert entry.1 entry.2).keys =
      entry.1 :: chunking.current.keys := by
    show (chunking.current.insert entry.1 entry.2).entries.map Sigma.fst = _
    rw [hentries]
    rfl
  have hcost : frameCost (chunking.current.insert entry.1 entry.2) =
      chunking.used + thresholdCost entry.1 := by
    unfold frameCost
    rw [hkeys, List.map_cons, List.sum_cons, h.used]
    unfold frameCost
    omega
  refine ⟨?_, h.chunks, hcost.symm, .inr ?_⟩
  · show (chunking.chunks.flatMap (·.entries) ++
      (chunking.current.insert entry.1 entry.2).entries).Perm (done ++ [entry])
    rw [hentries]
    refine List.perm_middle.trans ?_
    exact ((h.kept.cons _).trans (List.perm_append_singleton _ _).symm)
  · rcases hroom with hempty | hroom
    · refine .inr ?_
      rw [hkeys, List.length_cons, hempty]
    · refine .inl ?_
      rw [hcost]
      exact hroom

/-- Adding a new key keeps them within it: the chunk is closed first if the key does not
fit. -/
theorem Chunking.Sound.add (h : chunking.Sound budget done) {entry : Threshold}
    (hnew : entry.1 ∉ done.map Sigma.fst) :
    (chunking.add budget entry).Sound budget (done ++ [entry]) := by
  unfold Chunking.add
  dsimp only
  split
  · rename_i hfull
    refine h.flush.insert hnew (.inl ?_)
    unfold Chunking.flush
    rw [if_neg hfull.1.ne']
    rfl
  · rename_i hroom
    refine h.insert hnew ?_
    omega

/-- The loop keeps the invariant over keys that are read once. -/
theorem Chunking.Sound.foldl :
    ∀ {all done : List Threshold} {chunking : Chunking}, chunking.Sound budget done →
      ((done ++ all).map Sigma.fst).Nodup →
      (all.foldl (Chunking.add budget) chunking).Sound budget (done ++ all)
  | [], done, _, h, _ => by
    rw [List.append_nil]
    exact h
  | entry :: rest, done, chunking, h, hnodup => by
    have hsplit : done ++ entry :: rest = done ++ [entry] ++ rest := by
      rw [List.append_assoc, List.singleton_append]
    have hnew : entry.1 ∉ done.map Sigma.fst := by
      rw [List.map_append, List.map_cons] at hnodup
      exact fun hmem => (List.nodup_append.mp hnodup).2.2 _ hmem _ List.mem_cons_self rfl
    rw [hsplit] at hnodup ⊢
    exact (h.add hnew).foldl hnodup

end Loop

/-- The frames hold each entry that was read once, none is empty, and each is within
the budget or has one key. -/
theorem chunks_partition {budget : ℤ} (hbudget : 0 < budget) {all : List Threshold}
    (hnodup : (all.map Sigma.fst).Nodup) :
    ((chunkThresholds all budget).flatMap (·.entries)).Perm all ∧
      ∀ chunk ∈ chunkThresholds all budget, chunk.keys.length ≠ 0 ∧ Fits budget chunk := by
  unfold chunkThresholds
  split
  · rename_i hnone
    have hempty : all = [] := List.length_eq_zero_iff.mp (hnone.resolve_right hbudget.not_ge)
    rw [hempty]
    exact ⟨.nil, nofun⟩
  · have hstart : Chunking.Sound budget [] ⟨[], ∅, 64⟩ := ⟨.nil, nofun, rfl, .inl rfl⟩
    have hloop : Chunking.Sound budget ([] ++ all)
        (all.foldl (Chunking.add budget) ⟨[], ∅, 64⟩) :=
      hstart.foldl (by rwa [List.nil_append])
    rw [List.nil_append] at hloop
    have hlast := hloop.flush
    have hflushed : (all.foldl (Chunking.add budget) ⟨[], ∅, 64⟩).flush.current.entries = [] := by
      unfold Chunking.flush
      split
      · rename_i hempty
        exact List.map_eq_nil_iff.mp (List.length_eq_zero_iff.mp hempty)
      · rfl
    refine ⟨?_, hlast.chunks⟩
    have hkept := hlast.kept
    rwa [hflushed, List.append_nil] at hkept

section Listing

variable {listing : Objects ℚ} {all : List Threshold} {budget : ℤ}

/-- Frames of a listing whose map was read in some order: each has the listing's
thresholds. -/
theorem lookup_chunk (hbudget : 0 < budget) (hall : all.Perm listing.entries)
    {chunk : Objects ℚ} (hchunk : chunk ∈ chunkThresholds all budget) {key : String}
    (hkey : key ∈ chunk) : chunk.lookup key = listing.lookup key := by
  have hnodup : (all.map Sigma.fst).Nodup := (hall.map _).nodup_iff.mpr listing.nodupKeys
  obtain ⟨hkept, -⟩ := chunks_partition hbudget hnodup
  obtain ⟨value, hvalue⟩ := Option.isSome_iff_exists.mp (AList.lookup_isSome.mpr hkey)
  rw [hvalue]
  refine (AList.mem_lookup_iff.mpr (hall.mem_iff.mp (hkept.mem_iff.mp ?_))).symm
  exact List.mem_flatMap.mpr ⟨chunk, hchunk, AList.mem_lookup_iff.mp hvalue⟩

/-- The keys of the frames are those of the listing. -/
theorem mem_chunks (hbudget : 0 < budget) (hall : all.Perm listing.entries) (key : String) :
    (∃ chunk ∈ chunkThresholds all budget, key ∈ chunk) ↔ key ∈ listing := by
  have hnodup : (all.map Sigma.fst).Nodup := (hall.map _).nodup_iff.mpr listing.nodupKeys
  obtain ⟨hkept, -⟩ := chunks_partition hbudget hnodup
  constructor
  · rintro ⟨chunk, hchunk, hkey⟩
    rw [← AList.lookup_isSome, ← lookup_chunk hbudget hall hchunk hkey, AList.lookup_isSome]
    exact hkey
  · intro hkey
    obtain ⟨entry, hentry, rfl⟩ := List.mem_map.mp (AList.mem_keys.mp hkey)
    obtain ⟨chunk, hchunk, hmem⟩ :=
      List.mem_flatMap.mp (hkept.mem_iff.mpr (hall.mem_iff.mpr hentry))
    exact ⟨chunk, hchunk, AList.mem_keys.mpr (List.mem_map_of_mem hmem)⟩

end Listing

end Symm.Ui
