import Mathlib.Algebra.BigOperators.Group.Finset.Basic
import Mathlib.Data.Int.Cast.Basic
import Symm.Tokenizer.MDL

/-!
# What a histogram counts

The segmenter adds a symbol to its histograms, or takes one away, and never
counts a stream twice. `Tallies hist l` says that nothing went wrong on the way:
the counts are those of `l`, no entry is zero or negative, and the two totals
agree with them.

- `Tallies.add`, `Tallies.remove`: a symbol comes in or goes out;
- `tallies_foldl`: counting a list from the beginning;
- `Tallies.cost`: the cost of a histogram is the entropy of what it counts.

Taking away a symbol that is not counted does nothing, and would part a histogram from
its list without a word; `Tallies.remove` is asked for a symbol of the list only, and
the scan takes away what it has just read. An entry that comes to zero is deleted, so
the entries are as many as there are distinct symbols.

The cost is a fold over the entries in the order of the map. It is a sum over the
distinct symbols, by `foldl_cost`, and so it is the entropy of the list, whatever the
order in which its symbols came and went.
-/

namespace Symm.Tokenizer

universe u

namespace SymbolHistogram

/-- The histogram counts the symbols of `l` and nothing else. -/
structure Tallies (hist : SymbolHistogram) (l : List UInt32) : Prop where
  count : ∀ id, hist.count id = l.count id
  present : ∀ id n, hist.counts.lookup id = some n → 0 < n
  total : hist.total = l.length
  distinct : hist.numDistinct = l.toFinset.card

variable {hist : SymbolHistogram} {l l' : List UInt32} {id : UInt32}

/-- An empty histogram tallies nothing. -/
theorem tallies_new : Tallies .new [] where
  count := fun _ => rfl
  present := by
    intro id n h
    cases h
  total := rfl
  distinct := rfl

theorem count_add (hist : SymbolHistogram) (id j : UInt32) :
    (hist.add id).count j = if j = id then hist.count id + 1 else hist.count j := by
  unfold count add
  by_cases hj : j = id
  · rw [if_pos hj, hj, AList.lookup_insert]
    rfl
  · rw [if_neg hj, AList.lookup_insert_ne hj]

theorem count_remove (hpos : 0 < hist.count id) (j : UInt32) :
    (hist.remove id).count j = if j = id then hist.count id - 1 else hist.count j := by
  unfold remove
  rw [if_neg (not_le.mpr hpos)]
  by_cases hlast : hist.count id - 1 = 0
  · rw [if_pos hlast, hlast]
    unfold count
    by_cases hj : j = id
    · rw [if_pos hj, hj, AList.lookup_erase]
      rfl
    · rw [if_neg hj, AList.lookup_erase_ne hj]
  · rw [if_neg hlast]
    unfold count
    by_cases hj : j = id
    · rw [if_pos hj, hj, AList.lookup_insert]
      rfl
    · rw [if_neg hj, AList.lookup_insert_ne hj]

namespace Tallies

/-- A tally does not depend on the order. -/
theorem perm (h : Tallies hist l) (hp : l.Perm l') : Tallies hist l' where
  count := fun id => (h.count id).trans (congrArg Int.ofNat (hp.count_eq id))
  present := h.present
  total := h.total.trans (congrArg Int.ofNat hp.length_eq)
  distinct := h.distinct.trans (by rw [List.toFinset_eq_of_perm l l' hp])

/-- What is in the list has been counted. -/
theorem pos (h : Tallies hist (id :: l)) : 0 < hist.count id := by
  rw [h.count, List.count_cons_self]
  omega

/-- A symbol of the list is found with its count, and no other symbol is. -/
theorem lookup (h : Tallies hist l) (id : UInt32) :
    hist.counts.lookup id = if id ∈ l then some (l.count id : ℤ) else none := by
  have hcount := h.count id
  unfold SymbolHistogram.count at hcount
  cases hl : hist.counts.lookup id with
  | none =>
    rw [hl, Option.getD_none] at hcount
    rw [if_neg]
    intro hmem
    have := List.count_pos_iff.mpr hmem
    omega
  | some n =>
    rw [hl, Option.getD_some] at hcount
    have := h.present id n hl
    rw [if_pos (List.count_pos_iff.mp (by omega)), hcount]

/-- A symbol comes in. -/
theorem add (h : Tallies hist l) (id : UInt32) : Tallies (hist.add id) (id :: l) where
  count := by
    intro j
    rw [count_add]
    by_cases hj : j = id
    · rw [if_pos hj, hj, h.count, List.count_cons_self]
      rfl
    · rw [if_neg hj, h.count, List.count_cons_of_ne (Ne.symm hj)]
  present := by
    intro j n hn
    unfold SymbolHistogram.add at hn
    by_cases hj : j = id
    · subst hj
      rw [AList.lookup_insert, Option.some.injEq, h.count] at hn
      omega
    · rw [AList.lookup_insert_ne hj] at hn
      exact h.present j n hn
  total := by
    show hist.total + 1 = _
    rw [h.total, List.length_cons]
    rfl
  distinct := by
    show (if hist.count id = 0 then hist.numDistinct + 1 else hist.numDistinct) = _
    rw [h.count, h.distinct, List.toFinset_cons]
    -- a symbol counts as a new one when its count was zero
    by_cases hmem : id ∈ l
    · have := List.count_pos_iff.mpr hmem
      rw [if_neg (by omega), Finset.insert_eq_of_mem (List.mem_toFinset.mpr hmem)]
    · rw [if_pos (by rw [List.count_eq_zero_of_not_mem hmem]; rfl),
        Finset.card_insert_of_notMem (by rwa [List.mem_toFinset])]
      rfl

/-- A symbol goes out. -/
theorem remove (h : Tallies hist (id :: l)) : Tallies (hist.remove id) l where
  count := by
    intro j
    rw [count_remove h.pos]
    by_cases hj : j = id
    · rw [if_pos hj, hj, h.count, List.count_cons_self]
      omega
    · rw [if_neg hj, h.count, List.count_cons_of_ne (Ne.symm hj)]
  present := by
    intro j n hn
    have hpos := h.pos
    unfold SymbolHistogram.remove at hn
    rw [if_neg (not_le.mpr hpos)] at hn
    by_cases hlast : hist.count id - 1 = 0
    · -- the last of a symbol takes its row with it
      rw [if_pos hlast] at hn
      by_cases hj : j = id
      · rw [hj, AList.lookup_erase] at hn
        cases hn
      · rw [AList.lookup_erase_ne hj] at hn
        exact h.present j n hn
    · rw [if_neg hlast] at hn
      by_cases hj : j = id
      · subst hj
        rw [AList.lookup_insert, Option.some.injEq] at hn
        omega
      · rw [AList.lookup_insert_ne hj] at hn
        exact h.present j n hn
  total := by
    have htotal := h.total
    rw [List.length_cons] at htotal
    unfold SymbolHistogram.remove
    rw [if_neg (not_le.mpr h.pos)]
    split
    · show hist.total - 1 = _
      omega
    · show hist.total - 1 = _
      omega
  distinct := by
    have hcount := h.count id
    have hdistinct := h.distinct
    rw [List.count_cons_self] at hcount
    rw [List.toFinset_cons] at hdistinct
    unfold SymbolHistogram.remove
    rw [if_neg (not_le.mpr h.pos)]
    by_cases hmem : id ∈ l
    · -- some are left, so the symbol still counts
      have := List.count_pos_iff.mpr hmem
      rw [if_neg (by omega)]
      rw [Finset.insert_eq_of_mem (List.mem_toFinset.mpr hmem)] at hdistinct
      exact hdistinct
    · rw [if_pos (by rw [hcount, List.count_eq_zero_of_not_mem hmem]; rfl)]
      rw [Finset.card_insert_of_notMem (by rwa [List.mem_toFinset])] at hdistinct
      show hist.numDistinct - 1 = _
      omega

/-- Adding symbols one by one tallies the longer list. -/
theorem foldl (h : Tallies hist l) (more : List UInt32) :
    Tallies (more.foldl SymbolHistogram.add hist) (l ++ more) := by
  induction more generalizing hist l with
  | nil => rwa [List.append_nil]
  | cons id more ih => exact (ih (h.add id)).perm List.perm_middle.symm

end Tallies

/-- Counting a list from the beginning. -/
theorem tallies_foldl (l : List UInt32) : Tallies (l.foldl SymbolHistogram.add .new) l :=
  tallies_new.foldl l

/-! ## Cost -/

section Cost

variable {K : Type u} [Field K] (log : K → K)

/-- What it costs to describe a list by the frequencies of its symbols. -/
def entropy (l : List UInt32) : K :=
  -∑ id ∈ l.toFinset, (l.count id : K) * log ((l.count id : K) / (l.length : K))

/-- The loop over the entries is a sum: no entry is zero. -/
theorem foldl_cost (total : ℤ) {entries : List (Sigma fun _ : UInt32 => ℤ)}
    (h : ∀ entry ∈ entries, entry.2 ≠ 0) (start : K) :
    entries.foldl (fun cost entry => if entry.2 = 0 then cost
      else cost - (entry.2 : K) * log ((entry.2 : K) / (total : K))) start =
    start - (entries.map fun entry => (entry.2 : K) * log ((entry.2 : K) / (total : K))).sum := by
  induction entries generalizing start with
  | nil => rw [List.foldl_nil, List.map_nil, List.sum_nil, sub_zero]
  | cons entry entries ih =>
    rw [List.foldl_cons, if_neg (h entry List.mem_cons_self),
      ih fun e he => h e (List.mem_cons_of_mem _ he), List.map_cons, List.sum_cons, sub_sub]

/-- The cost does not depend on how the histogram came to be. -/
theorem Tallies.cost (h : Tallies hist l) : hist.cost log = entropy log l := by
  have hkeys : hist.counts.keys.toFinset = l.toFinset := by
    ext id
    rw [List.mem_toFinset, List.mem_toFinset, ← AList.mem_keys, ← AList.lookup_isSome, h.lookup]
    split
    · next hmem => exact iff_of_true rfl hmem
    · next hmem => exact iff_of_false Bool.false_ne_true hmem
  have hentry : ∀ entry ∈ hist.counts.entries, entry.2 = (l.count entry.1 : ℤ) ∧ entry.2 ≠ 0 := by
    intro entry he
    have hlookup : hist.counts.lookup entry.1 = some entry.2 := AList.mem_lookup_iff.mpr he
    have hpos := h.present entry.1 entry.2 hlookup
    rw [h.lookup] at hlookup
    split at hlookup
    · exact ⟨(Option.some.inj hlookup).symm, by omega⟩
    · cases hlookup
  unfold SymbolHistogram.cost
  by_cases htotal : hist.total = 0
  · have hnil : l = [] := List.length_eq_zero_iff.mp (by have := h.total; omega)
    rw [if_pos htotal, hnil]
    exact (neg_eq_zero.mpr rfl).symm
  · rw [if_neg htotal, foldl_cost log _ fun entry he => (hentry entry he).2, zero_sub, entropy,
      ← hkeys, List.sum_toFinset _ (AList.keys_nodup hist.counts)]
    -- the keys carry the counts
    have hmap : hist.counts.entries.map (fun entry =>
        (entry.2 : K) * log ((entry.2 : K) / (hist.total : K))) =
        hist.counts.keys.map fun id => (l.count id : K) * log ((l.count id : K) / (l.length : K)) := by
      unfold AList.keys List.keys
      rw [List.map_map]
      refine List.map_congr_left fun entry he => ?_
      dsimp only [Function.comp_apply]
      rw [(hentry entry he).1, h.total, Int.cast_natCast, Int.cast_natCast]
    rw [hmap]

end Cost

end SymbolHistogram

end Symm.Tokenizer
