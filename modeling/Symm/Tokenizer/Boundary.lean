import Mathlib.Analysis.SpecialFunctions.Log.Basic
import Symm.Lib.FirstBest
import Symm.Tokenizer.Histogram

/-!
# Where a stream is cut

`detectBoundary` goes through a stream once. It moves one symbol after another
from the right histogram to the left one and keeps the best split so far. The
definition it computes looks at every split on its own and counts both sides
from the beginning.

- `splitGain`: what a split saves, counted from the beginning;
- `BestSplit`: the first of the best splits;
- `scan_prefix`: what the loop holds after a prefix of the stream;
- `detectBoundary_eq_best`: the loop finds the first best split, if it saves
  anything.

The scan keeps two histograms, of the symbols before the split and of those after it,
and moves one symbol over at each turn. Its invariant is that both tally their side, so
the gain that is computed is that of the definition, from scratch. The running strict
maximum with its first place is `Lib.FirstBest`, and what is left is the range of the
splits.

The definition writes the penalty out and takes costs as entropies of lists, without a
histogram.
-/

namespace Symm.Tokenizer

open Symm.Lib SymbolHistogram

universe u

namespace MDL

section Scan

variable {K : Type u} [Field K] [LinearOrder K] (log : K → K)

/-! ## Splits -/

/-- What the distinct symbols of a list cost as parameters: half a logarithm of the length
for each of them but one. -/
def penaltyOf (l : List UInt32) : K :=
  1 / ((2 : ℕ) : K) * ((max (l.toFinset.card - 1) 1 : ℕ) : K) * log (l.length : K)

/-- What is saved by describing the first `k` symbols apart from the others. -/
def splitGain (stream : List UInt32) (k : ℕ) : K :=
  entropy log stream - entropy log (stream.take k) - entropy log (stream.drop k) -
    (penaltyOf log (stream.take k) + penaltyOf log (stream.drop k) - penaltyOf log stream)

/-- The splits with at least `m` symbols on each side. -/
def Allowed (m n k : ℕ) : Prop := m ≤ k ∧ k ≤ n - m

instance (m n k : ℕ) : Decidable (Allowed m n k) := inferInstanceAs (Decidable (_ ∧ _))

/-- The smallest of the allowed splits that gain most. -/
structure BestSplit (m : ℕ) (stream : List UInt32) (k : ℕ) : Prop where
  allowed : Allowed m stream.length k
  best : ∀ j, Allowed m stream.length j → splitGain log stream j ≤ splitGain log stream k
  first : ∀ j, Allowed m stream.length j → j < k → splitGain log stream j < splitGain log stream k

variable {log}

/-- Ties go to the smallest split, so there is one best one. -/
theorem BestSplit.unique {m k k' : ℕ} {stream : List UInt32} (h : BestSplit log m stream k)
    (h' : BestSplit log m stream k') : k = k' := by
  rcases lt_trichotomy k k' with hlt | heq | hgt
  · exact absurd (h'.first k h.allowed hlt) (not_lt.mpr (h.best k' h'.allowed))
  · exact heq
  · exact absurd (h.first k' h'.allowed hgt) (not_lt.mpr (h'.best k h.allowed))

variable (log)

/-- Where a split is allowed, one of them is the best. -/
theorem exists_bestSplit {m k : ℕ} {stream : List UInt32} (h : Allowed m stream.length k) :
    ∃ best, BestSplit log m stream best := by
  classical
  have hmem : ∀ j, j ∈ (Finset.range (stream.length + 1)).filter (Allowed m stream.length) ↔
      Allowed m stream.length j := by
    intro j
    rw [Finset.mem_filter, Finset.mem_range]
    refine and_iff_right_of_imp fun hj => ?_
    have := hj.2
    omega
  obtain ⟨top, htop, hmax⟩ := Finset.exists_max_image _ (splitGain log stream) ⟨k, (hmem k).mpr h⟩
  have hex : ∃ j, Allowed m stream.length j ∧
      ∀ i, Allowed m stream.length i → splitGain log stream i ≤ splitGain log stream j :=
    ⟨top, (hmem top).mp htop, fun i hi => hmax i ((hmem i).mpr hi)⟩
  obtain ⟨hallowed, hbest⟩ := Nat.find_spec hex
  refine ⟨Nat.find hex, hallowed, hbest, fun j hj hlt => ?_⟩
  -- a smaller split is not among the best
  obtain ⟨i, hi⟩ := not_forall.mp (not_and.mp (Nat.find_min hex hlt) hj)
  obtain ⟨hiallowed, hgain⟩ := Classical.not_imp.mp hi
  exact (not_le.mp hgain).trans_le (hbest i hiallowed)

omit [LinearOrder K] in
/-- On a histogram that tallies a list, the code's penalty is that of the list. -/
theorem penalty_eq {hist : SymbolHistogram} {l : List UInt32} (h : hist.Tallies l) {n : ℕ}
    (hn : n = l.length) : penalty log hist n = penaltyOf log l := by
  have hmax : max (hist.numDistinct - 1) 1 = ((max (l.toFinset.card - 1) 1 : ℕ) : ℤ) := by
    rw [h.distinct]
    omega
  rw [penalty, penaltyOf, hn, hmax, Int.cast_natCast, Nat.cast_ofNat]

/-! ## The loop -/

/-- The best split so far, as the loop keeps it. -/
def Scan.best (acc : Scan K) : ℕ × K := (acc.bestK, acc.maxGain)

/-- The loop before its first turn. -/
def Scan.start (dist : SymbolHistogram) : Scan K := ⟨.new, dist, 0, 0⟩

/-- One turn, between two parts of the stream. -/
theorem scan_turn {dist : SymbolHistogram} {pre post : List UInt32} {x : UInt32} (m : ℕ)
    {acc : Scan K} (hdist : dist.Tallies (pre ++ x :: post))
    (hleft : acc.left.Tallies pre) (hright : acc.right.Tallies (x :: post)) :
    let next := scan log dist (pre ++ x :: post).length m acc (x, pre.length)
    next.left.Tallies (pre ++ [x]) ∧ next.right.Tallies post ∧
      next.best = if Allowed m (pre ++ x :: post).length (pre.length + 1) then
        better (splitGain log (pre ++ x :: post)) acc.best (pre.length + 1) else acc.best := by
  have hleft' := (hleft.add x).perm (List.perm_append_singleton x pre).symm
  have hright' := hright.remove
  have hlen : (pre ++ x :: post).length = pre.length + 1 + post.length := by
    rw [List.length_append, List.length_cons]
    omega
  unfold scan
  dsimp only
  by_cases hshort : pre.length + 1 < m ∨ (pre ++ x :: post).length - (pre.length + 1) < m
  · -- too short a part on one side
    rw [if_pos hshort, if_neg]
    · exact ⟨hleft', hright', rfl⟩
    · rintro ⟨hlow, hhigh⟩
      omega
  · have hallowed : Allowed m (pre ++ x :: post).length (pre.length + 1) := by
      constructor <;> omega
    have hparts : pre ++ x :: post = pre ++ [x] ++ post := by simp
    have htake : (pre ++ x :: post).take (pre.length + 1) = pre ++ [x] := by
      rw [hparts]
      exact List.take_left' (by simp)
    have hdrop : (pre ++ x :: post).drop (pre.length + 1) = post := by
      rw [hparts]
      exact List.drop_left' (by simp)
    rw [if_neg hshort, if_pos hallowed]
    -- the histograms tally the two parts, so the gain is that of the split
    have hgain : dist.cost log - ((acc.left.add x).cost log + (acc.right.remove x).cost log) -
        ((penalty log (acc.left.add x) (pre.length + 1) + penalty log (acc.right.remove x)
          ((pre ++ x :: post).length - (pre.length + 1))) -
          penalty log dist (pre ++ x :: post).length) =
        splitGain log (pre ++ x :: post) (pre.length + 1) := by
      rw [splitGain, htake, hdrop, hdist.cost, hleft'.cost, hright'.cost, penalty_eq log hdist rfl,
        penalty_eq log hleft' (by simp), penalty_eq log hright' (by omega)]
      ring
    rw [hgain, better]
    by_cases hmore : acc.maxGain < splitGain log (pre ++ x :: post) (pre.length + 1)
    · rw [if_pos hmore]
      exact ⟨hleft', hright', (if_pos hmore).symm⟩
    · rw [if_neg hmore]
      exact ⟨hleft', hright', (if_neg hmore).symm⟩

/-- After a prefix of the stream, the two histograms count the prefix and the
rest, and the best split is the first best one of those behind it. -/
theorem scan_prefix {dist : SymbolHistogram} (pre post : List UInt32) (m : ℕ)
    (hdist : dist.Tallies (pre ++ post)) :
    let acc := pre.zipIdx.foldl (scan log dist (pre ++ post).length m) (Scan.start dist)
    acc.left.Tallies pre ∧ acc.right.Tallies post ∧
      acc.best = ((List.range' 1 pre.length).filter (Allowed m (pre ++ post).length)).foldl
        (better (splitGain log (pre ++ post))) (0, 0) := by
  induction pre using List.reverseRecOn generalizing post with
  | nil => exact ⟨tallies_new, hdist, rfl⟩
  | append_singleton pre x ih =>
    rw [List.append_assoc, List.singleton_append] at hdist ⊢
    obtain ⟨hleft, hright, hbest⟩ := ih (x :: post) hdist
    have hturn := scan_turn log m hdist hleft hright
    rw [List.zipIdx_append, List.foldl_append, Nat.zero_add]
    refine ⟨hturn.1, hturn.2.1, hturn.2.2.trans ?_⟩
    have hrange : List.range' 1 (pre ++ [x]).length = List.range' 1 pre.length ++ [pre.length + 1] := by
      rw [List.length_append, List.length_singleton, List.range'_concat, Nat.one_mul, Nat.add_comm 1]
    rw [hbest, hrange, List.filter_append, List.foldl_append, List.filter_singleton]
    by_cases hallowed : Allowed m (pre ++ x :: post).length (pre.length + 1)
    · rw [if_pos hallowed, decide_eq_true hallowed]
      rfl
    · rw [if_neg hallowed, decide_eq_false hallowed]
      rfl

/-- The loop finds the first best of the allowed splits, if it gains anything. -/
theorem detectBoundary_cases (mdl : MDL K) {stream : List UInt32} {dist : SymbolHistogram}
    (hdist : dist.Tallies stream) :
    (∃ k, BestSplit log (max mdl.minSegmentSymbols 2) stream k ∧ 0 < splitGain log stream k ∧
      mdl.detectBoundary log stream dist = (true, k, splitGain log stream k)) ∨
    ((∀ j, Allowed (max mdl.minSegmentSymbols 2) stream.length j → splitGain log stream j ≤ 0) ∧
      mdl.detectBoundary log stream dist = (false, 0, 0)) := by
  have hm : 2 ≤ max mdl.minSegmentSymbols 2 := le_max_right ..
  unfold detectBoundary
  dsimp only
  generalize max mdl.minSegmentSymbols 2 = m at hm
  by_cases hshort : stream.length < 2 * m
  · refine .inr ⟨fun j hj => ?_, if_pos hshort⟩
    obtain ⟨hlow, hhigh⟩ := hj
    omega
  rw [if_neg hshort]
  -- all splits but the one behind the last symbol are looked at
  have hsplit := List.take_append_drop (stream.length - 1) stream
  have hprefix := scan_prefix log (stream.take (stream.length - 1))
    (stream.drop (stream.length - 1)) m (by rwa [hsplit])
  rw [hsplit] at hprefix
  obtain ⟨-, -, hbest⟩ := hprefix
  rw [Scan.start] at hbest
  generalize (stream.take (stream.length - 1)).zipIdx.foldl (scan log dist stream.length m)
    ⟨.new, dist, 0, 0⟩ = acc at hbest ⊢
  have hmem : ∀ j, j ∈ (List.range' 1 (stream.take (stream.length - 1)).length).filter
      (Allowed m stream.length) ↔ Allowed m stream.length j := by
    intro j
    rw [List.mem_filter, decide_eq_true_eq, List.mem_range'_1, List.length_take]
    refine and_iff_right_of_imp ?_
    rintro ⟨hlow, hhigh⟩
    omega
  have hsorted : ((List.range' 1 (stream.take (stream.length - 1)).length).filter
      (Allowed m stream.length)).Pairwise (· < ·) := (List.pairwise_lt_range' ..).filter _
  revert hmem hsorted hbest
  generalize (List.range' 1 (stream.take (stream.length - 1)).length).filter
    (Allowed m stream.length) = splits
  intro hbest hmem hsorted
  have hparts : acc.bestK = (splits.foldl (better (splitGain log stream)) (0, 0)).1 ∧
      acc.maxGain = (splits.foldl (better (splitGain log stream)) (0, 0)).2 :=
    ⟨congrArg Prod.fst hbest, congrArg Prod.snd hbest⟩
  rw [hparts.1, hparts.2]
  rcases foldl_better (splitGain log stream) splits (0, 0) with ⟨heq, hle⟩ |
    ⟨pre, k, post, rfl, heq, hgain, hpre, hpost⟩
  · rw [heq]
    exact .inr ⟨fun j hj => hle j ((hmem j).mpr hj), by rw [decide_eq_false (lt_irrefl 0)]⟩
  · rw [heq]
    refine .inl ⟨k, ⟨(hmem k).mp (by simp), fun j hj => ?_, fun j hj hlt => ?_⟩, hgain, by
      rw [decide_eq_true hgain]⟩
    · rcases List.mem_append.mp ((hmem j).mpr hj) with hj | hj
      · exact (hpre j hj).le
      · rcases List.mem_cons.mp hj with rfl | hj
        · exact le_rfl
        · exact hpost j hj
    · -- what comes before the best split is before it in the list
      rcases List.mem_append.mp ((hmem j).mpr hj) with hj | hj
      · exact hpre j hj
      · have hlate := (List.pairwise_append.mp hsorted).2.1
        rcases List.mem_cons.mp hj with rfl | hj
        · exact absurd hlt (lt_irrefl _)
        · exact absurd hlt (lt_asymm ((List.pairwise_cons.mp hlate).1 j hj))

end Scan

/-! ## The definition -/

/-- The loop over reals is the definition: there is a best split where any split
is allowed, the smallest one is returned with its gain if that is positive, and
no boundary otherwise. -/
theorem detectBoundary_eq_best (mdl : MDL ℝ) {stream : List UInt32} {dist : SymbolHistogram}
    (hdist : dist.Tallies stream) :
    (∀ j, Allowed (max mdl.minSegmentSymbols 2) stream.length j →
      ∃ k, BestSplit Real.log (max mdl.minSegmentSymbols 2) stream k) ∧
    (∀ k, BestSplit Real.log (max mdl.minSegmentSymbols 2) stream k →
      0 < splitGain Real.log stream k →
      mdl.detectBoundary Real.log stream dist = (true, k, splitGain Real.log stream k)) ∧
    ((∀ k, BestSplit Real.log (max mdl.minSegmentSymbols 2) stream k →
        splitGain Real.log stream k ≤ 0) →
      mdl.detectBoundary Real.log stream dist = (false, 0, 0)) := by
  refine ⟨fun j hj => exists_bestSplit Real.log hj, ?_⟩
  rcases detectBoundary_cases Real.log mdl hdist with ⟨k, hbest, hgain, heq⟩ | ⟨hle, heq⟩
  · constructor
    · intro k' hbest' _
      rw [hbest'.unique hbest, heq]
    · exact fun hall => absurd hgain (not_lt.mpr (hall k hbest))
  · constructor
    · exact fun k hbest hgain => absurd hgain (not_lt.mpr (hle k hbest.allowed))
    · exact fun _ => heq

/-- Symbols without a repeat cost what their number costs. -/
theorem entropy_of_nodup {l : List UInt32} (h : l.Nodup) :
    entropy Real.log l = l.length * Real.log l.length := by
  have hterm : ∀ id ∈ l.toFinset, (l.count id : ℝ) * Real.log ((l.count id : ℝ) / l.length) =
      -Real.log l.length := by
    intro id hid
    rw [List.count_eq_one_of_mem h (List.mem_toFinset.mp hid), Nat.cast_one, one_mul, one_div,
      Real.log_inv]
  rw [entropy, Finset.sum_congr rfl hterm, Finset.sum_const, List.toFinset_card_of_nodup h,
    nsmul_eq_mul, mul_neg, neg_neg]

/-- A cut in the middle of four different symbols saves six bits. -/
theorem splitGain_four : splitGain Real.log [1, 2, 3, 4] 2 = 6 * Real.log 2 := by
  have hfour : Real.log 4 = 2 * Real.log 2 := by
    rw [show (4 : ℝ) = 2 ^ 2 by norm_num, Real.log_pow]
    norm_num
  have hfull : entropy Real.log [1, 2, 3, 4] = 4 * Real.log 4 := entropy_of_nodup (by decide)
  have hleft : entropy Real.log [1, 2] = 2 * Real.log 2 := entropy_of_nodup (by decide)
  have hright : entropy Real.log [3, 4] = 2 * Real.log 2 := entropy_of_nodup (by decide)
  have hpenalty : ∀ {l : List UInt32}, l.Nodup → penaltyOf Real.log l =
      1 / 2 * ((max (l.length - 1) 1 : ℕ) : ℝ) * Real.log l.length := by
    intro l h
    rw [penaltyOf, List.toFinset_card_of_nodup h, Nat.cast_ofNat]
  rw [splitGain]
  show entropy Real.log [1, 2, 3, 4] - entropy Real.log [1, 2] - entropy Real.log [3, 4] -
    (penaltyOf Real.log [1, 2] + penaltyOf Real.log [3, 4] - penaltyOf Real.log [1, 2, 3, 4]) = _
  rw [hfull, hleft, hright, hpenalty (by decide), hpenalty (by decide), hpenalty (by decide)]
  norm_num [hfour]
  ring

/-- Four different symbols: the split in the middle is the only allowed one, and it gains. -/
theorem detectBoundary_eq_best_sample :
    BestSplit Real.log 2 [1, 2, 3, 4] 2 ∧ 0 < splitGain Real.log [1, 2, 3, 4] 2 ∧
      (new : MDL ℝ).detectBoundary Real.log [1, 2, 3, 4] ([1, 2, 3, 4].foldl .add .new) =
        (true, 2, splitGain Real.log [1, 2, 3, 4] 2) := by
  obtain ⟨hex, hbest, -⟩ := detectBoundary_eq_best new (tallies_foldl [1, 2, 3, 4])
  obtain ⟨k, hk⟩ := hex 2 (by decide)
  obtain rfl : k = 2 := le_antisymm hk.allowed.2 hk.allowed.1
  have hgain : 0 < splitGain Real.log [1, 2, 3, 4] 2 := by
    rw [splitGain_four]
    exact mul_pos (by norm_num) (Real.log_pos one_lt_two)
  exact ⟨hk, hgain, hbest 2 hk hgain⟩

end MDL

end Symm.Tokenizer
