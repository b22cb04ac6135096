import Symm.Dashboard.Trajectory

/-!
# The past that the charts put together

A past of many lots is thinned out: a sample stands for as many lots as it takes for all
of them to fit the window, and the last lot always has one.

- `length_picked_le`, `getLast?_picked`: how many samples there are, and which is last;
- `summarizeBook_closed`: the closed lots of the desk have all its figures but the open
  ones;
- `seeds_end_live`: the past fits the window whole, its counts only grow, and it ends in
  the figures that a sample of the moment has.

The two means are left out of the last point. They add up the same returns and the same
hold times, but a past adds them in the order of closing and a sample of the moment in that
of the rows, and doubles do not add up alike in two orders. What is counted, ranked or
divided once does not depend on the order.
-/

namespace Symm.Dashboard.Longtail

open Symm.Lib

/-! ## Which lots have a sample -/

section Picked

variable {n i : ℕ}

theorem stride_pos (n : ℕ) : 0 < stride n := Nat.lt_of_lt_of_le Nat.one_pos (le_max_left _ _)

/-- The samples that the stride leaves fit the window. -/
theorem le_stride_mul (n : ℕ) : n ≤ stride n * chartSamples := by
  unfold stride chartSamples
  omega

/-- With two lots or more a past has more than one sample. -/
theorem stride_lt (h : 2 ≤ n) : stride n < n := by
  unfold stride chartSamples
  omega

theorem mem_picked : i ∈ picked n ↔ i < n ∧ ((i + 1) % stride n = 0 ∨ i = n - 1) := by
  rw [picked, List.mem_filter, List.mem_range, decide_eq_true_eq]

theorem pairwise_picked (n : ℕ) : (picked n).Pairwise (· < ·) := List.pairwise_lt_range.filter _

/-- The last lot has a sample. -/
theorem getLast?_picked (h : 0 < n) : (picked n).getLast? = some (n - 1) := by
  have hrange : List.range n = List.range (n - 1) ++ [n - 1] := by
    rw [← List.range_succ, Nat.succ_eq_add_one, Nat.sub_add_cancel h]
  have hlast : [n - 1].filter (fun i => decide ((i + 1) % stride n = 0 ∨ i = n - 1)) =
      [n - 1] := List.filter_eq_self.mpr fun i hi => decide_eq_true (Or.inr (by simpa using hi))
  rw [picked, hrange, List.filter_append, hlast, List.getLast?_append]
  rfl

/-- Two lots with a sample are in different strides. -/
theorem div_lt_div_of_picked {j : ℕ} (hi : i ∈ picked n) (hj : j ∈ picked n) (hij : i < j) :
    i / stride n < j / stride n := by
  obtain ⟨-, hend⟩ := mem_picked.mp hi
  have hjn := (mem_picked.mp hj).1
  rcases hend with hstride | hlast
  · -- the earlier one ends its stride, so the later one is past it
    obtain ⟨k, hk⟩ := Nat.dvd_of_mod_eq_zero hstride
    have hpos := stride_pos n
    have hbelow : i / stride n < k := Nat.div_lt_of_lt_mul (by omega)
    have habove : k ≤ j / stride n := (Nat.le_div_iff_mul_le hpos).mpr (by
      rw [Nat.mul_comm]
      omega)
    omega
  · omega

/-- The past fits the window. -/
theorem length_picked_le (n : ℕ) : (picked n).length ≤ chartSamples := by
  -- no two of them share a stride, and there are no more strides than places
  have hstrides : ((picked n).map (· / stride n)).Nodup := by
    refine List.Pairwise.imp (fun h => Nat.ne_of_lt h) (List.pairwise_map.mpr ?_)
    exact (pairwise_picked n).imp_of_mem fun hi hj hij => div_lt_div_of_picked hi hj hij
  have hbound : (picked n).map (· / stride n) ⊆ List.range chartSamples := by
    intro k hk
    obtain ⟨i, hi, rfl⟩ := List.mem_map.mp hk
    exact List.mem_range.mpr (Nat.div_lt_of_lt_mul
      (Nat.lt_of_lt_of_le (mem_picked.mp hi).1 (le_stride_mul n)))
  have hle := (hstrides.subperm hbound).length_le
  rwa [List.length_map, List.length_range] at hle

/-- A past of two lots or more has two samples or more. -/
theorem two_le_length_picked (h : 2 ≤ n) : 2 ≤ (picked n).length := by
  have hpos := stride_pos n
  have hlt := stride_lt h
  have hnodup : [stride n - 1, n - 1].Nodup := by
    rw [List.nodup_cons]
    refine ⟨?_, List.nodup_singleton _⟩
    rw [List.mem_singleton]
    omega
  have hsubset : [stride n - 1, n - 1] ⊆ picked n := by
    intro i hi
    rcases List.mem_pair.mp hi with rfl | rfl
    · refine mem_picked.mpr ⟨by omega, Or.inl ?_⟩
      rw [Nat.sub_add_cancel hpos, Nat.mod_self]
    · exact mem_picked.mpr ⟨by omega, Or.inr rfl⟩
  exact (hnodup.subperm hsubset).length_le

end Picked

/-! ## The closed lots of the desk -/

section Closed

variable {host : Host} {rows : List Row} {book : Book}

/-- The rows that a past is made of. -/
def closedRows (host : Host) (rows : List Row) : List Row :=
  rows.filter fun row => (positionReadout host row).closed

/-- The past counts the closed lots that the desk has. -/
theorem closedOnBook_closedRows :
    closedOnBook host (closedRows host rows) book = closedOnBook host rows book := by
  unfold closedOnBook closedRows
  rw [List.filter_filter]
  refine List.filter_congr fun row _ => ?_
  cases (positionReadout host row).closed <;> simp

theorem openCount_closedRows : openCount host (closedRows host rows) book = 0 := by
  unfold openCount openOnBook closedRows
  rw [List.filter_filter, List.length_eq_zero_iff, List.filter_eq_nil_iff]
  intro row _
  cases (positionReadout host row).closed <;> simp

/-- The closed lots have all figures of the desk but the open lots. -/
theorem summarizeBook_closed : summarizeBook host (closedRows host rows) book =
    { summarizeBook host rows book with «open» := 0 } := by
  have hreturns : returnsOn host (closedRows host rows) book = returnsOn host rows book := by
    unfold returnsOn settledOnBook
    rw [closedOnBook_closedRows]
  have hholds : holdsOn host (closedRows host rows) book = holdsOn host rows book := by
    unfold holdsOn settledOnBook
    rw [closedOnBook_closedRows]
  rw [summarizeBook_eq, summarizeBook_eq, openCount_closedRows, hreturns, hholds]

theorem summarizeExits_closed :
    summarizeExits host (closedRows host rows) book = summarizeExits host rows book := by
  unfold summarizeExits
  rw [closedOnBook_closedRows]

/-- More lots have no fewer closed ones. -/
theorem closed_le_append (rows others : List Row) (book : Book) :
    (summarizeBook host rows book).closed ≤ (summarizeBook host (rows ++ others) book).closed := by
  rw [summarizeBook_eq, summarizeBook_eq, returnsOn_append]
  simp only [List.length_append]
  omega

/-- More lots have no fewer exits. -/
theorem total_le_append (rows others : List Row) (book : Book) :
    (summarizeExits host rows book).total ≤ (summarizeExits host (rows ++ others) book).total := by
  rw [summarizeExits_eq, summarizeExits_eq, bucketsOn_append]
  simp only [List.length_append]
  omega

end Closed

/-! ## The past -/

variable {host : Host} {localeCompare : String → String → ℤ} {w : World}

/-- The figures of a book are those of another but for its open lots and the two means. -/
structure Agrees (stats live : BookDeskStats) : Prop where
  closed : stats.closed = live.closed
  wins : stats.wins = live.wins
  winRate : stats.winRate = live.winRate
  medianReturn : stats.medianReturn = live.medianReturn
  worstReturn : stats.worstReturn = live.worstReturn

/-- What a past has to do with the moment it is put together. -/
structure Past (host : Host) (localeCompare : String → String → ℤ) (w : World)
    (samples : List LongtailSample) : Prop where
  several : 2 ≤ samples.length
  grows : samples.Pairwise fun a b => ∀ book,
    (a.books book).closed ≤ (b.books book).closed ∧ (a.exits book).total ≤ (b.exits book).total
  ordered : (∀ lot ∈ dated host localeCompare w, lot.2 ≠ 0) →
    samples.Pairwise fun a b => a.at ≤ b.at
  ends : ∃ last, samples.getLast? = some last ∧ ∀ prior book,
    Agrees (last.books book) ((captureSample host localeCompare w prior).books book) ∧
    last.exits book = (captureSample host localeCompare w prior).exits book

/-- The lots of a past are the closed lots of the desk. -/
theorem dated_perm :
    ((dated host localeCompare w).map Prod.fst).Perm
      (closedRows host (w.desk host localeCompare)) := by
  unfold dated
  refine ((List.mergeSort_perm _ _).map Prod.fst).trans ?_
  rw [List.map_map]
  exact List.Perm.of_eq (List.map_id _)

/-- The lots of a past are in the order they were closed. -/
theorem pairwise_dated :
    (dated host localeCompare w).Pairwise fun a b => a.2 ≤ b.2 := by
  unfold dated
  refine List.Pairwise.imp (fun h => of_decide_eq_true h) (List.pairwise_mergeSort ?_ ?_ _)
  · intro a b c hab hbc
    exact decide_eq_true ((of_decide_eq_true hab).trans (of_decide_eq_true hbc))
  · intro a b
    rcases le_total a.2 b.2 with h | h
    · exact Bool.or_eq_true_iff.mpr (Or.inl (decide_eq_true h))
    · exact Bool.or_eq_true_iff.mpr (Or.inr (decide_eq_true h))

/-- The lots up to a later one are those up to an earlier one and some more. -/
theorem take_map_split {α β : Type} (f : α → β) (l : List α) {i j : ℕ} (h : i ≤ j) :
    (l.take j).map f = (l.take i).map f ++ ((l.take j).drop i).map f := by
  rw [← List.map_append]
  congr 1
  have hsplit := List.take_append_drop i (l.take j)
  rwa [List.take_take, Nat.min_eq_left h, eq_comm] at hsplit

/-- A sample after a lot that has a date has that date. -/
theorem seedSample_at {lots : List (Row × ℚ)} {i : ℕ} (hi : i < lots.length)
    (hdate : lots[i].2 ≠ 0) : (seedSample host w lots i).at = lots[i].2 := by
  have hget : (lots.map Prod.snd).getD i 0 = lots[i].2 := by
    rw [List.getD_eq_getElem?_getD, List.getElem?_map, List.getElem?_eq_getElem hi]
    rfl
  unfold seedSample
  dsimp only
  rw [hget, if_pos hdate]

/-- What is put together of two closed lots or more is a past. -/
theorem past_seedSamples (h : 2 ≤ (dated host localeCompare w).length) :
    Past host localeCompare w (seedSamples host localeCompare w) where
  several := by
    rw [seedSamples, List.length_map]
    exact two_le_length_picked h
  grows := by
    refine List.pairwise_map.mpr ((pairwise_picked _).imp ?_)
    intro i j hij book
    -- a later sample is over more of the lots
    have hsplit := take_map_split Prod.fst (dated host localeCompare w)
      (Nat.succ_le_succ (Nat.le_of_lt hij))
    constructor
    · show (summarizeBook host _ book).closed ≤ (summarizeBook host _ book).closed
      rw [hsplit]
      exact closed_le_append _ _ book
    · show (summarizeExits host _ book).total ≤ (summarizeExits host _ book).total
      rw [hsplit]
      exact total_le_append _ _ book
  ordered := by
    intro hdates
    refine List.pairwise_map.mpr ((pairwise_picked _).imp_of_mem ?_)
    intro i j hi hj hij
    have hjn := (mem_picked.mp hj).1
    rw [seedSample_at (hij.trans hjn) (hdates _ (List.getElem_mem _)),
      seedSample_at hjn (hdates _ (List.getElem_mem _))]
    exact List.pairwise_iff_getElem.mp pairwise_dated i j _ _ hij
  ends := by
    have hlast : (seedSamples host localeCompare w).getLast? =
        some (seedSample host w (dated host localeCompare w)
          ((dated host localeCompare w).length - 1)) := by
      rw [seedSamples, List.getLast?_map, getLast?_picked (by omega)]
      rfl
    -- the last sample is over all of them
    have hall : ((dated host localeCompare w).take
        ((dated host localeCompare w).length - 1 + 1)).map Prod.fst =
          (dated host localeCompare w).map Prod.fst := by
      rw [Nat.sub_add_cancel (by omega), List.take_length]
    refine ⟨_, hlast, ?_⟩
    intro prior book
    constructor
    · show Agrees (summarizeBook host _ book) (summarizeBook host _ book)
      rw [hall, summarizeBook_perm dated_perm, summarizeBook_closed]
      exact ⟨rfl, rfl, rfl, rfl, rfl⟩
    · show summarizeExits host _ book = summarizeExits host _ book
      rw [hall, summarizeExits_perm dated_perm, summarizeExits_closed]

/-- Where the window is a warm-up and two lots are closed, the charts show the past that
the lots make, all of it. Its counts only grow, its samples are in the order of their
dates where the lots have dates, and the last one has the figures that a sample of the
moment has, but for the open lots and the means. -/
theorem seeds_end_live {before : List Event}
    (hwarm : windowIsWarmupOnly (runFrom (step host localeCompare) .new before).samples = true)
    (hlots : 2 ≤ (dated host localeCompare w).length) :
    ((runFrom (step host localeCompare) .new before).seedFromClosedLots host localeCompare
        w).samples = seedSamples host localeCompare w ∧
      Past host localeCompare w (seedSamples host localeCompare w) := by
  have hpast := past_seedSamples hlots
  refine ⟨?_, hpast⟩
  have hroom : (seedSamples host localeCompare w).length ≤ chartSamples := by
    rw [seedSamples, List.length_map]
    exact length_picked_le _
  have hseveral := hpast.several
  rw [(sync_run before).samples] at hwarm
  rw [Recorder.seedFromClosedLots, if_neg fun h => h hwarm, if_neg (by omega),
    if_neg (by omega), samples_installWindow, rtake_of_length_le hroom]

/-- A page with two closed lots. -/
def World.twoClosed : World :=
  let lot (id : String) : Row :=
    { id := id
      symbol := "BTC/USD"
      fills := []
      get := fun key =>
        if key = "closed_at" then .str "2026" else if key = "pnl_pct" then .num 1
        else .undefined }
  { World.quiet 10000 with positions := [lot "a", lot "b"] }

/-- The two closed lots take the place of an empty window. -/
theorem seeds_end_live_twoClosed :
    ((runFrom (step Host.plain fun _ _ => 0) .new [.reset]).seedFromClosedLots Host.plain
        (fun _ _ => 0) .twoClosed).samples = seedSamples Host.plain (fun _ _ => 0) .twoClosed ∧
      Past Host.plain (fun _ _ => 0) .twoClosed
        (seedSamples Host.plain (fun _ _ => 0) .twoClosed) := by
  refine seeds_end_live (by decide +kernel) ?_
  have hdesk : (World.twoClosed.desk Host.plain fun _ _ => 0).Perm World.twoClosed.positions :=
    List.mergeSort_perm _ _
  have hlots := (dated_perm.trans (hdesk.filter _)).length_eq
  rw [List.length_map] at hlots
  rw [hlots]
  decide +kernel

end Symm.Dashboard.Longtail
