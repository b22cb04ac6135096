import Mathlib.Tactic.Linarith
import Mathlib.Tactic.Positivity
import Mathlib.Tactic.FieldSimp
import Mathlib.Tactic.Ring
import Symm.Broker.Stoploss
import Symm.Lib.Machine

/-!
# Runs of a stop

A stop is fed one mark after another, each at a pace of its own.

- `Rails`: the invariant of every run;
- `rails`: the floor keeps to the hard rail, the peak is the highest mark, and a
  stop is triggered exactly by a mark at or below its floor, for good;
- `lock_kept_iff`: when the floor of a stop that was protected stays at or above 0;
- `down_move_below_iff`: when a down-move does not pull the floor up to its mark.

`update_cases` says all that one mark does: a stop that is triggered sees nothing more,
a mark at or below the floor triggers it, one at or above the target locks it, and any
other sets its health. Before that the floor has breathed: a move up lowers it and a
move down raises it, by a share of the move and of the pace, and never below the hard
rail. The clamp at zero is in the branch of the target only, which is why a lock can be
lost.
-/

namespace Symm.Broker

open Symm.Lib

namespace Stoploss

/-- A mark of a lot with the pace it came at. -/
structure Feed where
  pnlPct : ℚ
  pace : ℚ

/-- One mark. -/
def step (stop : Stoploss) (feed : Feed) : Stoploss := stop.update feed.pnlPct feed.pace

/-! ## What one mark does -/

/-- The part of a span that some room fills. -/
def share (room span : ℚ) : ℚ := max 0 (min 1 (room / span))

theorem share_nonneg (room span : ℚ) : 0 ≤ share room span := le_max_left _ _

theorem share_le_one (room span : ℚ) : share room span ≤ 1 :=
  max_le zero_le_one (min_le_left _ _)

/-- The floor after breathing, before it is clamped to the rail. -/
def breath (stop : Stoploss) (pnl pace : ℚ) : ℚ :=
  ({ stop with previousPnLPct := stop.currentPnLPct }.breathe pnl pace).floorPnLPct

/-- On the way up the floor is given back, by the share of the span that is open. -/
theorem breath_up {stop : Stoploss} {pnl : ℚ} (hspan : stop.maxLossPct < stop.profitTargetPct)
    (hup : stop.currentPnLPct < pnl) (pace : ℚ) :
    stop.breath pnl pace = stop.floorPnLPct - (pnl - stop.currentPnLPct) * pace *
      share (pnl - stop.floorPnLPct) (stop.profitTargetPct - stop.maxLossPct) := by
  have hdelta : 0 < pnl - stop.currentPnLPct := sub_pos.mpr hup
  unfold breath breathe
  dsimp only
  rw [if_neg hdelta.ne', if_neg (not_le.mpr (sub_pos.mpr hspan)), if_pos hdelta,
    abs_of_pos hdelta, sub_sub_cancel]
  rfl

/-- On the way down it tightens, by the larger of what the two shares leave. -/
theorem breath_down {stop : Stoploss} {pnl : ℚ} (hspan : stop.maxLossPct < stop.profitTargetPct)
    (hdown : pnl < stop.currentPnLPct) (pace : ℚ) :
    stop.breath pnl pace = stop.floorPnLPct + (stop.currentPnLPct - pnl) * pace *
      max (1 - share (pnl - stop.floorPnLPct) (stop.profitTargetPct - stop.maxLossPct))
        (1 - share (stop.profitTargetPct - pnl) (stop.profitTargetPct - stop.maxLossPct)) := by
  have hdelta : pnl - stop.currentPnLPct < 0 := sub_neg.mpr hdown
  unfold breath breathe
  dsimp only
  rw [if_neg hdelta.ne, if_neg (not_le.mpr (sub_pos.mpr hspan)), if_neg (not_lt.mpr hdelta.le),
    abs_of_neg hdelta, neg_sub]
  rfl

/-- A mark that does not move leaves the floor. -/
theorem breath_still (stop : Stoploss) (pace : ℚ) :
    stop.breath stop.currentPnLPct pace = stop.floorPnLPct := by
  unfold breath breathe
  dsimp only
  rw [if_pos (sub_self _)]

/-- Breathing moves the floor only. -/
theorem breathe_eq (stop : Stoploss) (pnl pace : ℚ) :
    stop.breathe pnl pace =
      { stop with floorPnLPct := (stop.breathe pnl pace).floorPnLPct } := by
  unfold breathe
  dsimp only
  split
  · rfl
  · split
    · rfl
    · split <;> rfl

/-- What a mark leaves, but for the state. -/
theorem mark_eq (stop : Stoploss) (pnl pace : ℚ) :
    stop.mark pnl pace = { stop with
      previousPnLPct := stop.currentPnLPct
      currentPnLPct := pnl
      peakPnLPct := max stop.peakPnLPct pnl
      floorPnLPct := max stop.maxLossPct (stop.breath pnl pace) } := by
  have hfloor : ({ stop with
      previousPnLPct := stop.currentPnLPct
      currentPnLPct := pnl
      peakPnLPct := max stop.peakPnLPct pnl }.breathe pnl pace).floorPnLPct =
        stop.breath pnl pace := by
    unfold breath breathe
    dsimp only
    split
    · rfl
    · split
      · rfl
      · split <;> rfl
  unfold mark
  dsimp only
  rw [breathe_eq, hfloor]
  split
  · rename_i hlt
    rw [max_eq_left hlt.le]
  · rename_i hle
    rw [max_eq_right (not_lt.mp hle)]

/-- The states between the rails. -/
def Between (state : StoplossState) : Prop :=
  state ≠ .init ∧ state ≠ .locked ∧ state ≠ .triggered

theorem health_between (stop : Stoploss) (pnl : ℚ) : Between (stop.health pnl) := by
  unfold health Between
  dsimp only
  split
  · split <;> simp
  · simp

/-- Everything an update can do. -/
theorem update_cases (stop : Stoploss) (pnl pace : ℚ) :
    (stop.state = .triggered ∧ stop.update pnl pace = stop) ∨
    (stop.state ≠ .triggered ∧ pnl ≤ (stop.mark pnl pace).floorPnLPct ∧
      stop.update pnl pace = { stop.mark pnl pace with state := .triggered }) ∨
    (stop.state ≠ .triggered ∧ (stop.mark pnl pace).floorPnLPct < pnl ∧
      stop.profitTargetPct ≤ pnl ∧
      stop.update pnl pace = { stop.mark pnl pace with
        state := .locked
        floorPnLPct := max 0 (stop.mark pnl pace).floorPnLPct }) ∨
    (stop.state ≠ .triggered ∧ (stop.mark pnl pace).floorPnLPct < pnl ∧
      pnl < stop.profitTargetPct ∧ stop.update pnl pace =
        { stop.mark pnl pace with state := (stop.mark pnl pace).health pnl }) := by
  have htarget : (stop.mark pnl pace).profitTargetPct = stop.profitTargetPct := by
    rw [mark_eq]
  unfold update
  by_cases hstate : stop.state = .triggered
  · exact .inl ⟨hstate, if_pos hstate⟩
  rw [if_neg hstate]
  dsimp only
  rw [htarget]
  -- the floor is looked at before the target
  by_cases hfloor : pnl ≤ (stop.mark pnl pace).floorPnLPct
  · exact .inr (.inl ⟨hstate, hfloor, if_pos hfloor⟩)
  rw [if_neg hfloor]
  by_cases hprofit : stop.profitTargetPct ≤ pnl
  · refine .inr (.inr (.inl ⟨hstate, not_le.mp hfloor, hprofit, ?_⟩))
    rw [if_pos hprofit]
    split
    -- the floor is lifted to zero only from below
    · rename_i hneg
      rw [max_eq_left hneg.le]
    · rename_i hpos
      rw [max_eq_right (not_lt.mp hpos)]
  · exact .inr (.inr (.inr ⟨hstate, not_le.mp hfloor, not_le.mp hprofit, if_neg hprofit⟩))

/-! ## The rails -/

/-- What holds of a stop in every run. -/
structure Rails (maxLoss : ℚ) (stop : Stoploss) : Prop where
  loss : stop.maxLossPct = -maxLoss
  target : stop.profitTargetPct = maxLoss
  rail : -maxLoss ≤ stop.floorPnLPct
  above : stop.state ≠ .init → stop.state ≠ .triggered → stop.floorPnLPct < stop.currentPnLPct
  below : stop.state = .triggered → stop.currentPnLPct ≤ stop.floorPnLPct
  lock : stop.state = .locked → 0 ≤ stop.floorPnLPct

/-- A new stop is on its rails. -/
theorem rails_new (maxLoss pnl : ℚ) : Rails maxLoss (new maxLoss pnl) where
  loss := rfl
  target := rfl
  rail := le_refl _
  above h := absurd rfl h
  below h := by cases h
  lock h := by cases h

/-- The target lies above the largest loss. -/
theorem Rails.span {maxLoss : ℚ} (hpos : 0 < maxLoss) {stop : Stoploss} (h : Rails maxLoss stop) :
    stop.maxLossPct < stop.profitTargetPct := by
  rw [h.loss, h.target]
  linarith

/-- Every mark keeps the stop on its rails. -/
theorem Rails.step {maxLoss : ℚ} (hpos : 0 < maxLoss) {stop : Stoploss} (h : Rails maxLoss stop)
    (feed : Feed) : Rails maxLoss (stop.step feed) := by
  have hmark := mark_eq stop feed.pnlPct feed.pace
  have hrail : -maxLoss ≤ (stop.mark feed.pnlPct feed.pace).floorPnLPct := by
    rw [hmark, ← h.loss]
    exact le_max_left _ _
  have hcurrent : (stop.mark feed.pnlPct feed.pace).currentPnLPct = feed.pnlPct := by
    rw [hmark]
  have hloss : (stop.mark feed.pnlPct feed.pace).maxLossPct = -maxLoss := by
    rw [hmark, ← h.loss]
  have htarget : (stop.mark feed.pnlPct feed.pace).profitTargetPct = maxLoss := by
    rw [hmark, ← h.target]
  unfold Stoploss.step
  rcases update_cases stop feed.pnlPct feed.pace with ⟨-, he⟩ | ⟨-, hle, he⟩ |
    ⟨-, hlt, hprofit, he⟩ | ⟨-, hlt, -, he⟩
  · rw [he]
    exact h
  · rw [he]
    exact ⟨hloss, htarget, hrail, fun _ hne => absurd rfl hne, fun _ => hcurrent.trans_le hle,
      fun hl => by cases hl⟩
  · -- the locked floor is 0 or the old one, both below a mark that made the target
    rw [he]
    have hmade : (0 : ℚ) < feed.pnlPct := hpos.trans_le (h.target ▸ hprofit)
    refine ⟨hloss, htarget, hrail.trans (le_max_right _ _), fun _ _ => ?_, fun hl => ?_,
      fun _ => le_max_left _ _⟩
    · show max 0 _ < (stop.mark feed.pnlPct feed.pace).currentPnLPct
      rw [hcurrent]
      exact max_lt hmade hlt
    · cases hl
  · rw [he]
    exact ⟨hloss, htarget, hrail, fun _ _ => hlt.trans_eq hcurrent.symm,
      fun hl => absurd hl (health_between _ _).2.2, fun hl => absurd hl (health_between _ _).2.1⟩

theorem rails_runFrom {maxLoss : ℚ} (hpos : 0 < maxLoss) (pnl : ℚ) (feeds : List Feed) :
    Rails maxLoss (runFrom step (new maxLoss pnl) feeds) :=
  always_runFrom (fun _ feed h => h.step hpos feed) (rails_new maxLoss pnl) feeds

/-- A triggered stop takes no more marks. -/
theorem runFrom_triggered {stop : Stoploss} (h : stop.state = .triggered) (feeds : List Feed) :
    runFrom step stop feeds = stop := by
  induction feeds with
  | nil => rfl
  | cons feed feeds ih =>
    have hstep : stop.step feed = stop := if_pos h
    rw [runFrom_cons, hstep, ih]

/-- The marks a stop takes: those fed before it is triggered. -/
def processed (stop : Stoploss) : List Feed → List ℚ
  | [] => []
  | feed :: feeds =>
    if stop.state = .triggered then [] else feed.pnlPct :: processed (stop.step feed) feeds

theorem processed_cons {stop : Stoploss} (h : stop.state ≠ .triggered) (feed : Feed)
    (feeds : List Feed) :
    stop.processed (feed :: feeds) = feed.pnlPct :: (stop.step feed).processed feeds := if_neg h

/-- An untriggered stop records the mark. -/
theorem step_records {stop : Stoploss} (h : stop.state ≠ .triggered) (feed : Feed) :
    (stop.step feed).state ≠ .init ∧ (stop.step feed).currentPnLPct = feed.pnlPct ∧
      (stop.step feed).peakPnLPct = max stop.peakPnLPct feed.pnlPct := by
  have hmark := mark_eq stop feed.pnlPct feed.pace
  have hcurrent : (stop.mark feed.pnlPct feed.pace).currentPnLPct = feed.pnlPct := by
    rw [hmark]
  have hpeak : (stop.mark feed.pnlPct feed.pace).peakPnLPct =
      max stop.peakPnLPct feed.pnlPct := by
    rw [hmark]
  unfold Stoploss.step
  rcases update_cases stop feed.pnlPct feed.pace with ⟨ht, -⟩ | ⟨-, -, he⟩ | ⟨-, -, -, he⟩ |
    ⟨-, -, -, he⟩
  · exact absurd ht h
  · rw [he]
    exact ⟨StoplossState.noConfusion, hcurrent, hpeak⟩
  · rw [he]
    exact ⟨StoplossState.noConfusion, hcurrent, hpeak⟩
  · rw [he]
    exact ⟨(health_between _ _).1, hcurrent, hpeak⟩

/-- The peak is the highest of the first return and the marks taken. -/
theorem isGreatest_peak (stop : Stoploss) (feeds : List Feed) :
    IsGreatest {pct | pct ∈ stop.peakPnLPct :: stop.processed feeds}
      (runFrom step stop feeds).peakPnLPct := by
  induction feeds generalizing stop with
  | nil => exact ⟨List.mem_cons_self, fun pct hpct => (List.mem_singleton.mp hpct).le⟩
  | cons feed feeds ih =>
    -- a triggered stop sees nothing more
    by_cases hstate : stop.state = .triggered
    · rw [runFrom_triggered hstate, processed, if_pos hstate]
      exact ⟨List.mem_cons_self, fun pct hpct => (List.mem_singleton.mp hpct).le⟩
    · obtain ⟨-, -, hpeak⟩ := step_records hstate feed
      obtain ⟨hmem, hle⟩ := ih (stop.step feed)
      rw [processed_cons hstate, runFrom_cons]
      rw [hpeak] at hmem hle
      constructor
      · rcases List.mem_cons.mp hmem with heq | hmem
        · rw [heq]
          rcases max_choice stop.peakPnLPct feed.pnlPct with hm | hm
          · rw [hm]
            exact List.mem_cons_self
          · rw [hm]
            exact List.mem_cons_of_mem _ List.mem_cons_self
        · exact List.mem_cons_of_mem _ (List.mem_cons_of_mem _ hmem)
      · have htop := hle List.mem_cons_self
        intro pct hpct
        rcases List.mem_cons.mp hpct with rfl | hpct
        · exact (le_max_left _ _).trans htop
        · rcases List.mem_cons.mp hpct with rfl | hpct
          · exact (le_max_right _ _).trans htop
          · exact hle (List.mem_cons_of_mem _ hpct)

/-- The current return is the last mark taken. -/
theorem current_runFrom (stop : Stoploss) (feeds : List Feed) :
    (runFrom step stop feeds).currentPnLPct =
      (stop.processed feeds).getLastD stop.currentPnLPct := by
  induction feeds generalizing stop with
  | nil => rfl
  | cons feed feeds ih =>
    by_cases hstate : stop.state = .triggered
    · rw [runFrom_triggered hstate, processed, if_pos hstate]
      rfl
    · obtain ⟨-, hcurrent, -⟩ := step_records hstate feed
      rw [processed_cons hstate, runFrom_cons, ih, hcurrent, List.getLastD_cons]

/-- A mark at or below the hard rail triggers the stop. -/
theorem step_at_rail {maxLoss : ℚ} {stop : Stoploss} (h : Rails maxLoss stop) {feed : Feed}
    (hfeed : feed.pnlPct ≤ -maxLoss) : (stop.step feed).state = .triggered := by
  have hfloor : feed.pnlPct ≤ (stop.mark feed.pnlPct feed.pace).floorPnLPct := by
    rw [mark_eq]
    exact hfeed.trans (h.loss ▸ le_max_left _ _)
  unfold Stoploss.step
  rcases update_cases stop feed.pnlPct feed.pace with ⟨ht, he⟩ | ⟨-, -, he⟩ | ⟨-, hlt, -, -⟩ |
    ⟨-, hlt, -, -⟩
  · rw [he]
    exact ht
  · rw [he]
  · exact absurd hfloor (not_le.mpr hlt)
  · exact absurd hfloor (not_le.mpr hlt)

/-- After any marks, a stop is no longer new. -/
theorem started {maxLoss : ℚ} {pnl : ℚ} {feeds : List Feed} (hne : feeds ≠ []) :
    (runFrom step (new maxLoss pnl) feeds).state ≠ .init := by
  have hinv : ∀ (stop : Stoploss) (feed : Feed), stop.state ≠ .init →
      (stop.step feed).state ≠ .init := by
    intro stop feed h
    by_cases hstate : stop.state = .triggered
    · have hstep : stop.step feed = stop := if_pos hstate
      rw [hstep]
      exact h
    · exact (step_records hstate feed).1
  cases feeds with
  | nil => exact absurd rfl hne
  | cons feed feeds =>
    exact always_runFrom hinv (step_records (by decide : StoplossState.init ≠ .triggered) feed).1
      feeds

/-- What a stop that was fed `feeds` has become. -/
structure Railed (maxLoss pnl : ℚ) (feeds : List Feed) (stop : Stoploss) : Prop where
  loss : stop.maxLossPct = -maxLoss
  floor : stop.maxLossPct ≤ stop.floorPnLPct
  peak : IsGreatest {pct | pct ∈ pnl :: (new maxLoss pnl).processed feeds} stop.peakPnLPct
  current : stop.currentPnLPct = ((new maxLoss pnl).processed feeds).getLastD pnl
  verdict : feeds ≠ [] → (stop.triggered = false → stop.floorPnLPct < stop.currentPnLPct) ∧
    (stop.triggered = true → stop.currentPnLPct ≤ stop.floorPnLPct)
  absorbing : stop.triggered = true → ∀ more, runFrom step stop more = stop
  hit : (∃ feed ∈ feeds, feed.pnlPct ≤ stop.maxLossPct) → stop.triggered = true

/-- The rails hold after any marks at any paces. -/
theorem rails {maxLoss : ℚ} (hpos : 0 < maxLoss) (pnl : ℚ) (feeds : List Feed) :
    Railed maxLoss pnl feeds (runFrom step (new maxLoss pnl) feeds) := by
  have hrails := rails_runFrom hpos pnl feeds
  refine ⟨hrails.loss, hrails.loss.trans_le hrails.rail, isGreatest_peak _ feeds,
    current_runFrom _ feeds, fun hne => ⟨fun h => ?_, fun h => ?_⟩, fun h => ?_, ?_⟩
  · exact hrails.above (started hne) (of_decide_eq_false h)
  · exact hrails.below (of_decide_eq_true h)
  · exact runFrom_triggered (of_decide_eq_true h)
  · rintro ⟨feed, hmem, hfeed⟩
    rw [hrails.loss] at hfeed
    -- from that mark on the stop stays triggered
    obtain ⟨before, after, rfl⟩ := List.append_of_mem hmem
    have hstep := step_at_rail (rails_runFrom hpos pnl before) hfeed
    rw [runFrom_append, runFrom_cons, runFrom_triggered hstep]
    exact decide_eq_true hstep

/-- A loss past the rail, after a gain. -/
theorem rails_sample : Railed (5 / 2) (-8 / 5) [⟨1, 1⟩, ⟨-3, 2⟩]
    (runFrom step (new (5 / 2) (-8 / 5)) [⟨1, 1⟩, ⟨-3, 2⟩]) :=
  rails (by norm_num) (-8 / 5) [⟨1, 1⟩, ⟨-3, 2⟩]

/-! ## The locked profit -/

/-- The mark is an up-move that stays under the profit target and widens the floor
by more than it holds. -/
def Undercuts (stop : Stoploss) (feed : Feed) : Prop :=
  stop.state ≠ .triggered ∧ stop.currentPnLPct < feed.pnlPct ∧
    feed.pnlPct < stop.profitTargetPct ∧
    stop.floorPnLPct < (feed.pnlPct - stop.currentPnLPct) * feed.pace *
      share (feed.pnlPct - stop.floorPnLPct) (stop.profitTargetPct - stop.maxLossPct)

/-- Marks that do not rise only raise the floor. -/
theorem floor_le_breath {stop : Stoploss} (hspan : stop.maxLossPct < stop.profitTargetPct)
    {pnl pace : ℚ} (hpace : 0 ≤ pace) (hdown : pnl ≤ stop.currentPnLPct) :
    stop.floorPnLPct ≤ stop.breath pnl pace := by
  rcases hdown.eq_or_lt with rfl | hlt
  · rw [breath_still]
  · rw [breath_down hspan hlt]
    have hmove : 0 ≤ (stop.currentPnLPct - pnl) * pace :=
      mul_nonneg (sub_nonneg.mpr hdown) hpace
    have hnear : 0 ≤ 1 - share (pnl - stop.floorPnLPct)
        (stop.profitTargetPct - stop.maxLossPct) := sub_nonneg.mpr (share_le_one _ _)
    exact le_add_of_nonneg_right (mul_nonneg hmove (hnear.trans (le_max_left _ _)))

/-- A floor at or above 0 stays so exactly when the mark does not undercut it. -/
theorem floor_nonneg_step_iff {maxLoss : ℚ} (hpos : 0 < maxLoss) {stop : Stoploss}
    (h : Rails maxLoss stop) {feed : Feed} (hpace : 0 ≤ feed.pace)
    (hfloor : 0 ≤ stop.floorPnLPct) :
    0 ≤ (stop.step feed).floorPnLPct ↔ ¬ stop.Undercuts feed := by
  have hspan := h.span hpos
  have hmark : (stop.mark feed.pnlPct feed.pace).floorPnLPct =
      max stop.maxLossPct (stop.breath feed.pnlPct feed.pace) := by
    rw [mark_eq]
  have hneg : stop.maxLossPct < 0 := by
    rw [h.loss]
    exact neg_lt_zero.mpr hpos
  -- below the target the floor is what breathing leaves
  have hbelow : stop.state ≠ .triggered → feed.pnlPct < stop.profitTargetPct →
      (0 ≤ (stop.mark feed.pnlPct feed.pace).floorPnLPct ↔ ¬ stop.Undercuts feed) := by
    intro hstate htarget
    rw [hmark, le_max_iff, or_iff_right (not_le.mpr hneg)]
    by_cases hup : stop.currentPnLPct < feed.pnlPct
    · rw [breath_up hspan hup, sub_nonneg]
      constructor
      · exact fun hle hunder => absurd hunder.2.2.2 (not_lt.mpr hle)
      · exact fun hnot => not_lt.mp fun hlt => hnot ⟨hstate, hup, htarget, hlt⟩
    · have hdown := floor_le_breath hspan hpace (not_lt.mp hup)
      exact iff_of_true (hfloor.trans hdown) fun hunder => hup hunder.2.1
  unfold step
  rcases update_cases stop feed.pnlPct feed.pace with ⟨ht, he⟩ | ⟨hs, hle, he⟩ |
    ⟨hs, hlt, hprofit, he⟩ | ⟨hs, hlt, hprofit, he⟩
  · rw [he]
    exact iff_of_true hfloor fun hunder => hunder.1 ht
  · rw [he]
    by_cases htarget : feed.pnlPct < stop.profitTargetPct
    · exact hbelow hs htarget
    · have hmade : 0 ≤ feed.pnlPct :=
        hpos.le.trans (h.target ▸ not_lt.mp htarget)
      exact iff_of_true (hmade.trans hle) fun hunder => htarget hunder.2.2.1
  · rw [he]
    exact iff_of_true (le_max_left _ _) fun hunder => absurd hunder.2.2.1 (not_lt.mpr hprofit)
  · rw [he]
    exact hbelow hs hprofit

/-- Once the stop is protected, its floor stays at or above 0 for the rest of the run. -/
def LockKept (stop : Stoploss) (feeds : List Feed) : Prop :=
  ∀ before after, feeds = before ++ after → (runFrom step stop before).state = .locked →
    Everywhere step (fun stop => 0 ≤ stop.floorPnLPct) (runFrom step stop before) after

/-- The locked profit stays locked exactly when no mark after the first that locks it
undercuts the floor. -/
theorem lock_kept_iff {maxLoss : ℚ} (hpos : 0 < maxLoss) (pnl : ℚ) (feeds : List Feed)
    (hpace : ∀ feed ∈ feeds, 0 ≤ feed.pace) :
    (new maxLoss pnl).LockKept feeds ↔
      ∀ before after, feeds = before ++ after →
        (runFrom step (new maxLoss pnl) before).state = .locked →
        Along step (fun stop feed => ¬ stop.Undercuts feed)
          (runFrom step (new maxLoss pnl) before) after := by
  refine forall_congr' fun before => forall_congr' fun after => forall_congr' fun hsplit =>
    forall_congr' fun hlocked => ?_
  have hrails := rails_runFrom hpos pnl before
  have hafter : ∀ feed ∈ after, 0 ≤ feed.pace := fun feed hmem =>
    hpace feed (hsplit ▸ List.mem_append_right before hmem)
  have hkept : ∀ stop feed, Rails maxLoss stop → Rails maxLoss (step stop feed) :=
    fun _ feed h => h.step hpos feed
  refine (everywhere_iff_along hkept (fun _ _ h hp hfloor => ?_) hrails hafter).trans
    (and_iff_right (hrails.lock hlocked))
  exact floor_nonneg_step_iff hpos h hp hfloor

/-- A gain that locks, a slow step back and a quick rise. -/
def sampleRise : List Feed := [⟨5 / 2, 1⟩, ⟨2, 1 / 2⟩, ⟨12 / 5, 3⟩]

/-- On this run the lock is kept if and only if no mark undercuts it. -/
theorem lock_kept_sample : (new (5 / 2) (-8 / 5)).LockKept sampleRise ↔
    ∀ before after, sampleRise = before ++ after →
      (runFrom step (new (5 / 2) (-8 / 5)) before).state = .locked →
      Along step (fun stop feed => ¬ stop.Undercuts feed)
        (runFrom step (new (5 / 2) (-8 / 5)) before) after :=
  lock_kept_iff (by norm_num) (-8 / 5) sampleRise (by
    intro feed hfeed
    simp only [sampleRise, List.mem_cons, List.not_mem_nil, or_false] at hfeed
    rcases hfeed with rfl | rfl | rfl <;> norm_num)

/-- The quick rise pulls the floor below 0. -/
theorem sampleRise_unlocked : ¬ (new (5 / 2) (-8 / 5)).LockKept sampleRise := by
  intro h
  have hlast := (h [⟨5 / 2, 1⟩] [⟨2, 1 / 2⟩, ⟨12 / 5, 3⟩] rfl (by decide +kernel)).last
  exact absurd hlast (by decide +kernel)

/-! ## Tightening at an even pace -/

/-- One mark at the pace of the baseline. -/
def evenStep (stop : Stoploss) (mark : ℚ) : Stoploss := stop.step ⟨mark, 1⟩

/-- A down-move from above the floor leaves the floor below it, and only a mark at or
below the floor in force triggers. -/
structure TightensBelow (stop : Stoploss) (mark : ℚ) : Prop where
  below : stop.triggered = false → mark < stop.currentPnLPct → stop.floorPnLPct < mark →
    (stop.evenStep mark).floorPnLPct < mark
  fair : stop.triggered = false → (stop.evenStep mark).triggered = true →
    mark ≤ stop.floorPnLPct

/-- A fall is too large for the room it leaves above the floor. -/
def Jumps (stop : Stoploss) (mark : ℚ) : Prop :=
  let fall := stop.currentPnLPct - mark
  let room := mark - stop.floorPnLPct
  let span := stop.profitTargetPct - stop.maxLossPct
  stop.triggered = false ∧ 0 < fall ∧ 0 < room ∧
    (span * room ≤ fall * (span - room) ∨ span * room ≤ fall * min span (mark - stop.maxLossPct))

/-- What is left of a span, scaled up. -/
theorem span_mul_rest {span : ℚ} (hspan : 0 < span) (room : ℚ) :
    span * (1 - share room span) = max 0 (min span (span - room)) := by
  unfold share
  rcases le_total room 0 with hneg | hpos
  · have hquot : room / span ≤ 0 := div_nonpos_of_nonpos_of_nonneg hneg hspan.le
    rw [max_eq_left ((min_le_right _ _).trans hquot), sub_zero, mul_one,
      min_eq_left (by linarith), max_eq_right hspan.le]
  · have hquot : 0 ≤ room / span := div_nonneg hpos hspan.le
    rw [max_eq_right (le_min zero_le_one hquot), min_eq_right (a := span) (by linarith)]
    rcases le_total room span with hle | hge
    · rw [min_eq_right ((div_le_one hspan).mpr hle), max_eq_right (sub_nonneg.mpr hle)]
      field_simp
    · rw [min_eq_left ((one_le_div hspan).mpr hge), sub_self, mul_zero,
        max_eq_left (sub_nonpos.mpr hge)]

/-- A fall of a stop in a run tightens past its mark exactly when it jumps. -/
theorem breath_lt_iff {maxLoss : ℚ} (hpos : 0 < maxLoss) {stop : Stoploss}
    (h : Rails maxLoss stop) {mark : ℚ} (hstate : stop.triggered = false)
    (hdown : mark < stop.currentPnLPct) (habove : stop.floorPnLPct < mark) :
    stop.breath mark 1 < mark ↔ ¬ stop.Jumps mark := by
  have hspan := sub_pos.mpr (h.span hpos)
  have hfall := sub_pos.mpr hdown
  have hroom := sub_pos.mpr habove
  have hloss : stop.maxLossPct < mark := h.loss ▸ h.rail.trans_lt habove
  unfold Jumps
  dsimp only
  rw [breath_down (h.span hpos) hdown, mul_one, ← lt_sub_iff_add_lt', mul_max_of_nonneg _ _ hfall.le,
    max_lt_iff]
  generalize stop.currentPnLPct - mark = fall at hfall ⊢
  generalize mark - stop.floorPnLPct = room at hroom ⊢
  have hrest : min (stop.profitTargetPct - stop.maxLossPct)
      (stop.profitTargetPct - stop.maxLossPct - (stop.profitTargetPct - mark)) =
      min (stop.profitTargetPct - stop.maxLossPct) (mark - stop.maxLossPct) := by
    congr 1
    ring
  have hgap : 0 ≤ min (stop.profitTargetPct - stop.maxLossPct) (mark - stop.maxLossPct) :=
    le_min hspan.le (sub_pos.mpr hloss).le
  -- both shares are parts of the span, so the span is multiplied out
  have hscale : ∀ x, fall * (1 - share x (stop.profitTargetPct - stop.maxLossPct)) < room ↔
      fall * max 0 (min (stop.profitTargetPct - stop.maxLossPct)
        (stop.profitTargetPct - stop.maxLossPct - x)) <
        (stop.profitTargetPct - stop.maxLossPct) * room := by
    intro x
    rw [← span_mul_rest hspan x, ← mul_lt_mul_iff_right₀ hspan, mul_left_comm]
  rw [hscale, hscale, hrest, max_eq_right hgap]
  generalize stop.profitTargetPct - stop.maxLossPct = span at hspan ⊢
  -- the floor of the share: an inequality of products, whatever the sign of the rest
  have hfloor : fall * max 0 (min span (span - room)) < span * room ↔
      ¬ span * room ≤ fall * (span - room) := by
    rw [not_le, min_eq_right (by linarith)]
    rcases le_total 0 (span - room) with hle | hge
    · rw [max_eq_right hle]
    · have hpos' : 0 < span * room := mul_pos hspan hroom
      rw [max_eq_left hge, mul_zero]
      exact iff_of_true hpos' ((mul_nonpos_of_nonneg_of_nonpos hfall.le hge).trans_lt hpos')
  rw [hfloor, ← not_le]
  tauto

/-- Marks that do not fall only lower the floor, if they come at the even pace. -/
theorem breath_le_floor {maxLoss : ℚ} (hpos : 0 < maxLoss) {stop : Stoploss}
    (h : Rails maxLoss stop) {mark : ℚ} (hup : stop.currentPnLPct ≤ mark) :
    stop.breath mark 1 ≤ stop.floorPnLPct := by
  rcases hup.eq_or_lt with heq | hlt
  · rw [← heq, breath_still]
  · rw [breath_up (h.span hpos) hlt, mul_one]
    exact sub_le_self _ (mul_nonneg (sub_pos.mpr hlt).le (share_nonneg _ _))

/-- A mark that leaves its floor below does not trigger, and the other way round. -/
theorem evenStep_floor_iff {maxLoss : ℚ} (hpos : 0 < maxLoss) {stop : Stoploss}
    (h : Rails maxLoss stop) {mark : ℚ} (hstate : stop.triggered = false)
    (habove : stop.floorPnLPct < mark) :
    ((stop.evenStep mark).floorPnLPct < mark ↔ stop.breath mark 1 < mark) ∧
      ((stop.evenStep mark).triggered = false ↔ stop.breath mark 1 < mark) := by
  have hfloor : (stop.mark mark 1).floorPnLPct < mark ↔ stop.breath mark 1 < mark := by
    rw [mark_eq]
    exact max_lt_iff.trans (and_iff_right (h.loss ▸ h.rail.trans_lt habove))
  unfold evenStep step
  rcases update_cases stop mark 1 with ⟨ht, -⟩ | ⟨-, hle, he⟩ | ⟨-, hlt, hprofit, he⟩ |
    ⟨-, hlt, -, he⟩
  · exact absurd ht (of_decide_eq_false hstate)
  · have hnot : ¬ stop.breath mark 1 < mark := fun hb => absurd (hfloor.mpr hb) (not_lt.mpr hle)
    rw [he]
    exact ⟨hfloor, iff_of_false (fun ht => by cases ht) hnot⟩
  · have hmade : 0 < mark := hpos.trans_le (h.target ▸ hprofit)
    rw [he]
    exact ⟨iff_of_true (max_lt hmade hlt) (hfloor.mp hlt), iff_of_true rfl (hfloor.mp hlt)⟩
  · rw [he]
    exact ⟨hfloor, iff_of_true (decide_eq_false (health_between _ _).2.2) (hfloor.mp hlt)⟩

/-- Tightening stays below the mark exactly if it does not jump over it. -/
theorem tightensBelow_iff {maxLoss : ℚ} (hpos : 0 < maxLoss) {stop : Stoploss}
    (h : Rails maxLoss stop) (mark : ℚ) : stop.TightensBelow mark ↔ ¬ stop.Jumps mark := by
  constructor
  · intro ht hjump
    have ⟨hstate, hfall, hroom, _⟩ := hjump
    have hbelow := ht.below hstate (sub_pos.mp hfall) (sub_pos.mp hroom)
    have hbreath := (evenStep_floor_iff hpos h hstate (sub_pos.mp hroom)).1.mp hbelow
    exact (breath_lt_iff hpos h hstate (sub_pos.mp hfall) (sub_pos.mp hroom)).mp hbreath hjump
  · intro hnot
    refine ⟨fun hstate hdown habove => ?_, fun hstate htriggered => ?_⟩
    · have hbreath := (breath_lt_iff hpos h hstate hdown habove).mpr hnot
      exact (evenStep_floor_iff hpos h hstate habove).1.mpr hbreath
    · by_contra habove
      have habove := not_le.mp habove
      have hbreath : stop.breath mark 1 < mark := by
        rcases lt_or_ge mark stop.currentPnLPct with hdown | hup
        · exact (breath_lt_iff hpos h hstate hdown habove).mpr hnot
        · exact (breath_le_floor hpos h hup).trans_lt habove
      rw [(evenStep_floor_iff hpos h hstate habove).2.mpr hbreath] at htriggered
      cases htriggered

/-- At an even pace, every mark of a run tightens below itself exactly when none of
them jumps. -/
theorem tightens_below_iff {maxLoss : ℚ} (hpos : 0 < maxLoss) (pnl : ℚ) (marks : List ℚ) :
    Along evenStep TightensBelow (new maxLoss pnl) marks ↔
      Along evenStep (fun stop mark => ¬ stop.Jumps mark) (new maxLoss pnl) marks := by
  have hkept : ∀ stop mark, Rails maxLoss stop → TightensBelow stop mark →
      Rails maxLoss (evenStep stop mark) := fun _ mark h _ => h.step hpos ⟨mark, 1⟩
  exact along_iff_of_inv hkept (fun _ mark h => tightensBelow_iff hpos h mark)
    (rails_new maxLoss pnl) marks

/-- A rise and a fall that stays above the floor. -/
theorem tightens_below_sample :
    Along evenStep TightensBelow (new (5 / 2) (-8 / 5)) [2, -2] ↔
      Along evenStep (fun stop mark => ¬ stop.Jumps mark) (new (5 / 2) (-8 / 5)) [2, -2] :=
  tightens_below_iff (by norm_num) (-8 / 5) [2, -2]

/-- The fall pulls the floor past its own mark. -/
theorem sampleFall_jumps : ¬ Along evenStep TightensBelow (new (5 / 2) (-8 / 5)) [2, -2] := by
  intro h
  have hbelow := h.2.1.below (by decide +kernel) (by decide +kernel) (by decide +kernel)
  exact absurd hbelow (by decide +kernel)

end Stoploss

end Symm.Broker
