import Mathlib.Algebra.Order.Group.Int
import Symm.Kraken.Nonce

/-!
# Nonces are never shared or reordered

The high-water mark only grows, a call wins its nonce by moving it, and a nonce
that was won is at most the mark ever after.

- `Sound`: the invariant on a call, `Apart` the one on two calls;
- `nonces_ordered`: under every interleaving the nonces returned are distinct,
  above the persisted mark, and in the order of calls that do not overlap.

A call reads the mark and the clock, and moves the mark from what it read to one above
or to the clock, whichever is later, by a compare-and-swap. A swap that fails begins
again. So the nonces that calls have won are ordered by the swaps, whoever returns
first.

- `Below`: the step does not leave the 64 bits;
- `Above`: what a call has won is at most the mark, and above the mark that it read;
- `next_cases`: all that one turn can do;
- `preserves_above`: the invariant on each call, as `Lib.Threads` asks for it.
-/

namespace Symm.Kraken

open Symm.Lib

/-- The nonce a call has won. -/
def Stage.won? : Stage → Option Int64
  | .won next | .due next _ | .holding next _ | .stamped next | .written next
  | .returned next => some next
  | _ => none

/-- The step does not leave the 64 bits: the mark a call counts up from is below
the largest value. -/
def Below (_ : Outside) (_ : AuthNonce) : Stage → Prop
  | .loaded last => last.toInt + 1 < 2 ^ 63
  | _ => True

instance (x : Outside) (nonce : AuthNonce) : (stage : Stage) → Decidable (Below x nonce stage)
  | .loaded last => inferInstanceAs (Decidable (last.toInt + 1 < 2 ^ 63))
  | .idle | .called | .timed _ _ | .won _ | .due _ _ | .holding _ _ | .stamped _ | .written _
  | .returned _ => isTrue trivial

/-- A call that read the mark after it had reached `low` wins a nonce above it. -/
def Above (low : Int) (nonce : AuthNonce) (stage : Stage) : Prop :=
  match stage with
  | .idle | .called => True
  | .loaded last => low ≤ last.toInt ∧ last.toInt ≤ nonce.highWater.toInt
  | .timed last next =>
    low ≤ last.toInt ∧ last.toInt < next.toInt ∧ last.toInt ≤ nonce.highWater.toInt
  | stage => ∀ n, stage.won? = some n → low < n.toInt ∧ n.toInt ≤ nonce.highWater.toInt

/-- Two calls have not won the same nonce. -/
def Apart (stage stage' : Stage) : Prop :=
  ∀ n m, stage.won? = some n → stage'.won? = some m → n ≠ m

/-- Below the largest `int64` adding one does not wrap. -/
theorem toInt_add_one {last : Int64} (h : last.toInt + 1 < 2 ^ 63) :
    (last + 1).toInt = last.toInt + 1 := by
  have hone : Int64.toInt 1 = 1 := by decide
  have hlow := last.le_toInt
  rw [Int64.toInt_add, hone, Int.bmod_eq_of_le (by omega) (by omega)]

/-- So what `Next` tries is above the high water it read. -/
theorem lt_max_add_one {clock last : Int64} (h : last.toInt + 1 < 2 ^ 63) :
    last.toInt < (max clock (last + 1)).toInt := by
  have hadd := toInt_add_one h
  show last.toInt < (if clock ≤ last + 1 then last + 1 else clock).toInt
  split
  · omega
  · rename_i hlt
    rw [Int64.le_iff_toInt_le] at hlt
    omega

/-- A turn moves the mark only by winning a nonce above it. -/
theorem next_cases (x : Outside) (nonce : AuthNonce) (stage : Stage) :
    (∃ last n, stage = .timed last n ∧ nonce.highWater = last ∧
      next x nonce stage = ({ nonce with highWater := n }, .won n)) ∨
    ((next x nonce stage).1.highWater = nonce.highWater ∧
      (next x nonce stage).2.won? = stage.won?) := by
  cases stage with
  | timed last n =>
    by_cases heq : nonce.highWater = last
    · exact .inl ⟨last, n, rfl, heq, if_pos heq⟩
    · right
      dsimp only [next]
      rw [if_neg heq]
      exact ⟨rfl, rfl⟩
  | won n =>
    right
    dsimp only [next]
    split <;> exact ⟨rfl, rfl⟩
  | due n now =>
    right
    dsimp only [next]
    split <;> exact ⟨rfl, rfl⟩
  | stamped n =>
    right
    dsimp only [next]
    split <;> exact ⟨rfl, rfl⟩
  | _ => exact .inr ⟨rfl, rfl⟩

/-- What a call has seen and won stays right while the mark grows. -/
theorem Above.mono {low : Int} {nonce nonce' : AuthNonce} {stage : Stage}
    (h : Above low nonce stage) (hle : nonce.highWater.toInt ≤ nonce'.highWater.toInt) :
    Above low nonce' stage := by
  cases stage with
  | idle => trivial
  | called => trivial
  | loaded last => exact ⟨h.1, h.2.trans hle⟩
  | timed last n => exact ⟨h.1, h.2.1, h.2.2.trans hle⟩
  | _ => exact fun n hn => ⟨(h n hn).1, (h n hn).2.trans hle⟩

/-- A stage that has won holds a nonce above the bound and below the high water. -/
theorem Above.bounds {low : Int} {nonce : AuthNonce} {stage : Stage} (h : Above low nonce stage)
    {n : Int64} (hn : stage.won? = some n) : low < n.toInt ∧ n.toInt ≤ nonce.highWater.toInt := by
  cases stage with
  | idle => cases hn
  | called => cases hn
  | loaded last => cases hn
  | timed last next => cases hn
  | _ => exact h n hn

/-- And that is all there is to it. -/
theorem above_of_won {low : Int} {nonce : AuthNonce} {stage : Stage} {n : Int64}
    (hn : stage.won? = some n) (h : low < n.toInt ∧ n.toInt ≤ nonce.highWater.toInt) :
    Above low nonce stage := by
  cases stage with
  | idle => trivial
  | called => trivial
  | loaded last => cases hn
  | timed last next => cases hn
  | _ =>
    intro m hm
    cases hn.symm.trans hm
    exact h

/-- Without a nonce a call is before its race. -/
theorem Above.next {low : Int} {x : Outside} {nonce : AuthNonce} {stage : Stage}
    (hbelow : Below x nonce stage) (hlow : low ≤ nonce.highWater.toInt)
    (h : Above low nonce stage) :
    Above low (Kraken.next x nonce stage).1 (Kraken.next x nonce stage).2 := by
  rcases next_cases x nonce stage with ⟨last, n, rfl, -, he⟩ | ⟨hmark, hwon⟩
  · have hlast : low < n.toInt := lt_of_le_of_lt h.1 h.2.1
    rw [he]
    exact above_of_won rfl ⟨hlast, le_refl _⟩
  · cases hn : stage.won? with
    | some n =>
      have hbounds := h.bounds hn
      rw [← hmark] at hbounds
      exact above_of_won (hwon.trans hn) hbounds
    | none =>
      cases stage with
      | idle => trivial
      | called => exact ⟨hlow, le_refl _⟩
      | loaded last => exact ⟨h.1, lt_max_add_one hbelow, h.2⟩
      | timed last n =>
        dsimp only [Kraken.next] at hwon ⊢
        split
        · rename_i heq
          rw [if_pos heq] at hwon
          cases hwon
        · trivial
      | _ => cases hn

/-- The mark never falls. -/
theorem highWater_mono {low : Int} {x : Outside} {nonce : AuthNonce} {stage : Stage}
    (h : Above low nonce stage) :
    nonce.highWater.toInt ≤ (Kraken.next x nonce stage).1.highWater.toInt := by
  rcases next_cases x nonce stage with ⟨last, n, rfl, hlast, he⟩ | ⟨hmark, -⟩
  · rw [he, hlast]
    exact h.2.1.le
  · rw [hmark]

/-- The calls of `later` read the mark after it had reached `low`, the others after it
had reached `base`. -/
theorem preserves_above (base low : Int) (later : ℕ → Bool) :
    Threads.Preserves next Below
      (fun nonce => base ≤ nonce.highWater.toInt ∧ low ≤ nonce.highWater.toInt)
      (fun i => Above (if later i then low else base)) Apart where
  shared _ x nonce stage _ hmark h := by
    have hle := highWater_mono (x := x) h
    exact ⟨hmark.1.trans hle, hmark.2.trans hle⟩
  own i _ _ _ hbelow hmark h := by
    refine h.next hbelow ?_
    split
    · exact hmark.2
    · exact hmark.1
  other _ _ _ _ _ _ _ _ _ h h' _ _ := h'.mono (highWater_mono h)
  pair i j x nonce stage stage' _ _ _ h h' hp hp' := by
    rcases next_cases x nonce stage with ⟨last, n, rfl, hlast, he⟩ | ⟨-, hwon⟩
    · -- the new nonce is above the mark, where all others are
      have hfresh : ∀ m, stage'.won? = some m → n ≠ m := by
        rintro m hm rfl
        have hle := (h'.bounds hm).2
        have hlt := h.2.1
        rw [hlast] at hle
        omega
      rw [he]
      refine ⟨fun a b ha hb => ?_, fun a b ha hb => ?_⟩
      · cases ha
        exact hfresh b hb
      · cases hb
        exact (hfresh a ha).symm
    · refine ⟨fun a b ha hb => ?_, fun a b ha hb => ?_⟩
      · exact hp a b (hwon.symm.trans ha) hb
      · exact hp' a b ha (hwon.symm.trans hb)

/-- Every turn of the run stays below `2 ^ 63`. -/
def AllBelow (calls : Calls) (events : List (ℕ × Outside)) : Prop :=
  Along turn (fun calls e => Below e.2 calls.shared (calls.calls e.1)) calls events

instance (calls : Calls) (events : List (ℕ × Outside)) : Decidable (AllBelow calls events) :=
  inferInstanceAs (Decidable (Along _ _ _ _))

/-- The call has returned this nonce. -/
def Returned (calls : Calls) (i : ℕ) (n : Int64) : Prop := calls.calls i = .returned n

/-- Of the nonces a run returns: none is the persisted mark or below, none is shared,
and a call that starts after another returned gets a larger one. -/
structure Ordered (persisted : Int64) (calls : Calls) (events : List (ℕ × Outside)) : Prop where
  above : ∀ i n, Returned (runFrom turn calls events) i n → persisted < n
  distinct : ∀ i j n m, i ≠ j → Returned (runFrom turn calls events) i n →
    Returned (runFrom turn calls events) j m → n ≠ m
  ordered : ∀ before after, events = before ++ after → ∀ i j n m,
    Returned (runFrom turn calls before) i n → (runFrom turn calls before).calls j = .idle →
    Returned (runFrom turn calls events) j m → n < m

/-- The invariant of a run of a new generator, over a mark at or below its own. -/
theorem inv_fresh {nonce : AuthNonce} {base : Int} (h : base ≤ nonce.highWater.toInt)
    {events : List (ℕ × Outside)} (hbelow : AllBelow nonce.fresh events) :
    (runFrom turn nonce.fresh events).Inv
      (fun nonce => base ≤ nonce.highWater.toInt ∧ base ≤ nonce.highWater.toInt)
      (fun _ => Above (if false then base else base)) Apart :=
  inv_runFrom_turns (preserves_above base base fun _ => false)
    ⟨⟨h, h⟩, fun _ => by split <;> trivial, fun _ _ _ _ _ hn => by cases hn⟩ hbelow

/-- Nonces are neither shared nor reordered, whatever the clock reads. -/
theorem nonces_ordered {file : NonceFile} {now persisted : Int64} {nonce : AuthNonce}
    (hload : loadNonce file = .ok persisted) (hnew : newAuthNonce file now = .ok nonce)
    (events : List (ℕ × Outside)) (hbelow : AllBelow nonce.fresh events) :
    Ordered persisted nonce.fresh events := by
  have hmark : persisted.toInt ≤ nonce.highWater.toInt := by
    rw [(highWater_newAuthNonce hload hnew).1]
    exact le_max_left _ _
  have hinv := inv_fresh hmark hbelow
  refine ⟨fun i n hn => ?_, fun i j n m hij hn hm => ?_, fun before after hsplit i j n m hn hj hm => ?_⟩
  · rw [Int64.lt_iff_toInt_lt]
    exact ((hinv.call i).bounds (by rw [hn]; rfl)).1
  · exact hinv.pair i j hij n m (by rw [hn]; rfl) (by rw [hm]; rfl)
  · subst hsplit
    obtain ⟨hbefore, hafter⟩ := along_append.mp hbelow
    have hinv := inv_fresh hmark hbefore
    have hle := ((hinv.call i).bounds (by rw [hn]; rfl)).2
    -- from there on the calls not yet made stay above the nonce returned
    have hlater := inv_runFrom_turns
      (preserves_above persisted.toInt n.toInt fun k =>
        (runFrom turn nonce.fresh before).calls k = .idle)
      ⟨⟨hinv.shared.1, hle⟩, fun k => ?_, hinv.pair⟩ hafter
    · rw [runFrom_append] at hm
      have hcall := (hlater.call j).bounds (n := m) (by rw [hm]; rfl)
      rw [if_pos (decide_eq_true hj)] at hcall
      rw [Int64.lt_iff_toInt_lt]
      exact hcall.1
    · split
      · rename_i hidle
        rw [of_decide_eq_true hidle]
        trivial
      · exact hinv.call k

/-- Two calls on a clock that steps back, the second starting after the first returned. -/
def sampleTurns : List (ℕ × Outside) :=
  List.replicate 9 (0, ⟨1000, 900000000, true⟩) ++ List.replicate 5 (1, ⟨10, 900000000, true⟩)

theorem nonces_ordered_sample :
    Ordered 300 (AuthNonce.fresh ⟨899, false, 0, false, .holds "300\n"⟩) sampleTurns :=
  @nonces_ordered (.holds "300\n") 900 300 _ rfl rfl sampleTurns (by decide +kernel)

end Symm.Kraken
