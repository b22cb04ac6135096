import Symm.Kraken.NonceOrder

/-!
# Nonces across a crash

A crash keeps only the file. `NewAuthNonce` starts the next life above the mark
it finds there, or at the wall clock if that is later, and adds nothing for the
nonces that `persistValue` left unwritten.

- `RestartKeeps`: whatever the next life does, its nonces are above the earlier ones;
- `Covered`: what the file or the wall clock at the restart must have reached;
- `restart_keeps_iff`: the two are the same;
- `covered_of_persisting`: runs in which every nonce is written, in order.

`Filed` is what holds of the file where every nonce is written, in order: a call that
returns finds its own in the file, or a later one. Throttled nonces are in no file, and
they are all that a crash can lose, since the next life starts above what the file has.
-/

namespace Symm.Kraken

open Symm.Lib

/-- Every write of the run succeeds. -/
def AllWritten (events : List (ℕ × Outside)) : Prop := ∀ e ∈ events, e.2.writes = true

instance (events : List (ℕ × Outside)) : Decidable (AllWritten events) :=
  inferInstanceAs (Decidable (∀ e ∈ events, e.2.writes = true))

/-- Every nonce of a generator restarted over the file of the crash is greater than
every nonce returned before. -/
def RestartKeeps (crashed : Calls) (restart : Int64) : Prop :=
  ∀ nonce, newAuthNonce crashed.shared.file restart = .ok nonce →
    ∀ events, AllBelow nonce.fresh events → AllWritten events →
      ∀ i n j m, Returned crashed i n → Returned (runFrom turn nonce.fresh events) j m → n < m

/-- Each nonce returned before the crash is at most the mark in the file, or the wall
clock has passed it at the restart. -/
def Covered (crashed : Calls) (restart : Int64) : Prop :=
  ∀ i n, Returned crashed i n →
    (∃ mark, loadNonce crashed.shared.file = .ok mark ∧ n ≤ mark) ∨ n < restart

/-! ## The file of a run -/

/-- The file a turn leaves: its own nonce, or as it was. -/
theorem file_next (x : Outside) (nonce : AuthNonce) (stage : Stage) :
    (∃ n, stage = .stamped n ∧ x.writes = true ∧
      next x nonce stage = ({ nonce with file := .holds (render n) }, .written n)) ∨
    (next x nonce stage).1.file = nonce.file := by
  cases stage with
  | stamped n =>
    by_cases hw : x.writes = true
    · exact .inl ⟨n, rfl, hw, if_pos hw⟩
    · right
      dsimp only [next]
      rw [if_neg hw]
  | timed last n =>
    right
    dsimp only [next]
    split <;> rfl
  | won n =>
    right
    dsimp only [next]
    split <;> rfl
  | due n now =>
    right
    dsimp only [next]
    split <;> rfl
  | _ => exact .inr rfl

/-- The nonces a turn writes are loaded again. -/
theorem preserves_loads {base : Int} (hbase : 0 ≤ base) :
    Threads.Preserves next Below
      (fun nonce => base ≤ nonce.highWater.toInt ∧ ∃ mark, loadNonce nonce.file = .ok mark)
      (fun _ => Above base) Apart where
  shared i x nonce stage hok h hcall := by
    refine ⟨h.1.trans (highWater_mono hcall), ?_⟩
    rcases file_next x nonce stage with ⟨n, rfl, -, he⟩ | hfile
    · have hn := (hcall n rfl).1
      rw [he]
      exact ⟨n, loadNonce_render (by omega)⟩
    · rw [hfile]
      exact h.2
  own _ _ _ _ hok h hcall := hcall.next hok h.1
  other _ _ _ _ _ _ _ _ _ hcall h' _ _ := h'.mono (highWater_mono hcall)
  pair i j x nonce stage stage' hji hok h :=
    (preserves_above base base fun _ => false).pair i j x nonce stage stage' hji hok ⟨h.1, h.1⟩

/-- The file of a run loads. -/
theorem loads_run {file : NonceFile} {now persisted : Int64} {nonce : AuthNonce}
    (hload : loadNonce file = .ok persisted) (hnew : newAuthNonce file now = .ok nonce)
    {events : List (ℕ × Outside)} (hbelow : AllBelow nonce.fresh events) :
    ∃ mark, loadNonce (runFrom turn nonce.fresh events).shared.file = .ok mark := by
  obtain ⟨hmark, hfile, -⟩ := highWater_newAuthNonce hload hnew
  have hsign := loadNonce_nonneg hload
  have hlow : persisted.toInt ≤ nonce.highWater.toInt := hmark ▸ le_max_left _ _
  have hstart : nonce.fresh.Inv (fun nonce => persisted.toInt ≤ nonce.highWater.toInt ∧
      ∃ mark, loadNonce nonce.file = .ok mark) (fun _ => Above persisted.toInt) Apart :=
    ⟨⟨hlow, persisted, hfile ▸ hload⟩, fun _ => trivial, fun _ _ _ _ _ hn => by cases hn⟩
  exact (inv_runFrom_turns (preserves_loads hsign) hstart hbelow).shared.2

/-- A generator that starts has a mark to start from. -/
theorem loads_of_new {file : NonceFile} {now : Int64} {nonce : AuthNonce}
    (hnew : newAuthNonce file now = .ok nonce) : ∃ mark, loadNonce file = .ok mark := by
  unfold newAuthNonce at hnew
  cases hload : loadNonce file with
  | error err =>
    rw [hload] at hnew
    cases hnew
  | ok mark => exact ⟨mark, rfl⟩

/-! ## One call after the restart -/

/-- Once a call has its nonce it returns it within five turns, if it runs alone. -/
theorem won_alone (x : Outside) {nonce : AuthNonce} (hfree : nonce.isPersisting = false)
    (n : Int64) :
    (runFrom (alone next) (nonce, .won n) (List.replicate 5 x)).2 = .returned n := by
  show (alone next (alone next (alone next (alone next (alone next (nonce, .won n) x) x) x) x)
    x).2 = _
  by_cases hthrottled : nonce.throttles n x.wall = true
  · have hreturn : alone next (nonce, .won n) x = (nonce, .returned n) := if_pos hthrottled
    rw [hreturn]
    rfl
  · have hdue : alone next (nonce, .won n) x = (nonce, .due n x.wall) := if_neg hthrottled
    have hhold : alone next (nonce, .due n x.wall) x =
        ({ nonce with isPersisting := true }, .holding n x.wall) := by
      unfold alone next
      dsimp only
      rw [hfree]
      rfl
    rw [hdue, hhold]
    show (alone next (next x _ (.stamped n)) x).2 = _
    dsimp only [next]
    split <;> rfl

/-- A call that runs alone returns the clock's reading, or the mark plus one. -/
theorem next_alone (x : Outside) {nonce : AuthNonce} (hfree : nonce.isPersisting = false) :
    (runFrom (alone next) (nonce, .idle) (List.replicate 9 x)).2 =
      .returned (max x.clock (nonce.highWater + 1)) := by
  have hwin : alone next (nonce, .timed nonce.highWater (max x.clock (nonce.highWater + 1))) x =
      ({ nonce with highWater := max x.clock (nonce.highWater + 1) },
        .won (max x.clock (nonce.highWater + 1))) := if_pos rfl
  have hafter := @won_alone x { nonce with highWater := max x.clock (nonce.highWater + 1) } hfree
    (max x.clock (nonce.highWater + 1))
  rw [← hwin] at hafter
  exact hafter

/-- Only a call that has not won its nonce yet counts up. -/
theorem below_of_won (xs : List Outside) {p : AuthNonce × Stage} (hwon : p.2.won?.isSome) :
    Along (alone next) (fun p x => Below x p.1 p.2) p xs := by
  induction xs generalizing p with
  | nil => trivial
  | cons x xs ih =>
    obtain ⟨nonce, stage⟩ := p
    refine ⟨?_, ih ?_⟩
    · cases stage with
      | loaded last => cases hwon
      | _ => trivial
    · rcases next_cases x nonce stage with ⟨last, n, -, -, he⟩ | ⟨-, hkept⟩
      · show (next x nonce stage).2.won?.isSome
        rw [he]
        rfl
      · show (next x nonce stage).2.won?.isSome
        rw [hkept]
        exact hwon

/-- A call that runs alone stays below `2 ^ 63` if the mark does. -/
theorem below_alone (x : Outside) {nonce : AuthNonce}
    (hmark : nonce.highWater.toInt + 1 < 2 ^ 63) :
    Along (alone next) (fun p x => Below x p.1 p.2) (nonce, .idle) (List.replicate 9 x) := by
  have hwin : alone next (nonce, .timed nonce.highWater (max x.clock (nonce.highWater + 1))) x =
      ({ nonce with highWater := max x.clock (nonce.highWater + 1) },
        .won (max x.clock (nonce.highWater + 1))) := if_pos rfl
  have hafter := below_of_won (List.replicate 5 x)
    (p := alone next (nonce, .timed nonce.highWater (max x.clock (nonce.highWater + 1))) x)
    (by rw [hwin]; rfl)
  exact ⟨trivial, trivial, hmark, trivial, hafter⟩

/-! ## The restart -/

/-- After a restart at or above every nonce returned before, later nonces are greater. -/
theorem restart_keeps_of_covered {crashed : Calls} {restart : Int64}
    (hcovered : Covered crashed restart) : RestartKeeps crashed restart := by
  intro nonce hnew events hbelow _ i n j m hn hm
  obtain ⟨mark, hload⟩ := loads_of_new hnew
  have hstart := (highWater_newAuthNonce hload hnew).1
  have hle : n.toInt ≤ nonce.highWater.toInt := by
    rw [hstart]
    rcases hcovered i n hn with ⟨mark', hload', hle⟩ | hlt
    · cases hload.symm.trans hload'
      rw [Int64.le_iff_toInt_le] at hle
      exact le_max_of_le_left hle
    · rw [Int64.lt_iff_toInt_lt] at hlt
      exact le_max_of_le_right (by omega)
  have hinv := inv_fresh hle hbelow
  have hbounds := (hinv.call j).bounds (n := m) (by rw [hm]; rfl)
  rw [Int64.lt_iff_toInt_lt]
  exact hbounds.1

/-- Restarted nonces are above the earlier ones, whatever happens after the restart,
exactly when the file or the wall clock at the restart has reached every nonce
returned before the crash. -/
theorem restart_keeps_iff {file : NonceFile} {now : Int64} {nonce : AuthNonce}
    (hnew : newAuthNonce file now = .ok nonce) (events : List (ℕ × Outside))
    (hbelow : AllBelow nonce.fresh events) (restart : Int64) :
    RestartKeeps (runFrom turn nonce.fresh events) restart ↔
      Covered (runFrom turn nonce.fresh events) restart := by
  refine ⟨fun hkeeps i n hn => ?_, restart_keeps_of_covered⟩
  obtain ⟨persisted, hload⟩ := loads_of_new hnew
  obtain ⟨mark, hmark⟩ := loads_run hload hnew hbelow
  by_contra hnot
  rw [not_or] at hnot
  have hfile : mark.toInt < n.toInt := by
    by_contra hle
    exact hnot.1 ⟨mark, hmark, Int64.le_iff_toInt_le.mpr (not_lt.mp hle)⟩
  have hclock : restart.toInt ≤ n.toInt := by
    rw [← Int64.le_iff_toInt_le]
    exact Int64.not_lt.mp hnot.2
  -- the restarted generator hands out the nonce after its mark to its first caller
  obtain ⟨again, hagain⟩ : ∃ again,
      newAuthNonce (runFrom turn nonce.fresh events).shared.file restart = .ok again := by
    unfold newAuthNonce
    rw [hmark]
    exact ⟨_, rfl⟩
  obtain ⟨hstart, -, hfree⟩ := highWater_newAuthNonce hmark hagain
  have hrange := n.toInt_lt
  have hlow : again.highWater.toInt + 1 ≤ n.toInt := by
    rw [hstart]
    omega
  let slow : Outside := ⟨Int64.minValue, 0, true⟩
  have hfirst : runFrom turn again.fresh ((List.replicate 9 slow).map (Prod.mk 0)) = _ :=
    runFrom_turns_alone again.fresh 0 (List.replicate 9 slow)
  have hreturned : Returned (runFrom turn again.fresh ((List.replicate 9 slow).map (Prod.mk 0))) 0
      (max slow.clock (again.highWater + 1)) := by
    unfold Returned
    rw [hfirst]
    dsimp only
    rw [Function.update_self]
    exact next_alone slow hfree
  have hroom : again.highWater.toInt + 1 < 2 ^ 63 := by omega
  have halone : AllBelow again.fresh ((List.replicate 9 slow).map (Prod.mk 0)) :=
    (along_turns_alone again.fresh 0 _).mpr (below_alone slow hroom)
  have hwrites : AllWritten ((List.replicate 9 slow).map (Prod.mk 0)) := by
    intro e he
    obtain ⟨x, hx, rfl⟩ := List.mem_map.mp he
    rw [List.eq_of_mem_replicate hx]
  have hlt := hkeeps again hagain _ halone hwrites i n 0 _ hn hreturned
  have hadd := toInt_add_one hroom
  have hmax : max slow.clock (again.highWater + 1) = again.highWater + 1 :=
    if_pos (Int64.minValue_le _)
  rw [hmax, Int64.lt_iff_toInt_lt, hadd] at hlt
  omega

/-- Two calls within 50 ms, and a clock that is one nanosecond back at the restart. -/
def sampleBurst : List (ℕ × Outside) :=
  List.replicate 9 (0, ⟨1000000000000000000, 1000000000000000000, true⟩) ++
    List.replicate 9 (1, ⟨1000000000000000001, 1000000000000000001, true⟩)

def sampleNonce : AuthNonce := ⟨999999999999999999, false, 0, false, .missing⟩

/-- A burst within the throttle, and a crash after it. -/
theorem restart_keeps_sample :
    RestartKeeps (runFrom turn sampleNonce.fresh sampleBurst) 1000000000000000000 ↔
      Covered (runFrom turn sampleNonce.fresh sampleBurst) 1000000000000000000 :=
  @restart_keeps_iff .missing 1000000000000000000 _ rfl sampleBurst (by decide +kernel) _

/-- The second nonce was not written, and is handed out again. -/
theorem sampleBurst_repeats :
    ¬ RestartKeeps (runFrom turn sampleNonce.fresh sampleBurst) 1000000000000000000 := by
  intro h
  have hlt := h ⟨1000000000000000000, false, 0, false, .holds "1000000000000000000\n"⟩ rfl
    (List.replicate 9 (0, ⟨1000000000000000000, 1000000000000000000, true⟩))
    (by decide +kernel) (by decide +kernel) 1 1000000000000000001 0 1000000000000000001 rfl rfl
  exact absurd hlt (by decide)

/-! ## Runs that write every nonce -/

/-- The turn leaves no nonce behind the file: none is throttled or skipped for another
write, and each write succeeds over a smaller mark. -/
def Persists (x : Outside) (nonce : AuthNonce) : Stage → Prop
  | .won n => nonce.throttles n x.wall = false
  | .due _ _ => nonce.isPersisting = false
  | .stamped n => x.writes = true ∧ ∀ mark, loadNonce nonce.file = .ok mark → mark ≤ n
  | _ => True

/-- A nonce that is written or returned is at most the mark in the file. -/
def Filed (nonce : AuthNonce) : Stage → Prop
  | .written n | .returned n => ∃ mark, loadNonce nonce.file = .ok mark ∧ n ≤ mark
  | _ => True

/-- A turn that persists keeps every nonce filed that was. -/
theorem Filed.next {x : Outside} {nonce : AuthNonce} {stage other : Stage}
    (hpersists : Persists x nonce stage) {base : Int} (hbase : 0 ≤ base)
    (hcall : Above base nonce stage) (h : Filed nonce other) :
    Filed (Kraken.next x nonce stage).1 other := by
  rcases file_next x nonce stage with ⟨n, rfl, -, he⟩ | hfile
  · have hload : loadNonce (.holds (render n)) = .ok n := by
      have hn := (hcall n rfl).1
      exact loadNonce_render (by omega)
    have hgrows : ∀ m, (∃ mark, loadNonce nonce.file = .ok mark ∧ m ≤ mark) →
        ∃ mark, loadNonce (.holds (render n)) = .ok mark ∧ m ≤ mark := by
      rintro m ⟨mark, hmark, hle⟩
      exact ⟨n, hload, Int64.le_trans hle (hpersists.2 mark hmark)⟩
    rw [he]
    cases other with
    | written m => exact hgrows m h
    | returned m => exact hgrows m h
    | _ => trivial
  · cases other with
    | written m =>
      show ∃ mark, loadNonce _ = _ ∧ _
      rw [hfile]
      exact h
    | returned m =>
      show ∃ mark, loadNonce _ = _ ∧ _
      rw [hfile]
      exact h
    | _ => trivial

/-- While calls overlap, whatever one has filed stays filed, and its stages stay above the
base. -/
theorem preserves_filed {base : Int} (hbase : 0 ≤ base) :
    Threads.Preserves next (fun x nonce stage => Below x nonce stage ∧ Persists x nonce stage)
      (fun nonce => base ≤ nonce.highWater.toInt)
      (fun _ nonce stage => Above base nonce stage ∧ Filed nonce stage) Apart where
  shared _ _ _ _ _ h hcall := h.trans (highWater_mono hcall.1)
  own i x nonce stage hok h hcall := by
    refine ⟨hcall.1.next hok.1 h, ?_⟩
    have hkept := hcall.2.next hok.2 hbase hcall.1
    cases stage with
    -- the file is written before the stamp can be seen
    | stamped n =>
      have hn := (hcall.1 n rfl).1
      dsimp only [next]
      rw [if_pos hok.2.1]
      exact ⟨n, loadNonce_render (by omega), Int64.le_refl n⟩
    -- the other stages between a nonce and its stamp say nothing of the file
    | won n =>
      dsimp only [next]
      rw [if_neg (by rw [hok.2]; exact Bool.false_ne_true)]
      trivial
    | due n now =>
      dsimp only [next]
      rw [if_neg (by rw [hok.2]; exact Bool.false_ne_true)]
      trivial
    | timed last n =>
      dsimp only [next]
      split <;> trivial
    | written n => exact hkept
    | returned n => exact hkept
    | _ => trivial
  other _ _ x nonce stage stage' _ hok _ hcall h' _ _ :=
    ⟨h'.1.mono (highWater_mono hcall.1), h'.2.next hok.2 hbase hcall.1⟩
  pair i j x nonce stage stage' hji hok h hcall h' :=
    (preserves_above base base fun _ => false).pair i j x nonce stage stage' hji hok.1 ⟨h, h⟩
      (by exact hcall.1) (by exact h'.1)

/-- Where every nonce is written in order, the file covers them all. -/
theorem covered_of_persisting {file : NonceFile} {now : Int64} {nonce : AuthNonce}
    (hnew : newAuthNonce file now = .ok nonce) (events : List (ℕ × Outside))
    (hok : Along turn (fun calls e => Below e.2 calls.shared (calls.calls e.1) ∧
      Persists e.2 calls.shared (calls.calls e.1)) nonce.fresh events) (restart : Int64) :
    Covered (runFrom turn nonce.fresh events) restart := by
  obtain ⟨persisted, hload⟩ := loads_of_new hnew
  have hsign := loadNonce_nonneg hload
  have hlow : persisted.toInt ≤ nonce.highWater.toInt :=
    (highWater_newAuthNonce hload hnew).1 ▸ le_max_left _ _
  have hstart : nonce.fresh.Inv (fun nonce => persisted.toInt ≤ nonce.highWater.toInt)
      (fun _ nonce stage => Above persisted.toInt nonce stage ∧ Filed nonce stage) Apart :=
    ⟨hlow, fun _ => ⟨trivial, trivial⟩, fun _ _ _ _ _ hn => by cases hn⟩
  have hinv := inv_runFrom_turns (preserves_filed hsign) hstart hok
  intro i n hn
  have hfiled := (hinv.call i).2
  rw [show (runFrom turn nonce.fresh events).calls i = .returned n from hn] at hfiled
  exact .inl hfiled

end Symm.Kraken
