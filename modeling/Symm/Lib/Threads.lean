import Mathlib.Logic.Function.Basic
import Symm.Lib.Machine

/-!
# Calls in flight on a shared state

Any number of calls run at once. Each is at some stage, and a turn takes one of
them one atomic step further: it reads and writes the shared state and moves
the call to its next stage. A run is a list of turns, so that its runs are all
the interleavings of the calls.

- `turns step`: the machine of such a program;
- `Threads.Inv`: an invariant made of one on the shared state, one on each call
  and one on each pair of calls;
- `inv_turns`, `inv_runFrom_turns`: it is preserved if each turn keeps it for the
  call that moves and leaves it alone for the others.

The invariant has three parts because that is what the programs need: the shared state
alone, what a call has read against what is shared now, and two calls against each
other. The rule asks for one lemma for the call that moves and for one for a call that
is moved past.
-/

namespace Symm.Lib

universe u v w

/-- The shared state and the stage of each call. -/
structure Threads (σ : Type u) (τ : Type v) where
  shared : σ
  calls : ℕ → τ

variable {σ : Type u} {τ : Type v} {ι : Type w} (step : ι → σ → τ → σ × τ)

/-- The turn of one call, with what it reads from outside. -/
def turns (s : Threads σ τ) (e : ℕ × ι) : Threads σ τ where
  shared := (step e.2 s.shared (s.calls e.1)).1
  calls := Function.update s.calls e.1 (step e.2 s.shared (s.calls e.1)).2

variable {step}

@[simp] theorem turns_self (s : Threads σ τ) (i : ℕ) (x : ι) :
    (turns step s (i, x)).calls i = (step x s.shared (s.calls i)).2 :=
  Function.update_self i _ _

@[simp] theorem turns_other (s : Threads σ τ) {i j : ℕ} (h : j ≠ i) (x : ι) :
    (turns step s (i, x)).calls j = s.calls j :=
  Function.update_of_ne h _ _

/-- A call that has no turn in a run stays where it is. -/
theorem calls_runFrom_of_not_mem (s : Threads σ τ) {i : ℕ} {es : List (ℕ × ι)}
    (h : ∀ e ∈ es, e.1 ≠ i) : (runFrom (turns step) s es).calls i = s.calls i := by
  induction es generalizing s with
  | nil => rfl
  | cons e es ih =>
    rw [runFrom_cons, ih _ fun e' he' => h e' (List.mem_cons_of_mem e he')]
    exact turns_other s (h e List.mem_cons_self).symm e.2

namespace Threads

/-- `I` on the shared state, `J` on each call, `K` on each two calls. -/
structure Inv (I : σ → Prop) (J : ℕ → σ → τ → Prop) (K : τ → τ → Prop) (s : Threads σ τ) :
    Prop where
  shared : I s.shared
  call : ∀ i, J i s.shared (s.calls i)
  pair : ∀ i j, i ≠ j → K (s.calls i) (s.calls j)

/-- What a turn must do to preserve the three: `own` for the call that moves,
`other` for any other call, `pair` between the two. -/
structure Preserves (step : ι → σ → τ → σ × τ) (ok : ι → σ → τ → Prop) (I : σ → Prop)
    (J : ℕ → σ → τ → Prop) (K : τ → τ → Prop) : Prop where
  shared : ∀ i x s t, ok x s t → I s → J i s t → I (step x s t).1
  own : ∀ i x s t, ok x s t → I s → J i s t → J i (step x s t).1 (step x s t).2
  other : ∀ i j x s t t', j ≠ i → ok x s t → I s → J i s t → J j s t' → K t t' → K t' t →
    J j (step x s t).1 t'
  pair : ∀ i j x s t t', j ≠ i → ok x s t → I s → J i s t → J j s t' → K t t' → K t' t →
    K (step x s t).2 t' ∧ K t' (step x s t).2

end Threads

variable {ok : ι → σ → τ → Prop} {I : σ → Prop} {J : ℕ → σ → τ → Prop} {K : τ → τ → Prop}

/-- One turn preserves the invariant. -/
theorem inv_turns (h : Threads.Preserves step ok I J K) {s : Threads σ τ}
    (hs : s.Inv I J K) (e : ℕ × ι) (hok : ok e.2 s.shared (s.calls e.1)) :
    (turns step s e).Inv I J K := by
  obtain ⟨i, x⟩ := e
  have hcall := hs.call i
  refine ⟨h.shared i x _ _ hok hs.shared hcall, fun j => ?_, fun j k hjk => ?_⟩
  · by_cases hj : j = i
    · rw [hj, turns_self]
      exact h.own i x _ _ hok hs.shared hcall
    · rw [turns_other s hj]
      exact h.other i j x _ _ _ hj hok hs.shared hcall (hs.call j) (hs.pair i j (Ne.symm hj))
        (hs.pair j i hj)
  · by_cases hj : j = i
    · have hk : k ≠ i := fun hk => hjk (hj.trans hk.symm)
      rw [hj, turns_self, turns_other s hk]
      exact (h.pair i k x _ _ _ hk hok hs.shared hcall (hs.call k) (hs.pair i k hk.symm)
        (hs.pair k i hk)).1
    · by_cases hk : k = i
      · rw [hk, turns_self, turns_other s hj]
        exact (h.pair i j x _ _ _ hj hok hs.shared hcall (hs.call j) (hs.pair i j (Ne.symm hj))
          (hs.pair j i hj)).2
      · rw [turns_other s hj, turns_other s hk]
        exact hs.pair j k hjk

/-- A run of admissible turns preserves the invariant. -/
theorem inv_runFrom_turns (h : Threads.Preserves step ok I J K) {s : Threads σ τ}
    (hs : s.Inv I J K) {es : List (ℕ × ι)}
    (hok : Along (turns step) (fun s e => ok e.2 s.shared (s.calls e.1)) s es) :
    (runFrom (turns step) s es).Inv I J K := by
  have hstep : ∀ (s : Threads σ τ) (e : ℕ × ι), s.Inv I J K → ok e.2 s.shared (s.calls e.1) →
      (turns step s e).Inv I J K := fun _ e hs hok => inv_turns h hs e hok
  exact inv_runFrom hstep hs hok

/-! ## One call alone -/

/-- The machine of a single call and the shared state. -/
def alone (step : ι → σ → τ → σ × τ) (p : σ × τ) (x : ι) : σ × τ := step x p.1 p.2

/-- While only one call moves, the run is that of the call alone. -/
theorem runFrom_turns_alone (s : Threads σ τ) (i : ℕ) (xs : List ι) :
    runFrom (turns step) s (xs.map (Prod.mk i)) =
      ⟨(runFrom (alone step) (s.shared, s.calls i) xs).1,
        Function.update s.calls i (runFrom (alone step) (s.shared, s.calls i) xs).2⟩ := by
  induction xs generalizing s with
  | nil =>
    rw [List.map_nil, runFrom_nil, runFrom_nil, Function.update_eq_self]
  | cons x xs ih =>
    rw [List.map_cons, runFrom_cons, ih, turns_self, runFrom_cons]
    show Threads.mk _ (Function.update (Function.update s.calls i _) i _) = _
    rw [Function.update_idem]
    rfl

/-- What each of its turns must meet is then met by the call alone. -/
theorem along_turns_alone (s : Threads σ τ) (i : ℕ) (xs : List ι) :
    Along (turns step) (fun s e => ok e.2 s.shared (s.calls e.1)) s (xs.map (Prod.mk i)) ↔
      Along (alone step) (fun p x => ok x p.1 p.2) (s.shared, s.calls i) xs := by
  induction xs generalizing s with
  | nil => exact Iff.rfl
  | cons x xs ih =>
    rw [List.map_cons, along_cons, along_cons, ih, turns_self]
    exact Iff.rfl

end Symm.Lib
