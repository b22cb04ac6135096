import Mathlib.Order.Basic

/-!
# Deterministic machines and their runs

A machine is a step function `σ → ι → σ`; a run feeds it a list of events.
Three notions cover every result stated about runs:

- `Along step ok s es`: each event meets `ok` in the state it is fed to;
- `Everywhere step P s es`: `P` holds in the first state and in every state
  the run reaches;
- `everywhere_of_inv`: an invariant that `ok` events preserve holds everywhere
  along a run of `ok` events.

The step rule and the run rule come in pairs: for invariants that every event keeps
(`always_runFrom`, `everywhere_of_always`) and for those that admissible ones do
(`inv_runFrom`, `everywhere_of_inv`). Conditions can be carried along as well: two that
agree where an invariant holds agree along its runs (`along_iff_of_inv`).

The results that give an exact condition for a whole run use `everywhere_iff_along` or
`everywhere_iff_of_inv`: what is left for them is the equivalence at one step.
-/

namespace Symm.Lib

universe u v

variable {σ : Type u} {ι : Type v} (step : σ → ι → σ)

/-- The state after a run. -/
def runFrom (s : σ) (es : List ι) : σ := es.foldl step s

@[simp] theorem runFrom_nil (s : σ) : runFrom step s [] = s := rfl

@[simp] theorem runFrom_cons (s : σ) (e : ι) (es : List ι) :
    runFrom step s (e :: es) = runFrom step (step s e) es := rfl

theorem runFrom_append (s : σ) (es fs : List ι) :
    runFrom step s (es ++ fs) = runFrom step (runFrom step s es) fs :=
  List.foldl_append

/-- Every event of the run meets `ok` in the state it is fed to. -/
def Along (ok : σ → ι → Prop) : σ → List ι → Prop
  | _, [] => True
  | s, e :: es => ok s e ∧ Along ok (step s e) es

instance instDecidableAlong (ok : σ → ι → Prop) [∀ s e, Decidable (ok s e)] :
    (s : σ) → (es : List ι) → Decidable (Along step ok s es)
  | _, [] => isTrue trivial
  | s, e :: es =>
    have := instDecidableAlong ok (step s e) es
    inferInstanceAs (Decidable (ok s e ∧ Along step ok (step s e) es))

/-- `P` holds in the first state of the run and in every state it reaches. -/
def Everywhere (P : σ → Prop) : σ → List ι → Prop
  | s, [] => P s
  | s, e :: es => P s ∧ Everywhere P (step s e) es

variable {step}

@[simp] theorem along_nil {ok : σ → ι → Prop} (s : σ) : Along step ok s [] := trivial

@[simp] theorem along_cons {ok : σ → ι → Prop} {s : σ} {e : ι} {es : List ι} :
    Along step ok s (e :: es) ↔ ok s e ∧ Along step ok (step s e) es := Iff.rfl

/-- A condition on the events alone. -/
theorem along_of_forall {ok : ι → Prop} {es : List ι} (h : ∀ e ∈ es, ok e) (s : σ) :
    Along step (fun _ e => ok e) s es := by
  induction es generalizing s with
  | nil => trivial
  | cons e es ih =>
    obtain ⟨he, hrest⟩ := List.forall_mem_cons.mp h
    exact ⟨he, ih hrest (step s e)⟩

/-- A condition holds along both if it holds along the first and, from where that ends,
along the second. -/
theorem along_append {ok : σ → ι → Prop} {s : σ} {es fs : List ι} :
    Along step ok s (es ++ fs) ↔ Along step ok s es ∧ Along step ok (runFrom step s es) fs := by
  induction es generalizing s with
  | nil => exact (and_iff_right trivial).symm
  | cons e es ih =>
    rw [List.cons_append, along_cons, along_cons, ih, and_assoc]
    rfl

/-- Two step conditions agree along the runs that start in an invariant, if they
agree where it holds and the steps that meet the first preserve it. -/
theorem along_iff_of_inv {inv : σ → Prop} {ok ok' : σ → ι → Prop}
    (hinv : ∀ s e, inv s → ok s e → inv (step s e))
    (h : ∀ s e, inv s → (ok s e ↔ ok' s e))
    {s : σ} (hs : inv s) (es : List ι) : Along step ok s es ↔ Along step ok' s es := by
  induction es generalizing s with
  | nil => exact Iff.rfl
  | cons e es ih =>
    rw [along_cons, along_cons, ← h s e hs]
    exact and_congr_right fun hok => ih (hinv s e hs hok)

/-- Two step conditions that agree in every state agree along every run. -/
theorem along_congr {ok ok' : σ → ι → Prop} (h : ∀ s e, ok s e ↔ ok' s e)
    (s : σ) (es : List ι) : Along step ok s es ↔ Along step ok' s es := by
  have hinv : ∀ (s : σ) (e : ι), (fun _ : σ => True) s → ok s e →
      (fun _ : σ => True) (step s e) := fun _ _ _ _ => trivial
  exact along_iff_of_inv hinv (fun s e _ => h s e) trivial es

/-- The step rule of an invariant, along a whole run. -/
theorem along_of_inv {inv : σ → Prop} {ok good : σ → ι → Prop}
    (hstep : ∀ s e, inv s → ok s e → inv (step s e))
    (hgood : ∀ s e, inv s → ok s e → good s e)
    {s : σ} (hs : inv s) {es : List ι} (h : Along step ok s es) :
    Along step good s es := by
  induction es generalizing s with
  | nil => trivial
  | cons e es ih => exact ⟨hgood s e hs h.1, ih (hstep s e hs h.1) h.2⟩

/-- An invariant survives a run of admissible events. -/
theorem inv_runFrom {inv : σ → Prop} {ok : σ → ι → Prop}
    (hstep : ∀ s e, inv s → ok s e → inv (step s e))
    {s : σ} (hs : inv s) {es : List ι} (h : Along step ok s es) :
    inv (runFrom step s es) := by
  induction es generalizing s with
  | nil => exact hs
  | cons e es ih => exact ih (hstep s e hs h.1) h.2

/-- An invariant that every event preserves survives every run. -/
theorem always_runFrom {inv : σ → Prop} (hstep : ∀ s e, inv s → inv (step s e))
    {s : σ} (hs : inv s) (es : List ι) : inv (runFrom step s es) := by
  induction es generalizing s with
  | nil => exact hs
  | cons e es ih => exact ih (hstep s e hs)

/-- What an invariant implies holds in every state of an admissible run. -/
theorem everywhere_of_inv {inv P : σ → Prop} {ok : σ → ι → Prop}
    (hstep : ∀ s e, inv s → ok s e → inv (step s e)) (hP : ∀ s, inv s → P s)
    {s : σ} (hs : inv s) {es : List ι} (h : Along step ok s es) :
    Everywhere step P s es := by
  induction es generalizing s with
  | nil => exact hP s hs
  | cons e es ih => exact ⟨hP s hs, ih (hstep s e hs h.1) h.2⟩

/-- What an invariant of every event implies holds in every state of every run. -/
theorem everywhere_of_always {inv P : σ → Prop} (hstep : ∀ s e, inv s → inv (step s e))
    (hP : ∀ s, inv s → P s) {s : σ} (hs : inv s) (es : List ι) : Everywhere step P s es := by
  induction es generalizing s with
  | nil => exact hP s hs
  | cons e es ih => exact ⟨hP s hs, ih (hstep s e hs)⟩

/-- Where an event preserves `P` exactly when `ok` holds before it, `P` holds
everywhere along a run exactly when it holds first and every event is `ok`. -/
theorem everywhere_iff_along {inv P : σ → Prop} {adm : ι → Prop} {ok : σ → ι → Prop}
    (hinv : ∀ s e, inv s → inv (step s e))
    (hok : ∀ s e, inv s → adm e → P s → (P (step s e) ↔ ok s e))
    {s : σ} (hs : inv s) {es : List ι} (hes : ∀ e ∈ es, adm e) :
    Everywhere step P s es ↔ P s ∧ Along step ok s es := by
  induction es generalizing s with
  | nil => exact (and_iff_left trivial).symm
  | cons e es ih =>
    have hrest := ih (hinv s e hs) fun e' he' => hes e' (List.mem_cons_of_mem e he')
    show P s ∧ Everywhere step P (step s e) es ↔ P s ∧ ok s e ∧ Along step ok (step s e) es
    rw [hrest]
    refine and_congr_right fun hP => ?_
    rw [hok s e hs (hes e List.mem_cons_self) hP]

/-- Where `ok` events keep an invariant that implies `P`, and any other event breaks
`P` at once, `P` holds everywhere along a run exactly when every event is `ok`. -/
theorem everywhere_iff_of_inv {inv P : σ → Prop} {ok : σ → ι → Prop}
    (hstep : ∀ s e, inv s → ok s e → inv (step s e)) (hP : ∀ s, inv s → P s)
    (hbreak : ∀ s e, inv s → ¬ ok s e → ¬ P (step s e))
    {s : σ} (hs : inv s) (es : List ι) : Everywhere step P s es ↔ Along step ok s es := by
  refine ⟨fun h => ?_, everywhere_of_inv hstep hP hs⟩
  induction es generalizing s with
  | nil => trivial
  | cons e es ih =>
    have hnext : P (step s e) := by
      cases es with
      | nil => exact h.2
      | cons _ _ => exact h.2.1
    have hok : ok s e := by
      by_contra hnok
      exact hbreak s e hs hnok hnext
    exact ⟨hok, ih (hstep s e hs hok) h.2⟩

/-- The last state of a run is one of its states. -/
theorem Everywhere.last {P : σ → Prop} {s : σ} {es : List ι}
    (h : Everywhere step P s es) : P (runFrom step s es) := by
  induction es generalizing s with
  | nil => exact h
  | cons e es ih => exact ih h.2

end Symm.Lib
