import Mathlib.Data.List.Basic
import Symm.Lib.Machine

/-!
# The remembered answers (`workbench/warehouse-handler.ts`)

The viewer asks for the schema, the row count and the column count of a view on every
render. `remember` sends each question once per name and hands the promise of it to
every later caller, until the question fails or the view is deleted.

The maps hold promises, so what a caller gets is a question that may still be under
way. The answer of the warehouse and the `catch` behind it are steps of their own, and
the page may do anything in between. The warehouse takes the statements in the order
they are sent.

- `Question`, `Call`, `Handler`, `step`: the three maps and what was asked;
- `Current`: every answer is about the view its caller asked for;
- `Once`: a view is asked for a thing again only after a failure;
- `answers_current`, `asked_once`: along which runs the two hold.

`Inv` holds along every run: a known question is one about the view that has its name,
and an answer is the measure of the view that its statement met. `Single` needs runs in
which a failure is not noticed after its name was asked for again (`Fresh`).
-/

namespace Symm.Workbench.Remembered

open Symm.Lib

universe u v

/-- What is asked for: `tableSchema`, `tableSize` or `viewColumnSize`. -/
inductive Kind
  | schemas
  | sizes
  | widths
  deriving DecidableEq, Repr

/-- Where a promise is: its statement is under way, the warehouse has answered or
refused it, or its `catch` has run and its callers go on. -/
inductive Status (Answer : Type v)
  | sent
  | answered (outcome : Option Answer)
  | settled (outcome : Option Answer)
  deriving DecidableEq

/-- A promise in one of the maps, with the view its statement found. -/
structure Question (View : Type u) (Answer : Type v) where
  kind : Kind
  name : String
  view : Option View
  /-- How often a view of the name had been deleted. -/
  life : ℕ
  status : Status Answer

/-- A call, with the promise it was handed and the view that had the name by then. -/
structure Call (View : Type u) where
  kind : Kind
  name : String
  view : Option View
  question : ℕ

structure Handler (View : Type u) (Answer : Type v) where
  /-- The views of the warehouse. -/
  views : String → Option View
  /-- `schemas`, `sizes` and `widths`. -/
  known : Kind → String → Option ℕ
  questions : List (Question View Answer)
  calls : List (Call View)
  deleted : String → ℕ

variable {View : Type u} {Answer : Type v} (measure : Kind → View → Answer)

def Handler.new : Handler View Answer where
  views := fun _ => none
  known := fun _ _ => none
  questions := []
  calls := []
  deleted := fun _ => 0

namespace Handler

/-- `into.set` and `into.delete`, on the map of the kind. -/
def keep (h : Handler View Answer) (kind : Kind) (name : String) (question : Option ℕ) :
    Handler View Answer :=
  { h with known := fun k n => if k = kind ∧ n = name then question else h.known k n }

/-- `resolve()`: the statement is sent. It meets the view that has the name when it is sent:
the warehouse takes the statements in order, those that make a view or drop it among them. -/
def send (h : Handler View Answer) (kind : Kind) (name : String) : Handler View Answer :=
  { h with questions := h.questions ++ [⟨kind, name, h.views name, h.deleted name, .sent⟩] }

/-- The caller is handed a promise. -/
def hand (h : Handler View Answer) (kind : Kind) (name : String) (question : ℕ) :
    Handler View Answer :=
  { h with calls := h.calls ++ [⟨kind, name, h.views name, question⟩] }

def remember (h : Handler View Answer) (kind : Kind) (name : String) : Handler View Answer :=
  match h.known kind name with
  | some question => h.hand kind name question
  | none =>
    let pending := h.questions.length
    ((h.send kind name).keep kind name (some pending)).hand kind name pending

def setStatus (h : Handler View Answer) (q : ℕ) (x : Question View Answer)
    (status : Status Answer) : Handler View Answer :=
  { h with questions := h.questions.set q { x with status := status } }

/-- The warehouse answers. A statement that finds no view is refused, and any may be. -/
def reply (h : Handler View Answer) (q : ℕ) (refused : Bool) : Handler View Answer :=
  match h.questions[q]? with
  | none => h
  | some x =>
    match x.status with
    | .sent =>
      h.setStatus q x (.answered (if refused then none else x.view.map (measure x.kind)))
    | _ => h

/-- The `catch` of `remember`: whatever the map has under the name is forgotten, and
the promise rejects. -/
def settle (h : Handler View Answer) (q : ℕ) : Handler View Answer :=
  match h.questions[q]? with
  | none => h
  | some x =>
    match x.status with
    | .answered none => (h.keep x.kind x.name none).setStatus q x (.settled none)
    | .answered (some answer) => h.setStatus q x (.settled (some answer))
    | _ => h

def viewDelete (h : Handler View Answer) (name : String) : Handler View Answer :=
  { h with
    views := fun n => if n = name then none else h.views n
    known := fun k n => if n = name then none else h.known k n
    deleted := fun n => if n = name then h.deleted n + 1 else h.deleted n }

/-- `CREATE TABLE`, which a name that is taken refuses. -/
def create (h : Handler View Answer) (name : String) (view : View) : Handler View Answer :=
  match h.views name with
  | some _ => h
  | none => { h with views := fun n => if n = name then some view else h.views n }

end Handler

/-- What happens next. -/
inductive Event (View : Type u)
  | create (name : String) (view : View)
  | delete (name : String)
  | ask (kind : Kind) (name : String)
  | reply (question : ℕ) (refused : Bool)
  | settle (question : ℕ)

def step (h : Handler View Answer) : Event View → Handler View Answer
  | .create name view => h.create name view
  | .delete name => h.viewDelete name
  | .ask kind name => h.remember kind name
  | .reply question refused => h.reply measure question refused
  | .settle question => h.settle question

/-! ## What the results are about -/

/-- What a caller was answered is what the view that had the name at its call measures,
and no map keeps a failure. -/
structure Current (h : Handler View Answer) : Prop where
  answer : ∀ call ∈ h.calls, ∀ x answer, h.questions[call.question]? = some x →
    x.status = .settled (some answer) →
      ∃ view, call.view = some view ∧ answer = measure call.kind view
  failure : ∀ kind name q, h.known kind name = some q →
    ∃ x, h.questions[q]? = some x ∧ x.status ≠ .settled none

/-- Two questions are about one thing of one view. -/
def Same (x y : Question View Answer) : Prop :=
  x.kind = y.kind ∧ x.name = y.name ∧ x.life = y.life

/-- Of the questions about one thing of one view, all but the last have failed. -/
def Once (h : Handler View Answer) : Prop :=
  ∀ (q r : ℕ) x y, q < r → h.questions[q]? = some x → h.questions[r]? = some y → Same x y →
    x.status = .settled none

/-- A failure does not meet a later question in its place. -/
def Fresh (h : Handler View Answer) (e : Event View) : Prop :=
  ∀ q r x, e = .settle q → h.questions[q]? = some x → x.status = .answered none →
    h.known x.kind x.name = some r → r = q

/-! ## The parts of a step -/

section Parts

variable {h : Handler View Answer} {kind : Kind} {name : String} {q r : ℕ}
  {x y : Question View Answer} {status : Status Answer}

/-- The answer that a promise has or will have. -/
def Status.outcome : Status Answer → Option Answer
  | .sent => none
  | .answered outcome => outcome
  | .settled outcome => outcome

/-- The kept question is the known one. -/
theorem known_keep_self (question : Option ℕ) :
    (h.keep kind name question).known kind name = question := if_pos ⟨rfl, rfl⟩

theorem known_keep_of_ne {k : Kind} {n : String} (hne : ¬(k = kind ∧ n = name))
    (question : Option ℕ) : (h.keep kind name question).known k n = h.known k n := if_neg hne

theorem getElem?_setStatus_self (hq : h.questions[q]? = some x) :
    (h.setStatus q x status).questions[q]? = some { x with status := status } := by
  obtain ⟨hlt, -⟩ := List.getElem?_eq_some_iff.mp hq
  exact List.getElem?_set_self hlt

theorem getElem?_setStatus_of_ne (hne : r ≠ q) :
    (h.setStatus q x status).questions[r]? = h.questions[r]? := List.getElem?_set_ne hne.symm

/-- A question of the handler after a status has been set: the one it was set for, or
one of those before. -/
theorem getElem?_setStatus (hq : h.questions[q]? = some x)
    (hr : (h.setStatus q x status).questions[r]? = some y) :
    r = q ∧ y = { x with status := status } ∨ r ≠ q ∧ h.questions[r]? = some y := by
  by_cases hrq : r = q
  · subst hrq
    rw [getElem?_setStatus_self hq] at hr
    exact Or.inl ⟨rfl, (Option.some.inj hr).symm⟩
  · rw [getElem?_setStatus_of_ne hrq] at hr
    exact Or.inr ⟨hrq, hr⟩

/-- A question of the handler after one has been sent: the new one, or one of those
before. -/
theorem getElem?_send (hr : (h.send kind name).questions[r]? = some y) :
    r = h.questions.length ∧ y = ⟨kind, name, h.views name, h.deleted name, .sent⟩ ∨
      r < h.questions.length ∧ h.questions[r]? = some y := by
  have hlt : r < h.questions.length + 1 := by
    have := (List.getElem?_eq_some_iff.mp hr).1
    rwa [Handler.send, List.length_append, List.length_singleton] at this
  rcases Nat.lt_succ_iff_lt_or_eq.mp hlt with hlt | rfl
  · refine Or.inr ⟨hlt, ?_⟩
    rwa [Handler.send, List.getElem?_append_left hlt] at hr
  · rw [Handler.send, List.getElem?_concat_length] at hr
    exact Or.inl ⟨rfl, (Option.some.inj hr).symm⟩

theorem getElem?_send_self : (h.send kind name).questions[h.questions.length]? =
    some ⟨kind, name, h.views name, h.deleted name, .sent⟩ := List.getElem?_concat_length

theorem getElem?_send_of_some (hr : h.questions[r]? = some y) :
    (h.send kind name).questions[r]? = some y := by
  rw [Handler.send, List.getElem?_append_left (List.getElem?_eq_some_iff.mp hr).1, hr]

/-! ### What the operations do -/

/-- A caller is handed what the map has, or a question that is sent for it. -/
theorem remember_cases (h : Handler View Answer) (kind : Kind) (name : String) :
    (∃ question, h.known kind name = some question ∧
      h.remember kind name = h.hand kind name question) ∨
    h.known kind name = none ∧ h.remember kind name =
      ((h.send kind name).keep kind name (some h.questions.length)).hand kind name
        h.questions.length := by
  unfold Handler.remember
  cases hknown : h.known kind name with
  | none => exact Or.inr ⟨rfl, rfl⟩
  | some question => exact Or.inl ⟨question, rfl, rfl⟩

/-- An answer does nothing, or a statement under way gets an outcome: what its view
measures, if any. -/
theorem reply_cases (measure : Kind → View → Answer) (h : Handler View Answer) (q : ℕ)
    (refused : Bool) :
    h.reply measure q refused = h ∨ ∃ x outcome, h.questions[q]? = some x ∧ x.status = .sent ∧
      h.reply measure q refused = h.setStatus q x (.answered outcome) ∧
      ∀ answer, outcome = some answer → ∃ view, x.view = some view ∧
        answer = measure x.kind view := by
  unfold Handler.reply
  split
  · exact Or.inl rfl
  · rename_i x hq
    split
    · rename_i hsent
      refine Or.inr ⟨x, _, hq, hsent, rfl, ?_⟩
      intro answer hanswer
      cases refused with
      | true => cases hanswer
      | false =>
        obtain ⟨view, hview, rfl⟩ := Option.map_eq_some_iff.mp hanswer
        exact ⟨view, hview, rfl⟩
    · exact Or.inl rfl

/-- The `catch` does nothing, or it forgets the name of a failure, or it lets an answer
pass. -/
theorem settle_cases (h : Handler View Answer) (q : ℕ) :
    h.settle q = h ∨
    (∃ x, h.questions[q]? = some x ∧ x.status = .answered none ∧
      h.settle q = (h.keep x.kind x.name none).setStatus q x (.settled none)) ∨
    ∃ x answer, h.questions[q]? = some x ∧ x.status = .answered (some answer) ∧
      h.settle q = h.setStatus q x (.settled (some answer)) := by
  unfold Handler.settle
  split
  · exact Or.inl rfl
  · rename_i x hq
    split
    · rename_i hfailed
      exact Or.inr (Or.inl ⟨x, hq, hfailed, rfl⟩)
    · rename_i answer hanswered
      exact Or.inr (Or.inr ⟨x, answer, hq, hanswered, rfl⟩)
    · exact Or.inl rfl

end Parts

/-! ## The invariant -/

section Invariant

variable {measure} {h : Handler View Answer} {kind : Kind} {name : String} {q : ℕ}
  {x : Question View Answer}

/-- What a map has under a name was sent since the last deletion of the name, and has
found the view that the name has, if it found any. -/
structure Held (views : String → Option View) (deleted : String → ℕ) (kind : Kind)
    (name : String) (x : Question View Answer) : Prop where
  kind_eq : x.kind = kind
  name_eq : x.name = name
  life : x.life = deleted name
  found : ∀ view, x.view = some view → views name = some view
  unfailed : x.status ≠ .settled none

/-- The answer of a question is what its view measures. -/
def Sound (measure : Kind → View → Answer) (x : Question View Answer) : Prop :=
  ∀ answer, x.status.outcome = some answer →
    ∃ view, x.view = some view ∧ answer = measure x.kind view

structure Inv (measure : Kind → View → Answer) (h : Handler View Answer) : Prop where
  held : ∀ kind name q, h.known kind name = some q →
    ∃ x, h.questions[q]? = some x ∧ Held h.views h.deleted kind name x
  life : ∀ (q : ℕ) x, h.questions[q]? = some x → x.life ≤ h.deleted x.name
  sound : ∀ (q : ℕ) x, h.questions[q]? = some x → Sound measure x
  handed : ∀ call ∈ h.calls, ∃ x, h.questions[call.question]? = some x ∧ x.kind = call.kind ∧
    ∀ view, x.view = some view → call.view = some view

/-- A new handler knows nothing. -/
theorem inv_new : Inv measure (Handler.new : Handler View Answer) where
  held := by
    intro kind name q hq
    cases hq
  life := by
    intro q x hq
    cases hq
  sound := by
    intro q x hq
    cases hq
  handed := by
    intro call hcall
    cases hcall

namespace Inv

/-- A promise goes on to a status that no map has to forget. -/
theorem setStatus (hi : Inv measure h) (hq : h.questions[q]? = some x) {status : Status Answer}
    (hsound : Sound measure { x with status := status })
    (hkept : status = .settled none → ∀ kind name, h.known kind name ≠ some q) :
    Inv measure (h.setStatus q x status) where
  held := by
    intro kind name r hr
    obtain ⟨y, hy, hheld⟩ := hi.held kind name r hr
    by_cases hrq : r = q
    · subst hrq
      obtain rfl : x = y := Option.some.inj (hq.symm.trans hy)
      refine ⟨_, getElem?_setStatus_self hq, hheld.kind_eq, hheld.name_eq, hheld.life,
        hheld.found, ?_⟩
      rintro rfl
      exact hkept rfl kind name hr
    · exact ⟨y, (getElem?_setStatus_of_ne hrq).trans hy, hheld⟩
  life := by
    intro r y hr
    obtain ⟨rfl, rfl⟩ | ⟨-, hr⟩ := getElem?_setStatus hq hr
    · exact hi.life r x hq
    · exact hi.life r y hr
  sound := by
    intro r y hr
    obtain ⟨rfl, rfl⟩ | ⟨-, hr⟩ := getElem?_setStatus hq hr
    · exact hsound
    · exact hi.sound r y hr
  handed := by
    intro call hcall
    obtain ⟨y, hy, hcalled⟩ := hi.handed call hcall
    by_cases hrq : call.question = q
    · rw [hrq] at hy ⊢
      obtain rfl : x = y := Option.some.inj (hq.symm.trans hy)
      exact ⟨_, getElem?_setStatus_self hq, hcalled⟩
    · exact ⟨y, (getElem?_setStatus_of_ne hrq).trans hy, hcalled⟩

/-- A map forgets a name. -/
theorem forget (hi : Inv measure h) (kind : Kind) (name : String) :
    Inv measure (h.keep kind name none) where
  held := by
    intro k n r hr
    by_cases hkn : k = kind ∧ n = name
    · obtain ⟨rfl, rfl⟩ := hkn
      rw [known_keep_self] at hr
      cases hr
    · rw [known_keep_of_ne hkn] at hr
      exact hi.held k n r hr
  life := hi.life
  sound := hi.sound
  handed := hi.handed

/-- A caller is handed what the map has under the name. -/
theorem hand (hi : Inv measure h) (hq : h.known kind name = some q) :
    Inv measure (h.hand kind name q) where
  held := hi.held
  life := hi.life
  sound := hi.sound
  handed := by
    intro call hcall
    rcases List.mem_append.mp hcall with hcall | hcall
    · exact hi.handed call hcall
    · obtain rfl := List.mem_singleton.mp hcall
      obtain ⟨x, hx, hheld⟩ := hi.held kind name q hq
      refine ⟨x, hx, hheld.kind_eq, ?_⟩
      exact hheld.found

/-- A question is sent and kept. -/
theorem send (hi : Inv measure h) (kind : Kind) (name : String) :
    Inv measure ((h.send kind name).keep kind name (some h.questions.length)) where
  held := by
    intro k n r hr
    by_cases hkn : k = kind ∧ n = name
    · obtain ⟨rfl, rfl⟩ := hkn
      rw [known_keep_self] at hr
      obtain rfl := Option.some.inj hr
      refine ⟨_, getElem?_send_self, rfl, rfl, rfl, ?_, nofun⟩
      intro view hview
      exact hview
    · rw [known_keep_of_ne hkn] at hr
      obtain ⟨x, hx, hheld⟩ := hi.held k n r hr
      exact ⟨x, getElem?_send_of_some hx, hheld.kind_eq, hheld.name_eq, hheld.life,
        hheld.found, hheld.unfailed⟩
  life := by
    intro r y hr
    obtain ⟨rfl, rfl⟩ | ⟨-, hr⟩ := getElem?_send hr
    · exact Nat.le_refl _
    · exact hi.life r y hr
  sound := by
    intro r y hr
    obtain ⟨rfl, rfl⟩ | ⟨-, hr⟩ := getElem?_send hr
    · intro answer hanswer
      cases hanswer
    · exact hi.sound r y hr
  handed := by
    intro call hcall
    obtain ⟨x, hx, hcalled⟩ := hi.handed call hcall
    exact ⟨x, getElem?_send_of_some hx, hcalled⟩

theorem remember (hi : Inv measure h) (kind : Kind) (name : String) :
    Inv measure (h.remember kind name) := by
  rcases remember_cases h kind name with ⟨q, hq, hremember⟩ | ⟨-, hremember⟩
  · rw [hremember]
    exact hi.hand hq
  · rw [hremember]
    exact (hi.send kind name).hand (known_keep_self _)

theorem reply (hi : Inv measure h) (q : ℕ) (refused : Bool) :
    Inv measure (h.reply measure q refused) := by
  rcases reply_cases measure h q refused with hsame | ⟨x, outcome, hq, -, hreply, hsound⟩
  · rw [hsame]
    exact hi
  · rw [hreply]
    exact hi.setStatus hq hsound nofun

theorem settle (hi : Inv measure h) (q : ℕ) : Inv measure (h.settle q) := by
  rcases settle_cases h q with hsame | ⟨x, hq, -, hsettle⟩ | ⟨x, answer, hq, hstatus, hsettle⟩
  · rw [hsame]
    exact hi
  · rw [hsettle]
    -- the name is forgotten, so no map has the failure
    refine (hi.forget x.kind x.name).setStatus hq nofun ?_
    intro _ k n hkn
    by_cases hsame : k = x.kind ∧ n = x.name
    · obtain ⟨rfl, rfl⟩ := hsame
      rw [known_keep_self] at hkn
      cases hkn
    · rw [known_keep_of_ne hsame] at hkn
      obtain ⟨y, hy, hheld⟩ := hi.held k n q hkn
      obtain rfl : x = y := Option.some.inj (hq.symm.trans hy)
      exact hsame ⟨hheld.kind_eq.symm, hheld.name_eq.symm⟩
  · rw [hsettle]
    refine hi.setStatus hq ?_ nofun
    intro a ha
    refine hi.sound q x hq a ?_
    rw [hstatus]
    exact ha

theorem viewDelete (hi : Inv measure h) (name : String) : Inv measure (h.viewDelete name) where
  held := by
    intro k n r hr
    have hr' : (if n = name then none else h.known k n) = some r := hr
    split at hr'
    · cases hr'
    · rename_i hn
      obtain ⟨x, hx, hheld⟩ := hi.held k n r hr'
      refine ⟨x, hx, hheld.kind_eq, hheld.name_eq, ?_, ?_, hheld.unfailed⟩
      · exact hheld.life.trans (if_neg hn).symm
      · intro view hview
        exact (if_neg hn).trans (hheld.found view hview)
  life := by
    intro r y hr
    have hle := hi.life r y hr
    show y.life ≤ if y.name = name then h.deleted y.name + 1 else h.deleted y.name
    split
    · omega
    · exact hle
  sound := hi.sound
  handed := hi.handed

theorem create (hi : Inv measure h) (name : String) (view : View) :
    Inv measure (h.create name view) := by
  unfold Handler.create
  split
  · exact hi
  · rename_i hnone
    refine ⟨?_, hi.life, hi.sound, hi.handed⟩
    intro k n r hr
    obtain ⟨x, hx, hheld⟩ := hi.held k n r hr
    refine ⟨x, hx, hheld.kind_eq, hheld.name_eq, hheld.life, ?_, hheld.unfailed⟩
    intro v hv
    have hfound := hheld.found v hv
    have hne : n ≠ name := by
      rintro rfl
      rw [hnone] at hfound
      cases hfound
    exact (if_neg hne).trans hfound

theorem step (hi : Inv measure h) (e : Event View) : Inv measure (step measure h e) := by
  cases e with
  | create name view => exact hi.create name view
  | delete name => exact hi.viewDelete name
  | ask kind name => exact hi.remember kind name
  | reply q refused => exact hi.reply q refused
  | settle q => exact hi.settle q

/-- So whatever is answered is current. -/
theorem current (hi : Inv measure h) : Current measure h where
  answer := by
    intro call hcall x answer hx hstatus
    obtain ⟨y, hy, hkind, hview⟩ := hi.handed call hcall
    obtain rfl : x = y := Option.some.inj (hx.symm.trans hy)
    obtain ⟨view, hfound, rfl⟩ := hi.sound _ x hx answer (by rw [hstatus]; rfl)
    exact ⟨view, hview view hfound, by rw [hkind]⟩
  failure := by
    intro kind name q hq
    obtain ⟨x, hx, hheld⟩ := hi.held kind name q hq
    exact ⟨x, hx, hheld.unfailed⟩

end Inv

/-- In every run each answered caller gets what the view that had the name at its call
measures, and a failure is not kept. -/
theorem answers_current (events : List (Event View)) :
    Everywhere (step measure) (Current measure) (Handler.new : Handler View Answer) events :=
  everywhere_of_always (fun _ e hi => hi.step e) (fun _ hi => hi.current) inv_new events

/-! ## How often a view is asked -/

/-- A question about the view that now has the name is in its map, unless it has
failed. -/
def Last (h : Handler View Answer) : Prop :=
  ∀ (q : ℕ) x, h.questions[q]? = some x → x.life = h.deleted x.name →
    x.status ≠ .settled none → h.known x.kind x.name = some q

structure Single (measure : Kind → View → Answer) (h : Handler View Answer) : Prop where
  inv : Inv measure h
  last : Last h
  once : Once h

theorem single_new : Single measure (Handler.new : Handler View Answer) where
  inv := inv_new
  last := by
    intro q x hq
    cases hq
  once := by
    intro q r x y _ hq
    cases hq

/-- A status that keeps failures keeps what is asked once. -/
theorem Once.setStatus (ho : Once h) (hq : h.questions[q]? = some x) {status : Status Answer}
    (hfailed : x.status = .settled none → status = .settled none) :
    Once (h.setStatus q x status) := by
  intro a b y z hab hy hz hsame
  obtain ⟨w, hw, hwz⟩ : ∃ w, h.questions[b]? = some w ∧ Same w z := by
    obtain ⟨rfl, rfl⟩ | ⟨-, hz⟩ := getElem?_setStatus hq hz
    · exact ⟨x, hq, rfl, rfl, rfl⟩
    · exact ⟨z, hz, rfl, rfl, rfl⟩
  obtain ⟨hkind, hname, hlife⟩ := hwz
  obtain ⟨rfl, rfl⟩ | ⟨-, hy⟩ := getElem?_setStatus hq hy
  · refine hfailed (ho a b x w hab hq hw ⟨?_, ?_, ?_⟩)
    · exact hsame.1.trans hkind.symm
    · exact hsame.2.1.trans hname.symm
    · exact hsame.2.2.trans hlife.symm
  · refine ho a b y w hab hy hw ⟨?_, ?_, ?_⟩
    · exact hsame.1.trans hkind.symm
    · exact hsame.2.1.trans hname.symm
    · exact hsame.2.2.trans hlife.symm

namespace Single

theorem remember (hs : Single measure h) (kind : Kind) (name : String) :
    Single measure (h.remember kind name) := by
  refine ⟨hs.inv.remember kind name, ?_, ?_⟩
  · rcases remember_cases h kind name with ⟨q, -, hremember⟩ | ⟨hnone, hremember⟩
    · rw [hremember]
      exact hs.last
    · rw [hremember]
      intro r y hr hlife hstatus
      show ((h.send kind name).keep kind name (some h.questions.length)).known y.kind y.name =
        some r
      obtain ⟨rfl, rfl⟩ | ⟨hlt, hr⟩ := getElem?_send hr
      · exact known_keep_self _
      · have hknown := hs.last r y hr hlife hstatus
        rw [known_keep_of_ne]
        · exact hknown
        · rintro ⟨hkind, hname⟩
          rw [hkind, hname, hnone] at hknown
          cases hknown
  · rcases remember_cases h kind name with ⟨q, -, hremember⟩ | ⟨hnone, hremember⟩
    · rw [hremember]
      exact hs.once
    · rw [hremember]
      intro q r x y hqr hq hr hsame
      obtain ⟨rfl, rfl⟩ | ⟨hlt, hr⟩ := getElem?_send hr
      · -- the map had nothing, so the questions before have failed
        obtain ⟨rfl, -⟩ | ⟨-, hq⟩ := getElem?_send hq
        · exact absurd hqr (Nat.lt_irrefl _)
        · obtain ⟨hkind, hname, hlife⟩ := hsame
          by_contra hstatus
          have hknown := hs.last q x hq (by rw [hlife, hname]) hstatus
          rw [hkind, hname, hnone] at hknown
          cases hknown
      · obtain ⟨rfl, -⟩ | ⟨-, hq⟩ := getElem?_send hq
        · omega
        · exact hs.once q r x y hqr hq hr hsame

/-- A promise that has not failed goes on to a status. -/
theorem setStatus_last (hs : Single measure h) (hq : h.questions[q]? = some x)
    {status : Status Answer} (hx : x.status ≠ .settled none) : Last (h.setStatus q x status) := by
  intro r y hr hlife hstatus
  obtain ⟨rfl, rfl⟩ | ⟨-, hr⟩ := getElem?_setStatus hq hr
  · exact hs.last r x hq hlife hx
  · exact hs.last r y hr hlife hstatus

/-- The same, with what is asked once. -/
theorem setStatus (hs : Single measure h) (hq : h.questions[q]? = some x)
    {status : Status Answer} (hx : x.status ≠ .settled none)
    (hinv : Inv measure (h.setStatus q x status)) : Single measure (h.setStatus q x status) where
  inv := hinv
  last := hs.setStatus_last hq hx
  once := hs.once.setStatus hq fun hfailed => absurd hfailed hx

theorem reply (hs : Single measure h) (q : ℕ) (refused : Bool) :
    Single measure (h.reply measure q refused) := by
  have hinv := hs.inv.reply q refused
  rcases reply_cases measure h q refused with hsame | ⟨x, outcome, hq, hsent, hreply, -⟩
  · rw [hsame]
    exact hs
  · rw [hreply] at hinv ⊢
    refine hs.setStatus hq ?_ hinv
    rw [hsent]
    exact nofun

theorem settle (hs : Single measure h) (q : ℕ) (hfresh : Fresh h (.settle q)) :
    Single measure (h.settle q) := by
  have hinv := hs.inv.settle q
  rcases settle_cases h q with hsame | ⟨x, hq, hfailed, hsettle⟩ | ⟨x, answer, hq, hstatus, hsettle⟩
  · rw [hsame]
    exact hs
  · rw [hsettle] at hinv ⊢
    have hq' : (h.keep x.kind x.name none).questions[q]? = some x := hq
    have honce : Once (h.keep x.kind x.name none) := hs.once
    refine ⟨hinv, ?_, honce.setStatus hq' fun _ => rfl⟩
    intro r y hr hlife hunfailed
    show (h.keep x.kind x.name none).known y.kind y.name = some r
    obtain ⟨rfl, rfl⟩ | ⟨hrq, hr⟩ := getElem?_setStatus hq' hr
    · exact absurd rfl hunfailed
    · -- another question of the map would be one that the failure meets
      have hknown := hs.last r y hr hlife hunfailed
      rw [known_keep_of_ne]
      · exact hknown
      · rintro ⟨hkind, hname⟩
        rw [hkind, hname] at hknown
        exact hrq (hfresh q r x rfl hq hfailed hknown)
  · rw [hsettle] at hinv ⊢
    refine hs.setStatus hq ?_ hinv
    rw [hstatus]
    exact nofun

theorem viewDelete (hs : Single measure h) (name : String) :
    Single measure (h.viewDelete name) where
  inv := hs.inv.viewDelete name
  last := by
    intro q x hq hlife hstatus
    have hle := hs.inv.life q x hq
    have hlife' : x.life = if x.name = name then h.deleted x.name + 1 else h.deleted x.name := hlife
    split at hlife'
    · omega
    · rename_i hne
      exact (if_neg hne).trans (hs.last q x hq hlife' hstatus)
  once := hs.once

theorem create (hs : Single measure h) (name : String) (view : View) :
    Single measure (h.create name view) := by
  refine ⟨hs.inv.create name view, ?_, ?_⟩
  · unfold Handler.create
    split
    · exact hs.last
    · exact hs.last
  · unfold Handler.create
    split
    · exact hs.once
    · exact hs.once

theorem step (hs : Single measure h) (e : Event View) (hfresh : Fresh h e) :
    Single measure (Remembered.step measure h e) := by
  cases e with
  | create name view => exact hs.create name view
  | delete name => exact hs.viewDelete name
  | ask kind name => exact hs.remember kind name
  | reply q refused => exact hs.reply q refused
  | settle q => exact hs.settle q hfresh

end Single

/-- Along runs in which no failure meets a later question in its place, a view is asked
for a thing again only after all questions for it have failed. -/
theorem asked_once {events : List (Event View)}
    (h : Along (step measure) Fresh (Handler.new : Handler View Answer) events) :
    Everywhere (step measure) Once (Handler.new : Handler View Answer) events :=
  everywhere_of_inv (fun _ e hs hfresh => hs.step e hfresh) (fun _ hs => hs.once) single_new h

/-- The count of a view is refused once and asked again. -/
theorem asked_once_refused : Everywhere (step fun _ (view : ℕ) => view) Once Handler.new
    [.create "view" 7, .ask .sizes "view", .reply 0 true, .settle 0, .ask .sizes "view",
      .reply 1 false, .settle 1, .ask .sizes "view"] := by
  refine asked_once ⟨nofun, nofun, nofun, ?_, nofun, nofun, ?_, nofun, trivial⟩
  · rintro q r x ⟨⟩ hx - hr
    obtain rfl := Option.some.inj hx
    exact (Option.some.inj hr).symm
  · rintro q r x ⟨⟩ hx - hr
    obtain rfl := Option.some.inj hx
    exact (Option.some.inj hr).symm

/-- A failure that comes after the view was deleted drops the question about the next
view of the name, and that view is asked twice. -/
example : ¬ Once (runFrom (step fun _ (view : ℕ) => view) Handler.new
    [.create "view" 7, .ask .sizes "view", .delete "view", .create "view" 8, .ask .sizes "view",
      .reply 0 true, .settle 0, .ask .sizes "view"]) := by
  intro honce
  have hfailed := honce 1 2 _ _ (by decide) rfl rfl ⟨rfl, rfl, rfl⟩
  cases hfailed

end Invariant

end Symm.Workbench.Remembered
