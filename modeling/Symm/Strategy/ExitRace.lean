import Symm.Lib.Threads
import Symm.Strategy.Model
import Symm.Strategy.TreeSpec

/-!
# Calls of `Model.Exit` at the same time (`strategy/model.go`, `strategy/tree.go`)

The tasks of a step run on a pool over one tree, and the tree's mutex is held
for the lookup of `Ensure`, for the body of `Insert` and for that of `Update`,
one at a time. A turn is one of these sections.

- `exitTurn`: one turn of one `Exit`, with a ledger of what was found absent,
  reset and applied;
- `exit_alone`: the turns of one call alone do what `Model.exit` does;
- `Kept`: no leaf was reset and each has its starting value and its deltas;
- `outcomes_kept`: this is so unless two lookups find one path absent.

`Ensure` looks a path up under the lock, lets go of it, and inserts the leaf under the
lock again. Two calls that find the same path absent both insert, and the second one
resets what the first and everybody after it had added.

The resistances are rational numbers here, so the order of the updates does not matter
for their sum. In the code it does, in the last place of a float64.
-/

namespace Symm.Strategy

open Symm.System Symm.Lib Symm.Broker

/-- A call on the tree. -/
inductive TreeCall
  | ensure (path : String) (action : Action)
  | update (path : String) (delta : ℚ)
  deriving DecidableEq

/-- What is left of a `Model.Exit`: the leaf `Ensure` is about to insert, having
found it absent, and the calls after it. -/
structure ExitCall where
  seeding : Option (String × Action)
  rest : List TreeCall
  deriving DecidableEq

/-- The tree, the paths that lookups found absent, the leaves that inserts reset,
and the sum of the deltas applied at each path. The sum is exact, as resistances are in
the tree here; `tree.go` adds float64s, in the order in which the updates get the mutex. -/
structure Ledger where
  tree : Tree
  missed : List String
  reset : List String
  applied : String → ℚ

/-- The tree as the calls find it. -/
def Tree.ledger (tree : Tree) : Ledger := ⟨tree, [], [], fun _ => 0⟩

/-- `Model.Exit` when it is called. -/
def Model.exitCall (position : Position) (path : String) : ExitCall where
  seeding := none
  rest :=
    if path = "" ∨ path = position.entryPath then []
    else [.ensure position.entryPath .enter, .ensure path .exit,
      .update position.entryPath (delta position), .update path (delta position)]

/-- The body of `Insert` of a seeded leaf. -/
def Ledger.seed (learn : Learning) (path : String) (action : Action) (ledger : Ledger) :
    Ledger := { ledger with
  tree := ledger.tree.insert learn path ⟨action.string, path, seedResistance⟩
  reset :=
    if path = "" ∨ segments path < learn.minPathLength ∨ (ledger.tree.get path).isNone then
      ledger.reset
    else ledger.reset ++ [path] }

/-- The body of `Update`. -/
def Ledger.update (learn : Learning) (path : String) (delta : ℚ) (ledger : Ledger) :
    Ledger := { ledger with
  tree := ledger.tree.update learn path delta
  applied := fun key =>
    if path = "" ∨ segments path < learn.minPathLength then ledger.applied key
    else if Tree.under path key ∧ (ledger.tree.get key).isSome then ledger.applied key + delta
    else ledger.applied key }

/-- One turn of a call: the guards of `Ensure` and its lookup, the insert that
follows where the lookup found nothing, or an `Update`. -/
def exitTurn (learn : Learning) (_ : Unit) (ledger : Ledger) : ExitCall → Ledger × ExitCall
  | ⟨some (path, action), rest⟩ => (ledger.seed learn path action, ⟨none, rest⟩)
  | ⟨none, []⟩ => (ledger, ⟨none, []⟩)
  | ⟨none, .ensure path action :: rest⟩ =>
    if path = "" ∨ action = .none ∨ segments path < learn.minPathLength then
      (ledger, ⟨none, rest⟩)
    else if (ledger.tree.get path).isSome then (ledger, ⟨none, rest⟩)
    else ({ ledger with missed := ledger.missed ++ [path] }, ⟨some (path, action), rest⟩)
  | ⟨none, .update path delta :: rest⟩ => (ledger.update learn path delta, ⟨none, rest⟩)

/-- The path the next turn of a call finds absent. -/
def misses (learn : Learning) (ledger : Ledger) : ExitCall → Option String
  | ⟨none, .ensure path action :: _⟩ =>
    if path = "" ∨ action = .none ∨ segments path < learn.minPathLength then none
    else if (ledger.tree.get path).isSome then none
    else some path
  | _ => none

/-- The path a call is about to seed. -/
def ExitCall.seedPath (call : ExitCall) : Option String := call.seeding.map Prod.fst

/-- The turn does not find a path absent that another lookup found absent before. -/
def FirstMiss (learn : Learning) (_ : Unit) (ledger : Ledger) (call : ExitCall) : Prop :=
  ∀ path ∈ misses learn ledger call, path ∉ ledger.missed

instance (learn : Learning) (x : Unit) (ledger : Ledger) (call : ExitCall) :
    Decidable (FirstMiss learn x ledger call) :=
  inferInstanceAs (Decidable (∀ path ∈ misses learn ledger call, path ∉ ledger.missed))

/-! ## A call alone -/

/-- Alone, the turns of `Ensure` do what it does in one go. -/
theorem alone_ensure (learn : Learning) (path : String) (action : Action) (rest : List TreeCall)
    (ledger : Ledger) : ∃ n ledger',
      runFrom (alone (exitTurn learn)) (ledger, ⟨none, .ensure path action :: rest⟩)
        (List.replicate n ()) = (ledger', ⟨none, rest⟩) ∧
      ledger'.tree = ledger.tree.ensure learn path action := by
  unfold Tree.ensure
  split
  · rename_i hguard
    refine ⟨1, ledger, ?_, rfl⟩
    exact if_pos hguard
  · rename_i hguard
    split
    · rename_i hsome
      refine ⟨1, ledger, ?_, rfl⟩
      exact (if_neg hguard).trans (if_pos hsome)
    · rename_i hnone
      refine ⟨2, Ledger.seed learn path action { ledger with missed := ledger.missed ++ [path] },
        ?_, rfl⟩
      have hmiss : alone (exitTurn learn) (ledger, ⟨none, .ensure path action :: rest⟩) () =
          ({ ledger with missed := ledger.missed ++ [path] }, ⟨some (path, action), rest⟩) :=
        (if_neg hguard).trans (if_neg hnone)
      show alone (exitTurn learn) (alone (exitTurn learn) _ ()) () = _
      rw [hmiss]
      rfl

/-- Alone, a call leaves the tree that `Model.exit` leaves. -/
theorem exit_alone (learn : Learning) (path : String) (model : Model) (ref : TierType × LotId)
    {position : Position} (hlot : model.lot ref = some position) : ∃ n ledger,
      runFrom (alone (exitTurn learn)) (model.tree.ledger, Model.exitCall position path)
        (List.replicate n ()) = (ledger, ⟨none, []⟩) ∧
      ledger.tree = (model.exit learn path ref).tree := by
  unfold Model.exit Model.exitCall
  rw [hlot]
  dsimp only
  split
  · exact ⟨0, model.tree.ledger, rfl, rfl⟩
  · obtain ⟨n, entered, hn, hentered⟩ := alone_ensure learn position.entryPath .enter
      [.ensure path .exit, .update position.entryPath (Model.delta position),
        .update path (Model.delta position)] model.tree.ledger
    obtain ⟨m, exited, hm, hexited⟩ := alone_ensure learn path .exit
      [.update position.entryPath (Model.delta position),
        .update path (Model.delta position)] entered
    refine ⟨n + (m + 2), (exited.update learn position.entryPath (Model.delta position)).update
      learn path (Model.delta position), ?_, ?_⟩
    · rw [List.replicate_add, runFrom_append, hn, List.replicate_add, runFrom_append, hm]
      rfl
    · show (exited.tree.update learn _ _).update learn _ _ = _
      rw [hexited, hentered]
      rfl

/-! ## What one turn does -/

/-- The value a leaf starts from. -/
def startOf (tree : Tree) (path : String) : ℚ :=
  ((tree.get path).map Leaf.resistance).getD seedResistance

/-- No leaf was reset, and each has its starting value and the deltas applied to it. That no
delta is lost does not rest on the sums being exact: each update adds its own delta to what
the one before it left. -/
structure Kept (learn : Learning) (tree : Tree) (ledger : Ledger) : Prop where
  resistance : ∀ path leaf, learn.minPathLength ≤ segments path →
    ledger.tree.get path = some leaf → leaf.resistance = startOf tree path + ledger.applied path
  reset : ledger.reset = []

/-- The calls on a tree. -/
def exits (tree : Tree) (calls : ℕ → Position × String) : Threads Ledger ExitCall where
  shared := tree.ledger
  calls := fun i => Model.exitCall (calls i).1 (calls i).2

/-- A turn finds a path absent, inserts a leaf, applies a delta or passes. -/
theorem exitTurn_cases (learn : Learning) (x : Unit) (ledger : Ledger) (call : ExitCall) :
    (∃ path, misses learn ledger call = some path ∧ call.seedPath = none ∧
      ¬ (path = "" ∨ segments path < learn.minPathLength) ∧ ledger.tree.get path = none ∧
      (exitTurn learn x ledger call).1 = { ledger with missed := ledger.missed ++ [path] } ∧
      (exitTurn learn x ledger call).2.seedPath = some path) ∨
    (∃ path action, misses learn ledger call = none ∧ call.seedPath = some path ∧
      (exitTurn learn x ledger call).1 = ledger.seed learn path action ∧
      (exitTurn learn x ledger call).2.seedPath = none) ∨
    (∃ path delta, misses learn ledger call = none ∧ call.seedPath = none ∧
      (exitTurn learn x ledger call).1 = ledger.update learn path delta ∧
      (exitTurn learn x ledger call).2.seedPath = none) ∨
    (misses learn ledger call = none ∧ call.seedPath = none ∧
      (exitTurn learn x ledger call).1 = ledger ∧
      (exitTurn learn x ledger call).2.seedPath = none) := by
  obtain ⟨seeding, rest⟩ := call
  cases seeding with
  -- a seed that was missed before is the turn of its call
  | some leaf => exact .inr (.inl ⟨leaf.1, leaf.2, rfl, rfl, rfl, rfl⟩)
  | none =>
    cases rest with
    | nil => exact .inr (.inr (.inr ⟨rfl, rfl, rfl, rfl⟩))
    | cons call rest =>
      cases call with
      | update path delta => exact .inr (.inr (.inl ⟨path, delta, rfl, rfl, rfl, rfl⟩))
      -- the guard of `Ensure`, and then whether the leaf is there
      | ensure path action =>
        dsimp only [exitTurn, misses]
        split
        · exact .inr (.inr (.inr ⟨rfl, rfl, rfl, rfl⟩))
        · rename_i hguard
          split
          · exact .inr (.inr (.inr ⟨rfl, rfl, rfl, rfl⟩))
          · rename_i hnone
            refine .inl ⟨path, rfl, rfl, ?_, ?_, rfl, rfl⟩
            · rintro (hpath | hpath)
              · exact hguard (.inl hpath)
              · exact hguard (.inr (.inr hpath))
            · rwa [Bool.not_eq_true, Option.isSome_eq_false_iff, Option.isNone_iff_eq_none] at hnone

/-- Inserting a seed sets the leaf at its path, over what is there. -/
theorem get_seed {learn : Learning} {path : String}
    (hlong : ¬ (path = "" ∨ segments path < learn.minPathLength)) (action : Action)
    (ledger : Ledger) (key : String) :
    (ledger.seed learn path action).tree.get key =
      if key = path then some ⟨action.string, path, seedResistance⟩ else ledger.tree.get key := by
  have hput : ledger.tree.insert learn path ⟨action.string, path, seedResistance⟩ =
      ledger.tree.put path ⟨action.string, path, seedResistance⟩ := if_neg hlong
  show (ledger.tree.insert learn path _).get key = _
  rw [hput, Tree.get_put]

theorem reset_seed {learn : Learning} {path : String}
    (hlong : ¬ (path = "" ∨ segments path < learn.minPathLength)) (action : Action)
    (ledger : Ledger) : (ledger.seed learn path action).reset =
      if (ledger.tree.get path).isNone then ledger.reset else ledger.reset ++ [path] := by
  obtain ⟨hpath, hshort⟩ := not_or.mp hlong
  have hor : ∀ p : Prop, (path = "" ∨ segments path < learn.minPathLength ∨ p) = p := fun p =>
    propext ((or_iff_right hpath).trans (or_iff_right hshort))
  unfold Ledger.seed
  simp only [hor]

/-- An update adds no leaf and removes none. -/
theorem isSome_get_update (learn : Learning) (path : String) (delta : ℚ) (tree : Tree)
    (key : String) : ((tree.update learn path delta).get key).isSome = (tree.get key).isSome := by
  rw [Tree.get_update]
  split
  · rfl
  · exact Option.isSome_map

/-- No turn deletes a leaf. -/
theorem isSome_get_exitTurn (learn : Learning) (x : Unit) {ledger : Ledger} (call : ExitCall)
    {key : String} (h : (ledger.tree.get key).isSome) :
    ((exitTurn learn x ledger call).1.tree.get key).isSome := by
  rcases exitTurn_cases learn x ledger call with ⟨path, -, -, -, -, he, -⟩ |
    ⟨path, action, -, -, he, -⟩ | ⟨path, delta, -, -, he, -⟩ | ⟨-, -, he, -⟩
  · rwa [he]
  · rw [he]
    show ((ledger.tree.insert learn path _).get key).isSome
    unfold Tree.insert
    split
    · exact h
    · show ((ledger.tree.put path _).get key).isSome
      rw [Tree.get_put]
      split
      · rfl
      · exact h
  · rw [he]
    show ((ledger.tree.update learn path delta).get key).isSome
    rwa [isSome_get_update]
  · rwa [he]

/-! ## Without a second miss nothing is reset -/

/-- Every leaf accounts for the deltas applied to it, and an absent one has none. -/
structure Accounts (tree : Tree) (ledger : Ledger) : Prop where
  leaf : ∀ path leaf, ledger.tree.get path = some leaf →
    leaf.resistance = startOf tree path + ledger.applied path
  absent : ∀ path, ledger.tree.get path = none →
    tree.get path = none ∧ ledger.applied path = 0
  reset : ledger.reset = []

/-- The leaf a call is about to insert is still absent, and was found so. -/
def Owes (learn : Learning) (_ : ℕ) (ledger : Ledger) (call : ExitCall) : Prop :=
  ∀ path, call.seedPath = some path → path ∈ ledger.missed ∧ ledger.tree.get path = none ∧
    ¬ (path = "" ∨ segments path < learn.minPathLength)

/-- Two calls are not about to insert the same leaf. -/
def Disjoint (call call' : ExitCall) : Prop :=
  ∀ path, call.seedPath = some path → call'.seedPath ≠ some path

/-- Before any turn every leaf accounts for no deltas. -/
theorem accounts_ledger (tree : Tree) : Accounts tree tree.ledger where
  leaf path leaf h := by
    have hget : tree.get path = some leaf := h
    unfold startOf
    rw [hget]
    exact (add_zero leaf.resistance).symm
  absent _ h := ⟨h, rfl⟩
  reset := rfl

/-- Seeding where there is no leaf keeps the accounts. -/
theorem Accounts.seed {tree : Tree} {ledger : Ledger} (h : Accounts tree ledger)
    {learn : Learning} {path : String}
    (hlong : ¬ (path = "" ∨ segments path < learn.minPathLength)) (action : Action)
    (hnone : ledger.tree.get path = none) : Accounts tree (ledger.seed learn path action) where
  leaf key leaf hleaf := by
    rw [get_seed hlong] at hleaf
    split at hleaf
    · rename_i hkey
      obtain ⟨hstart, happlied⟩ := h.absent path hnone
      cases hleaf
      show seedResistance = startOf tree key + ledger.applied key
      unfold startOf
      rw [hkey, hstart, happlied]
      exact (add_zero seedResistance).symm
    · exact h.leaf key leaf hleaf
  absent key hkey := by
    rw [get_seed hlong] at hkey
    split at hkey
    · cases hkey
    · exact h.absent key hkey
  reset := by
    rw [reset_seed hlong, hnone]
    exact h.reset

/-- An update adds its delta to the leaf and to the account. -/
theorem Accounts.update {tree : Tree} {ledger : Ledger} (h : Accounts tree ledger)
    (learn : Learning) (path : String) (delta : ℚ) :
    Accounts tree (ledger.update learn path delta) where
  leaf key leaf hleaf := by
    have hget : (ledger.tree.update learn path delta).get key = some leaf := hleaf
    rw [Tree.get_update] at hget
    show leaf.resistance = startOf tree key + (if path = "" ∨ _ then _ else _)
    split
    · rename_i hshort
      rw [if_pos hshort] at hget
      exact h.leaf key leaf hget
    · rename_i hlong
      rw [if_neg hlong] at hget
      obtain ⟨before, hbefore, hbump⟩ := Option.map_eq_some_iff.mp hget
      -- the leaf was there before: its account goes on by the delta, if the path is over it
      have hvalue := h.leaf key before hbefore
      unfold Tree.bump at hbump
      rw [hbefore, ← hbump]
      by_cases hunder : Tree.under path key
      · rw [if_pos hunder, if_pos ⟨hunder, rfl⟩, ← add_assoc, ← hvalue]
      · rw [if_neg hunder, if_neg fun hboth => hunder hboth.1, hvalue]
  absent key hkey := by
    -- an update makes no leaf
    have hnone : ledger.tree.get key = none := by
      have hsome := isSome_get_update learn path delta ledger.tree key
      have hget : (ledger.tree.update learn path delta).get key = none := hkey
      rw [hget] at hsome
      exact Option.isNone_iff_eq_none.mp (Option.isSome_eq_false_iff.mp hsome.symm)
    obtain ⟨hstart, happlied⟩ := h.absent key hnone
    refine ⟨hstart, ?_⟩
    show (if path = "" ∨ _ then _ else _) = _
    rw [hnone]
    split
    · exact happlied
    · exact (if_neg fun hboth => Bool.false_ne_true hboth.2).trans happlied
  reset := h.reset

/-- A turn that is no second miss keeps the accounts, and the calls' claims on the
absent leaves apart. -/
theorem preserves_accounts (learn : Learning) (tree : Tree) :
    Threads.Preserves (exitTurn learn) (FirstMiss learn) (Accounts tree) (Owes learn)
      Disjoint where
  shared i x ledger call _ haccounts howes := by
    rcases exitTurn_cases learn x ledger call with ⟨path, -, -, -, -, he, -⟩ |
      ⟨path, action, -, hseed, he, -⟩ | ⟨path, delta, -, -, he, -⟩ | ⟨-, -, he, -⟩
    · rw [he]
      exact ⟨haccounts.leaf, haccounts.absent, haccounts.reset⟩
    · obtain ⟨-, hnone, hlong⟩ := howes path hseed
      rw [he]
      exact haccounts.seed hlong action hnone
    · rw [he]
      exact haccounts.update learn path delta
    · rwa [he]
  own i x ledger call _ _ _ := by
    intro key hkey
    rcases exitTurn_cases learn x ledger call with ⟨path, -, -, hlong, hnone, he, hseed⟩ |
      ⟨path, action, -, -, -, hseed⟩ | ⟨path, delta, -, -, -, hseed⟩ | ⟨-, -, -, hseed⟩
    · -- the first miss makes the call owe the leaf, which is absent
      rw [hseed] at hkey
      cases hkey
      rw [he]
      exact ⟨List.mem_append_right ledger.missed List.mem_cons_self, hnone, hlong⟩
    all_goals
      rw [hseed] at hkey
      cases hkey
  other i j x ledger call call' _ _ _ howes howes' hpair _ := by
    intro key hkey
    obtain ⟨hmissed, hnone, hlong⟩ := howes' key hkey
    rcases exitTurn_cases learn x ledger call with ⟨path, -, -, -, -, he, -⟩ |
      ⟨path, action, -, hseed, he, -⟩ | ⟨path, delta, -, -, he, -⟩ | ⟨-, -, he, -⟩
    · rw [he]
      exact ⟨List.mem_append_left [path] hmissed, hnone, hlong⟩
    · -- the leaf inserted is that of the moving call
      have hne : key ≠ path := by
        rintro rfl
        exact hpair key hseed hkey
      rw [he]
      refine ⟨hmissed, ?_, hlong⟩
      rw [get_seed (howes path hseed).2.2, if_neg hne, hnone]
    · rw [he]
      refine ⟨hmissed, ?_, hlong⟩
      rw [← Option.isNone_iff_eq_none, ← Option.isSome_eq_false_iff] at hnone ⊢
      exact (isSome_get_update learn path delta ledger.tree key).trans hnone
    · rw [he]
      exact ⟨hmissed, hnone, hlong⟩
  pair i j x ledger call call' _ hfirst _ _ howes' _ _ := by
    have hapart : ∀ path, (exitTurn learn x ledger call).2.seedPath = some path →
        call'.seedPath ≠ some path := by
      intro key hkey hkey'
      rcases exitTurn_cases learn x ledger call with ⟨path, hmiss, -, -, -, -, hseed⟩ |
        ⟨path, action, -, -, -, hseed⟩ | ⟨path, delta, -, -, -, hseed⟩ | ⟨-, -, -, hseed⟩
      · rw [hseed] at hkey
        cases hkey
        -- the other call has missed the path already
        exact hfirst key hmiss (howes' key hkey').1
      all_goals
        rw [hseed] at hkey
        cases hkey
    exact ⟨hapart, fun key hkey hkey' => hapart key hkey' hkey⟩

/-- No turn of the run is a second miss. -/
def NeverTwice (learn : Learning) (s : Threads Ledger ExitCall) (order : List (ℕ × Unit)) :
    Prop :=
  Along (turns (exitTurn learn)) (fun s e => FirstMiss learn e.2 s.shared (s.calls e.1)) s order

instance (learn : Learning) (s : Threads Ledger ExitCall) (order : List (ℕ × Unit)) :
    Decidable (NeverTwice learn s order) :=
  inferInstanceAs (Decidable (Along _ _ _ _))

/-- The calls of a step begin with the accounts in order. -/
theorem inv_exits (learn : Learning) (tree : Tree) (calls : ℕ → Position × String) :
    (exits tree calls).Inv (Accounts tree) (Owes learn) Disjoint where
  shared := accounts_ledger tree
  call _ _ h := by cases h
  pair _ _ _ _ h := by cases h

/-- Without a second miss the outcomes are kept in every state of the run. -/
theorem kept_of_neverTwice {learn : Learning} {tree : Tree} {calls : ℕ → Position × String}
    {order : List (ℕ × Unit)} (h : NeverTwice learn (exits tree calls) order) :
    Everywhere (turns (exitTurn learn)) (fun s => Kept learn tree s.shared)
      (exits tree calls) order := by
  have hstep : ∀ (s : Threads Ledger ExitCall) (e : ℕ × Unit),
      s.Inv (Accounts tree) (Owes learn) Disjoint →
      FirstMiss learn e.2 s.shared (s.calls e.1) →
      (turns (exitTurn learn) s e).Inv (Accounts tree) (Owes learn) Disjoint :=
    fun _ e hs hok => inv_turns (preserves_accounts learn tree) hs e hok
  refine everywhere_of_inv hstep (fun s hs => ?_) (inv_exits learn tree calls) h
  exact ⟨fun path leaf _ hleaf => hs.shared.leaf path leaf hleaf, hs.shared.reset⟩

/-! ## After a second miss a leaf is reset -/

/-- What was found absent is present, or a call is about to insert it. -/
structure Owed (learn : Learning) (s : Threads Ledger ExitCall) : Prop where
  missed : ∀ path ∈ s.shared.missed,
    (s.shared.tree.get path).isSome ∨ ∃ i, (s.calls i).seedPath = some path
  long : ∀ i path, (s.calls i).seedPath = some path →
    ¬ (path = "" ∨ segments path < learn.minPathLength)

/-- A leaf was reset, or an insert to come will reset one. -/
def Doomed (s : Threads Ledger ExitCall) : Prop :=
  s.shared.reset ≠ [] ∨
  (∃ i path, (s.calls i).seedPath = some path ∧ (s.shared.tree.get path).isSome) ∨
  ∃ i j path, i ≠ j ∧ (s.calls i).seedPath = some path ∧ (s.calls j).seedPath = some path

/-- Nothing was missed before the first turn. -/
theorem owed_exits (learn : Learning) (tree : Tree) (calls : ℕ → Position × String) :
    Owed learn (exits tree calls) where
  missed _ h := by cases h
  long _ _ h := by cases h

/-- A call about to insert either waits or has its leaf in the tree. -/
theorem seedPath_turns (learn : Learning) {s : Threads Ledger ExitCall} (e : ℕ × Unit)
    {i : ℕ} {path : String} (h : (s.calls i).seedPath = some path) :
    (turns (exitTurn learn) s e).calls i = s.calls i ∧ i ≠ e.1 ∨
    i = e.1 ∧ ∃ action, (turns (exitTurn learn) s e).shared = s.shared.seed learn path action := by
  obtain ⟨k, x⟩ := e
  by_cases hik : i = k
  · subst hik
    rcases exitTurn_cases learn x s.shared (s.calls i) with ⟨_, -, hseed, -⟩ |
      ⟨seeded, action, -, hseed, he, -⟩ | ⟨_, _, -, hseed, -⟩ | ⟨-, hseed, -⟩
    · cases hseed.symm.trans h
    · cases hseed.symm.trans h
      exact .inr ⟨rfl, action, he⟩
    · cases hseed.symm.trans h
    · cases hseed.symm.trans h
  · exact .inl ⟨turns_other s hik x, hik⟩

/-- After a seed there is a leaf. -/
theorem isSome_get_seed {learn : Learning} {path : String}
    (hlong : ¬ (path = "" ∨ segments path < learn.minPathLength)) (action : Action)
    (ledger : Ledger) : ((ledger.seed learn path action).tree.get path).isSome := by
  rw [get_seed hlong, if_pos rfl]
  rfl

/-- What was missed is either there or still owed, turn by turn. -/
theorem owed_turns {learn : Learning} {s : Threads Ledger ExitCall} (hs : Owed learn s)
    (e : ℕ × Unit) : Owed learn (turns (exitTurn learn) s e) where
  missed path hpath := by
    -- a path missed before: its leaf stays, or its call still owes it or inserts it
    have hbefore : path ∈ s.shared.missed → ((turns (exitTurn learn) s e).shared.tree.get
        path).isSome ∨ ∃ i, ((turns (exitTurn learn) s e).calls i).seedPath = some path := by
      intro hmem
      rcases hs.missed path hmem with hsome | ⟨i, hi⟩
      · exact .inl (isSome_get_exitTurn learn e.2 (s.calls e.1) hsome)
      · rcases seedPath_turns learn e hi with ⟨hsame, -⟩ | ⟨-, action, he⟩
        · exact .inr ⟨i, by rw [hsame, hi]⟩
        · rw [he]
          exact .inl (isSome_get_seed (hs.long i path hi) action s.shared)
    have hshared : (turns (exitTurn learn) s e).shared =
        (exitTurn learn e.2 s.shared (s.calls e.1)).1 := rfl
    rcases exitTurn_cases learn e.2 s.shared (s.calls e.1) with ⟨found, -, -, -, -, he, hseed⟩ |
      ⟨_, _, -, -, he, -⟩ | ⟨_, _, -, -, he, -⟩ | ⟨-, -, he, -⟩
    · rw [hshared, he] at hpath
      rcases List.mem_append.mp hpath with hmem | hmem
      · exact hbefore hmem
      · rw [List.mem_singleton.mp hmem]
        refine .inr ⟨e.1, ?_⟩
        rw [← hseed]
        exact congrArg ExitCall.seedPath (turns_self s e.1 e.2)
    all_goals
      rw [hshared, he] at hpath
      exact hbefore hpath
  long i path hi := by
    by_cases hie : i = e.1
    · subst hie
      rw [turns_self s e.1 e.2] at hi
      rcases exitTurn_cases learn e.2 s.shared (s.calls e.1) with ⟨found, -, -, hlong, -, -, hseed⟩ |
        ⟨_, _, -, -, -, hseed⟩ | ⟨_, _, -, -, -, hseed⟩ | ⟨-, -, -, hseed⟩
      · rw [hseed] at hi
        cases hi
        exact hlong
      all_goals
        rw [hseed] at hi
        cases hi
    · rw [turns_other s hie e.2] at hi
      exact hs.long i path hi

/-- A reset is not taken back. -/
theorem reset_exitTurn (learn : Learning) (x : Unit) {ledger : Ledger} (call : ExitCall)
    (h : ledger.reset ≠ []) : (exitTurn learn x ledger call).1.reset ≠ [] := by
  rcases exitTurn_cases learn x ledger call with ⟨_, -, -, -, -, he, -⟩ |
    ⟨path, action, -, -, he, -⟩ | ⟨_, _, -, -, he, -⟩ | ⟨-, -, he, -⟩
  · rwa [he]
  · rw [he]
    show (if _ then ledger.reset else ledger.reset ++ [path]) ≠ []
    split
    · exact h
    · exact List.append_ne_nil_of_right_ne_nil _ (List.cons_ne_nil path [])
  · rwa [he]
  · rwa [he]

/-- A reset that is bound to come stays so until it comes. -/
theorem doomed_turns {learn : Learning} {s : Threads Ledger ExitCall} (hs : Owed learn s)
    (h : Doomed s) (e : ℕ × Unit) : Doomed (turns (exitTurn learn) s e) := by
  rcases h with hreset | ⟨i, path, hi, hsome⟩ | ⟨i, j, path, hij, hi, hj⟩
  · exact .inl (reset_exitTurn learn e.2 (s.calls e.1) hreset)
  · rcases seedPath_turns learn e hi with ⟨hsame, -⟩ | ⟨-, action, he⟩
    · exact .inr (.inl ⟨i, path, by rw [hsame, hi],
        isSome_get_exitTurn learn e.2 (s.calls e.1) hsome⟩)
    · left
      rw [he, reset_seed (hs.long i path hi), if_neg]
      · exact List.append_ne_nil_of_right_ne_nil _ (List.cons_ne_nil path [])
      · rw [Option.isNone_iff_eq_none]
        exact Option.isSome_iff_ne_none.mp hsome
  · -- the first of the two inserts, or neither does
    rcases seedPath_turns learn e hi with ⟨hsame, -⟩ | ⟨hie, action, he⟩
    · rcases seedPath_turns learn e hj with ⟨hsame', -⟩ | ⟨-, action, he⟩
      · exact .inr (.inr ⟨i, j, path, hij, by rw [hsame, hi], by rw [hsame', hj]⟩)
      · refine .inr (.inl ⟨i, path, by rw [hsame, hi], ?_⟩)
        rw [he]
        exact isSome_get_seed (hs.long i path hi) action s.shared
    · rcases seedPath_turns learn e hj with ⟨hsame', -⟩ | ⟨hje, -⟩
      · refine .inr (.inl ⟨j, path, by rw [hsame', hj], ?_⟩)
        rw [he]
        exact isSome_get_seed (hs.long i path hi) action s.shared
      · exact absurd (hie.trans hje.symm) hij

/-- The second lookup that finds a path absent dooms its leaf. -/
theorem doomed_of_secondMiss {learn : Learning} {s : Threads Ledger ExitCall} (hs : Owed learn s)
    {e : ℕ × Unit} (h : ¬ FirstMiss learn e.2 s.shared (s.calls e.1)) :
    Doomed (turns (exitTurn learn) s e) := by
  unfold FirstMiss at h
  push Not at h
  obtain ⟨path, hmiss, hmem⟩ := h
  rcases exitTurn_cases learn e.2 s.shared (s.calls e.1) with
    ⟨found, hfound, hidle, -, hnone, -, hseed⟩ | ⟨_, _, hfound, -⟩ | ⟨_, _, hfound, -⟩ | ⟨hfound, -⟩
  · cases hfound.symm.trans hmiss
    rcases hs.missed path hmem with hsome | ⟨i, hi⟩
    · rw [hnone] at hsome
      cases hsome
    · have hie : i ≠ e.1 := by
        rintro rfl
        cases hidle.symm.trans hi
      refine .inr (.inr ⟨i, e.1, path, hie, ?_, ?_⟩)
      · rw [turns_other s hie e.2, hi]
      · rw [← hseed]
        exact congrArg ExitCall.seedPath (turns_self s e.1 e.2)
  all_goals cases hfound.symm.trans hmiss

/-- Every call has returned. -/
def AllReturned (s : Threads Ledger ExitCall) : Prop := ∀ i, s.calls i = ⟨none, []⟩

/-- So if nothing was reset in the end, no two lookups missed one path. -/
theorem neverTwice_of_reset {learn : Learning} {s : Threads Ledger ExitCall} (hs : Owed learn s)
    {order : List (ℕ × Unit)} (hreturned : AllReturned (runFrom (turns (exitTurn learn)) s order))
    (h : (runFrom (turns (exitTurn learn)) s order).shared.reset = []) :
    NeverTwice learn s order := by
  induction order generalizing s with
  | nil => trivial
  | cons e order ih =>
    refine ⟨?_, ih (owed_turns hs e) hreturned h⟩
    by_contra hsecond
    have hstep : ∀ (s : Threads Ledger ExitCall) (e : ℕ × Unit), Owed learn s ∧ Doomed s →
        Owed learn (turns (exitTurn learn) s e) ∧ Doomed (turns (exitTurn learn) s e) :=
      fun s e hs => ⟨owed_turns hs.1 e, doomed_turns hs.1 hs.2 e⟩
    have hdoomed := (always_runFrom hstep ⟨owed_turns hs e, doomed_of_secondMiss hs hsecond⟩
      order).2
    have hidle : ∀ i, ((runFrom (turns (exitTurn learn)) (turns (exitTurn learn) s e)
        order).calls i).seedPath = none := fun i => congrArg ExitCall.seedPath (hreturned i)
    rcases hdoomed with hreset | ⟨i, path, hi, -⟩ | ⟨i, _, path, -, hi, -⟩
    · exact hreset h
    · cases (hidle i).symm.trans hi
    · cases (hidle i).symm.trans hi

/-- The outcomes are kept, in every state, by the runs in which no path is found absent
twice; a run whose calls have all returned keeps them in no other case. -/
theorem outcomes_kept (learn : Learning) (tree : Tree) (calls : ℕ → Position × String)
    (order : List (ℕ × Unit)) :
    (NeverTwice learn (exits tree calls) order →
      Everywhere (turns (exitTurn learn)) (fun s => Kept learn tree s.shared)
        (exits tree calls) order) ∧
    (AllReturned (runFrom (turns (exitTurn learn)) (exits tree calls) order) →
      (Kept learn tree (runFrom (turns (exitTurn learn)) (exits tree calls) order).shared ↔
        NeverTwice learn (exits tree calls) order)) := by
  refine ⟨kept_of_neverTwice, fun hreturned => ⟨fun hkept => ?_, fun h => ?_⟩⟩
  · exact neverTwice_of_reset (owed_exits learn tree calls) hreturned hkept.reset
  · exact (kept_of_neverTwice h).last

/-! ## Two lots on one entry path -/

/-- Two calls on lots that entered on one path. -/
def sampleCalls (i : ℕ) : Position × String :=
  (Position.new "A/B" "virtual" "a/b" "lot", if i = 0 then "c/d" else if i = 1 then "e/f" else "")

/-- The first call returns before the second begins. -/
def sampleInTurn : List (ℕ × Unit) :=
  List.replicate 6 (0, ()) ++ List.replicate 5 (1, ())

/-- Both look the entry path up before either inserts it. -/
def sampleRace : List (ℕ × Unit) :=
  [(0, ()), (1, ())] ++ List.replicate 5 (0, ()) ++ List.replicate 5 (1, ())

/-- No leaf yet. -/
def emptyTree : Tree := ⟨[], ascending_nil⟩

theorem allReturned_sample {order : List (ℕ × Unit)} (horder : ∀ e ∈ order, e.1 < 2)
    (hfirst : (runFrom (turns (exitTurn Cfg.defaults.learning)) (exits emptyTree sampleCalls)
      order).calls 0 = ⟨none, []⟩)
    (hsecond : (runFrom (turns (exitTurn Cfg.defaults.learning)) (exits emptyTree sampleCalls)
      order).calls 1 = ⟨none, []⟩) :
    AllReturned (runFrom (turns (exitTurn Cfg.defaults.learning)) (exits emptyTree sampleCalls)
      order) := by
  intro i
  match i with
  | 0 => exact hfirst
  | 1 => exact hsecond
  | i + 2 =>
    rw [calls_runFrom_of_not_mem]
    · rfl
    · intro e he
      have hlt := horder e he
      omega

/-- Two exits over one path, one after the other. -/
theorem outcomes_kept_sample : Kept Cfg.defaults.learning emptyTree (runFrom
    (turns (exitTurn Cfg.defaults.learning)) (exits emptyTree sampleCalls) sampleInTurn).shared :=
  ((outcomes_kept Cfg.defaults.learning emptyTree sampleCalls sampleInTurn).2
    (allReturned_sample (by decide) (by decide +kernel) (by decide +kernel))).mpr
    (by decide +kernel)

/-- The second insert wipes what the first call settled. -/
theorem sampleRace_wipes :
    AllReturned (runFrom (turns (exitTurn Cfg.defaults.learning)) (exits emptyTree sampleCalls)
      sampleRace) ∧
    ¬ Kept Cfg.defaults.learning emptyTree (runFrom (turns (exitTurn Cfg.defaults.learning))
      (exits emptyTree sampleCalls) sampleRace).shared := by
  refine ⟨allReturned_sample (by decide) (by decide +kernel) (by decide +kernel), fun h => ?_⟩
  have hvalue := h.resistance "a/b" ⟨"enter", "a/b", 11 / 20⟩ (by decide) (by decide +kernel)
  exact absurd hvalue (by decide +kernel)

end Symm.Strategy
