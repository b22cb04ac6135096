import Mathlib.Data.List.Sort
import Symm.Strategy.Tree

/-!
# What the policy tree holds after each operation

A tree is determined by the leaf it has at each path (`ext_get`), so each
operation is described once by what `get` returns afterwards. The walk of
`Predict` prunes exactly the leaves that are `Condemned` in the tree before it.

That a leaf lies under a path is a test of bytes, not of tokens: `a/b1` lies under
`a/b`. So `Update` and the walk reach more leaves than a tree of tokens would give them,
and every lemma says so with the test that the code makes.

- `get_put`, `get_without`, `get_update`: what is read at a key after each of the
  writes;
- `predict_fst`: what the walk leaves of the tree;
- `mem_prunes_iff`: which leaves it removes.
-/

namespace Symm.Strategy

open Symm.System Symm.Lib

/-- The first entry of a key is its only one. -/
theorem Ascending.find_iff {entries : List (String × Leaf)} (h : Ascending entries)
    (path : String) (leaf : Leaf) :
    (entries.find? (·.1 = path)).map Prod.snd = some leaf ↔ (path, leaf) ∈ entries := by
  induction entries with
  | nil => simp
  | cons entry rest ih =>
    obtain ⟨hhead, hrest⟩ := List.pairwise_cons.mp h
    by_cases hkey : entry.1 = path
    · have hout : (path, leaf) ∉ rest := fun hmem =>
        absurd (hhead _ hmem) (by rw [hkey]; exact lt_irrefl path)
      rw [List.find?_cons_of_pos (by simpa using hkey), Option.map_some, Option.some.injEq,
        List.mem_cons, or_iff_left hout]
      constructor
      · intro hleaf
        rw [← hleaf, ← hkey]
      · intro heq
        rw [← heq]
    · rw [List.find?_cons_of_neg (by simpa using hkey), ih hrest, List.mem_cons]
      refine (or_iff_right fun heq => ?_).symm
      exact hkey (by rw [← heq])

/-- Inserting sets the entry of its path and leaves the others. -/
theorem mem_insertEntry_iff {path key : String} {leaf value : Leaf}
    {entries : List (String × Leaf)} (h : Ascending entries) :
    (key, value) ∈ Tree.insertEntry path leaf entries ↔
      if key = path then value = leaf else (key, value) ∈ entries := by
  induction entries with
  | nil =>
    unfold Tree.insertEntry
    rw [List.mem_singleton, Prod.mk.injEq]
    split
    · rename_i hkey
      exact and_iff_right hkey
    · rename_i hkey
      exact iff_of_false (fun heq => hkey heq.1) List.not_mem_nil
  | cons entry rest ih =>
    obtain ⟨hhead, hrest⟩ := List.pairwise_cons.mp h
    have hafter : ∀ {k : String} {v : Leaf}, k ≤ entry.1 → (k, v) ∉ rest := fun hle hmem =>
      absurd (hhead _ hmem) (not_lt.mpr hle)
    unfold Tree.insertEntry
    -- the path is at the head, before it, or further on
    split
    · rename_i heq
      rw [List.mem_cons, Prod.mk.injEq]
      split
      · rename_i hkey
        have hout := hafter (v := value) (hkey.trans heq).le
        tauto
      · rename_i hkey
        rw [List.mem_cons]
        have hne : (key, value) ≠ entry := fun h' => hkey (by rw [heq, ← h'])
        tauto
    · rename_i hne
      split
      · rename_i hlt
        rw [List.mem_cons, Prod.mk.injEq]
        split
        · rename_i hkey
          have hout := hafter (v := value) (hkey.le.trans hlt.le)
          have hhd : (key, value) ≠ entry := fun h' => hne (by rw [← hkey, ← h'])
          rw [List.mem_cons]
          tauto
        · rename_i hkey
          tauto
      · rw [List.mem_cons, List.mem_cons, ih hrest]
        split
        · rename_i hkey
          have hhd : (key, value) ≠ entry := fun h' => hne (by rw [← hkey, ← h'])
          tauto
        · rfl

namespace Tree

theorem get_eq_some {tree : Tree} {path : String} {leaf : Leaf} :
    tree.get path = some leaf ↔ (path, leaf) ∈ tree.root :=
  tree.ascending.find_iff path leaf

/-- A tree is determined by the leaves it has. -/
theorem ext_get {a b : Tree} (h : ∀ path, a.get path = b.get path) : a = b := by
  have hroot : a.root = b.root := by
    refine List.Pairwise.eq_of_mem_iff (r := fun x y : String × Leaf => x.1 < y.1)
      a.ascending b.ascending ?_
    rintro ⟨path, leaf⟩
    rw [← get_eq_some, ← get_eq_some, h path]
  cases a
  cases b
  congr

theorem ascending_put (path : String) (leaf : Leaf) (tree : Tree) :
    Ascending (insertEntry path leaf tree.root) :=
  ascending_insertEntry path leaf tree.ascending

/-- Write one leaf. -/
def put (path : String) (leaf : Leaf) (tree : Tree) : Tree :=
  ⟨insertEntry path leaf tree.root, ascending_put path leaf tree⟩

/-- Putting a leaf sets its path and leaves the others. -/
theorem get_put (path key : String) (leaf : Leaf) (tree : Tree) :
    (tree.put path leaf).get key = if key = path then some leaf else tree.get key := by
  refine Option.ext fun value => ?_
  show (tree.put path leaf).get key = some value ↔ _ = some value
  rw [get_eq_some]
  show (key, value) ∈ insertEntry path leaf tree.root ↔ _
  rw [mem_insertEntry_iff tree.ascending]
  split
  · rw [Option.some.injEq, eq_comm]
  · exact get_eq_some.symm

/-- Taking keys out takes out those and no more. -/
theorem get_without (keys : List String) (key : String) (tree : Tree) :
    (tree.without keys).get key = if key ∈ keys then none else tree.get key := by
  refine Option.ext fun value => ?_
  show (tree.without keys).get key = some value ↔ _ = some value
  rw [get_eq_some]
  unfold without
  rw [List.mem_filter, decide_eq_true_iff]
  split
  · rename_i hmem
    exact iff_of_false (fun h => h.2 hmem) (Option.some_ne_none value).symm
  · rename_i hmem
    rw [and_iff_left hmem, get_eq_some]

/-- An update moves the leaves under its path, or none where the path is too short. -/
theorem get_update (learn : Learning) (path : String) (delta : ℚ) (key : String) (tree : Tree) :
    (tree.update learn path delta).get key =
      if path = "" ∨ segments path < learn.minPathLength then tree.get key
      else (tree.get key).map (bump path delta key) := by
  unfold update
  split
  · rfl
  · show ((tree.root.map fun entry => (entry.1, bump path delta entry.1 entry.2)).find?
      (·.1 = key)).map Prod.snd = ((tree.root.find? (·.1 = key)).map Prod.snd).map _
    rw [List.find?_map, Option.map_map, Option.map_map]
    refine Option.map_congr fun entry hentry => ?_
    have hkey : entry.1 = key := by simpa using List.find?_some hentry
    show bump path delta entry.1 entry.2 = bump path delta key entry.2
    rw [hkey]

/-! ## The walk of `Predict` -/

/-- The walk over the leaves under the cut. -/
def walk (learn : Learning) (tokens : Cut) (tree : Tree) : Walk :=
  (tree.root.filter fun entry => under tokens.text entry.1).foldl
    (visit learn.minPathLength) .start

/-- What `Predict` answers after its walk. -/
def answer (tokens : Cut) (walk : Walk) : Action × Floating × Bool :=
  if walk.disagreed then (.none, .finite 0, true)
  else if walk.count = 0 then (.none, .finite 0, false)
  else if tokens.lastBrightness.le (walk.resistance.div (.ofInt walk.count)) then
    (.none, .finite 0, false)
  else (walk.current, walk.resistance.div (.ofInt walk.count), false)

/-- `Predict` prunes what its walk marked and answers from what it counted. -/
theorem predict_eq (learn : Learning) (tokens : Cut) (tree : Tree) :
    tree.predict learn tokens =
      if tokens.len < learn.minPathLength then (tree, .none, .finite 0, false)
      else (tree.without (tree.walk learn tokens).prunes,
        answer tokens (tree.walk learn tokens)) := by
  unfold predict answer walk
  split
  · rfl
  · dsimp only
    split
    · rfl
    · split
      · rfl
      · split <;> rfl

/-- Of the tree `Predict` only removes what the walk prunes. -/
theorem predict_fst (learn : Learning) (tokens : Cut) (tree : Tree) :
    (tree.predict learn tokens).1 =
      if tokens.len < learn.minPathLength then tree
      else tree.without (tree.walk learn tokens).prunes := by
  rw [predict_eq]
  split <;> rfl

/-- What the walk adds up is always some number. -/
theorem resistance_foldl_ne_nan (min : Nat) (entries : List (String × Leaf)) {walk : Walk}
    (h : walk.resistance ≠ .nan) : (entries.foldl (visit min) walk).resistance ≠ .nan := by
  induction entries generalizing walk with
  | nil => exact h
  | cons entry rest ih =>
    refine ih ?_
    unfold visit
    split
    · exact h
    · dsimp only
      split
      · exact h
      · split
        · exact h
        · exact Floating.add_finite_ne_nan h _

/-- So is the mean that `Predict` answers with. -/
theorem predict_resistance_ne_nan (learn : Learning) (tokens : Cut) (tree : Tree) :
    (tree.predict learn tokens).2.2.1 ≠ .nan := by
  have hwalk : (tree.walk learn tokens).resistance ≠ .nan := resistance_foldl_ne_nan _ _ nofun
  rw [predict_eq]
  split
  · exact nofun
  · unfold answer
    dsimp only
    split
    · exact nofun
    · split
      · exact nofun
      · rename_i hcount
        split
        · exact nofun
        · exact Floating.div_ofInt_ne_nan hwalk (Nat.pos_of_ne_zero hcount)

/-- The leaves the walk does not step over. -/
def seen (learn : Learning) (tokens : Cut) (tree : Tree) : List (String × Leaf) :=
  tree.root.filter fun entry =>
    under tokens.text entry.1 ∧ learn.minPathLength ≤ segments entry.1

/-- The first action named, from a given one on. -/
def leading : Action → List (String × Leaf) → Action
  | current, [] => current
  | current, entry :: rest =>
    leading (if current = .none then Action.new entry.2.action else current) rest

/-- The leaf is heavy and names the action that leads when the walk comes to it. -/
def Condemned (learn : Learning) (tokens : Cut) (tree : Tree) (path : String) : Prop :=
  ∃ before leaf after, tree.seen learn tokens = before ++ (path, leaf) :: after ∧
    Floating.eightTenths < leaf.resistance ∧
    (leading .none before = .none ∨ leading .none before = Action.new leaf.action)

theorem visit_short {min : Nat} {walk : Walk} {entry : String × Leaf}
    (h : ¬ min ≤ segments entry.1) : visit min walk entry = walk :=
  if_pos (not_le.mp h)

/-- The running action is the first one that is known. -/
theorem current_visit {min : Nat} {walk : Walk} {entry : String × Leaf}
    (h : min ≤ segments entry.1) :
    (visit min walk entry).current =
      if walk.current = .none then Action.new entry.2.action else walk.current := by
  unfold visit
  rw [if_neg (not_lt.mpr h)]
  dsimp only
  by_cases hnone : walk.current = .none
  · rw [if_neg fun hd => hd.1 hnone, if_pos hnone]
    split <;> rfl
  · rw [if_neg hnone]
    by_cases heq : walk.current = Action.new entry.2.action
    · rw [if_neg fun hd => hd.2 heq]
      split <;> exact heq.symm
    · rw [if_pos ⟨hnone, heq⟩]

/-- A leaf is pruned if it is heavy and does not dissent from the running action. -/
theorem mem_prunes_visit {min : Nat} {walk : Walk} {entry : String × Leaf} {path : String}
    (h : min ≤ segments entry.1) :
    path ∈ (visit min walk entry).prunes ↔ path ∈ walk.prunes ∨ (path = entry.1 ∧
      Floating.eightTenths < entry.2.resistance ∧
      (walk.current = .none ∨ walk.current = Action.new entry.2.action)) := by
  unfold visit
  rw [if_neg (not_lt.mpr h)]
  dsimp only
  by_cases hd : walk.current ≠ .none ∧ walk.current ≠ Action.new entry.2.action
  · rw [if_pos hd]
    exact (or_iff_left fun hp => hp.2.2.elim hd.1 hd.2).symm
  · rw [if_neg hd]
    have hagree : walk.current = .none ∨ walk.current = Action.new entry.2.action := by
      rw [not_and_or, not_not, not_not] at hd
      exact hd
    split
    · rename_i hheavy
      rw [List.mem_append, List.mem_singleton, and_iff_left ⟨hheavy, hagree⟩]
    · rename_i hlight
      exact (or_iff_left fun hp => hlight hp.2.1).symm

theorem mem_prunes_foldl {min : Nat} (entries : List (String × Leaf)) (walk : Walk)
    (path : String) :
    path ∈ (entries.foldl (visit min) walk).prunes ↔ path ∈ walk.prunes ∨
      ∃ before leaf after,
        entries.filter (fun entry => min ≤ segments entry.1) = before ++ (path, leaf) :: after ∧
        Floating.eightTenths < leaf.resistance ∧
        (leading walk.current before = .none ∨
          leading walk.current before = Action.new leaf.action) := by
  induction entries generalizing walk with
  | nil => simp
  | cons entry rest ih =>
    rw [List.foldl_cons, ih]
    -- a leaf that is long enough goes on with its own action as the running one
    by_cases hlong : min ≤ segments entry.1
    · rw [mem_prunes_visit hlong, current_visit hlong, or_assoc,
        List.filter_cons_of_pos (by simpa using hlong)]
      refine or_congr_right ?_
      constructor
      · rintro (⟨rfl, hheavy, hlead⟩ | ⟨before, leaf, after, hsplit, hheavy, hlead⟩)
        · exact ⟨[], entry.2, _, rfl, hheavy, hlead⟩
        · exact ⟨entry :: before, leaf, after, by rw [hsplit]; rfl, hheavy, hlead⟩
      · rintro ⟨before, leaf, after, hsplit, hheavy, hlead⟩
        cases before with
        | nil =>
          obtain ⟨rfl, -⟩ := List.cons.inj hsplit
          exact .inl ⟨rfl, hheavy, hlead⟩
        | cons first before =>
          obtain ⟨rfl, hrest⟩ := List.cons.inj hsplit
          exact .inr ⟨before, leaf, after, hrest, hheavy, hlead⟩
    · rw [visit_short hlong, List.filter_cons_of_neg (by simpa using hlong)]

/-- `Predict` prunes exactly the condemned leaves. -/
theorem mem_prunes_iff {learn : Learning} {tokens : Cut} {tree : Tree} {path : String} :
    path ∈ (tree.walk learn tokens).prunes ↔ tree.Condemned learn tokens path := by
  unfold walk Condemned seen
  rw [mem_prunes_foldl, List.filter_filter, or_iff_right List.not_mem_nil]
  have hfilter : (fun entry : String × Leaf =>
      decide (learn.minPathLength ≤ segments entry.1) && under tokens.text entry.1) =
      fun entry => decide (under tokens.text entry.1 ∧ learn.minPathLength ≤ segments entry.1) := by
    funext entry
    rw [Bool.decide_and, Bool.decide_eq_true, Bool.and_comm]
  rw [hfilter]

end Tree

end Symm.Strategy
