import Symm.System
import Symm.Lib.Doubles
import Mathlib.Data.String.Basic

/-!
# The policy tree (`strategy/tree.go`)

A radix from paths to decisions. Its walks visit keys in byte order, which for
valid UTF-8 is the order of code points, so the tree is kept as a list of
entries that carries the proof that its keys ascend. Writing leaves to the
object store is not modelled.

`Predict` works on float64s: it adds the resistances up leaf by leaf, so the
mean it finds depends on the order of the keys, and it compares a brightness
that may be no number at all. The resistance of a leaf is always some number: it
is read from JSON or seeded, and then moved by a twentieth. The bound above which a
leaf is pruned is the float64 that `0.8` denotes, so a leaf that was read as `0.8`
is kept.

- `Leaf`, `Tree`: a decision with its resistance, and the entries in order;
- `get`, `insert`, `ensure`, `update`: one leaf, or all the leaves under a path;
- `visit`, `predict`: the walk over the leaves that match a cut, with its running
  action, its sum and the leaves that it is going to remove;
- `Cut`: the tokens of a sentence, its text and how brightly its last symbol is lit.
-/

namespace Symm.Strategy

open Symm.System Symm.Lib

/-- `Action`. -/
inductive Action
  | none | enter | hold | exit
  deriving DecidableEq, Repr

/-- `NewAction`. -/
def Action.new (action : String) : Action :=
  if action = "enter" then .enter
  else if action = "hold" then .hold
  else if action = "exit" then .exit
  else .none

/-- `Action.String`. -/
def Action.string : Action → String
  | .none => "none"
  | .enter => "enter"
  | .hold => "hold"
  | .exit => "exit"

/-- Only the four names are names of actions. -/
theorem Action.new_string (action : Action) : Action.new action.string = action := by
  cases action <;> decide

/-- The members of `runtime.Decision` that a leaf of the tree uses. -/
structure Leaf where
  action : String
  path : String
  resistance : ℚ
  deriving DecidableEq

/-- What the tree and the model read of a live cut (`runtime.Tokens`): its
text, its length and the brightness of its last token. -/
structure Cut where
  text : String
  len : Nat
  lastBrightness : Floating

/-- The desk baseline of a brand-new leaf. -/
def seedResistance : ℚ := 1 / 2

/-- The number of segments of a path. -/
def segments (path : String) : Nat := path.toList.count '/' + 1

/-- The keys of the entries ascend. -/
def Ascending (entries : List (String × Leaf)) : Prop :=
  entries.Pairwise fun a b => a.1 < b.1

theorem ascending_nil : Ascending [] := .nil

/-- `Tree`. -/
structure Tree where
  root : List (String × Leaf)
  ascending : Ascending root

namespace Tree

/-- The key lies under the path. -/
def under (path key : String) : Bool := path.toList.isPrefixOf key.toList

/-- The decision at a path. -/
def get (tree : Tree) (path : String) : Option Leaf :=
  (tree.root.find? (·.1 = path)).map Prod.snd

/-- Insert into ascending entries, replacing an entry of the same key. -/
def insertEntry (path : String) (leaf : Leaf) :
    List (String × Leaf) → List (String × Leaf)
  | [] => [(path, leaf)]
  | entry :: rest =>
    if path = entry.1 then (path, leaf) :: rest
    else if path < entry.1 then (path, leaf) :: entry :: rest
    else entry :: insertEntry path leaf rest

/-- Inserting adds one entry. -/
theorem mem_insertEntry {path : String} {leaf : Leaf}
    {entries : List (String × Leaf)} {e : String × Leaf}
    (h : e ∈ insertEntry path leaf entries) : e = (path, leaf) ∨ e ∈ entries := by
  induction entries with
  | nil => exact .inl (List.mem_singleton.mp h)
  | cons entry rest ih =>
    unfold insertEntry at h
    split at h
    · rcases List.mem_cons.mp h with h | h
      · exact .inl h
      · exact .inr (List.mem_cons_of_mem entry h)
    · split at h
      · rcases List.mem_cons.mp h with h | h
        · exact .inl h
        · exact .inr h
      · rcases List.mem_cons.mp h with rfl | h
        · exact .inr List.mem_cons_self
        · rcases ih h with h | h
          · exact .inl h
          · exact .inr (List.mem_cons_of_mem entry h)

/-- It keeps the keys in ascending order. -/
theorem ascending_insertEntry (path : String) (leaf : Leaf)
    {entries : List (String × Leaf)} (h : Ascending entries) :
    Ascending (insertEntry path leaf entries) := by
  induction entries with
  | nil => exact List.pairwise_singleton _ _
  | cons entry rest ih =>
    obtain ⟨hhead, hrest⟩ := List.pairwise_cons.mp h
    unfold insertEntry
    split
    · rename_i heq
      exact List.pairwise_cons.mpr ⟨fun e he => by rw [heq]; exact hhead e he, hrest⟩
    · rename_i hne
      split
      · rename_i hlt
        refine List.pairwise_cons.mpr ⟨fun e he => ?_, h⟩
        rcases List.mem_cons.mp he with rfl | he
        · exact hlt
        · exact hlt.trans (hhead e he)
      · rename_i hnlt
        refine List.pairwise_cons.mpr ⟨fun e he => ?_, ih hrest⟩
        rcases mem_insertEntry he with rfl | he
        · exact lt_of_le_of_ne (not_lt.mp hnlt) (Ne.symm hne)
        · exact hhead e he

/-- The state of the walk in `Predict`. -/
structure Walk where
  current : Action
  disagreed : Bool
  resistance : Floating
  count : Nat
  prunes : List String

/-- The walk begins. -/
abbrev Walk.start : Walk := ⟨.none, false, .finite 0, 0, []⟩

/-- One visit of the walk: a leaf that names another action than the ones before
it sets the flag and is not counted; a leaf above 0.8 is marked for pruning. -/
def visit (min : Nat) (walk : Walk) (entry : String × Leaf) : Walk :=
  if segments entry.1 < min then walk
  else
    let action := Action.new entry.2.action
    if walk.current ≠ .none ∧ walk.current ≠ action then { walk with disagreed := true }
    else
      let walk := { walk with current := action }
      if Floating.eightTenths < entry.2.resistance then
        { walk with prunes := walk.prunes ++ [entry.1] }
      else { walk with
        resistance := walk.resistance.add (.finite entry.2.resistance)
        count := walk.count + 1 }

/-- Delete the given keys. -/
def without (keys : List String) (tree : Tree) : Tree where
  root := tree.root.filter fun entry => entry.1 ∉ keys
  ascending := tree.ascending.filter _

/-- `Tree.Predict`: the agreed action and the mean resistance under the cut, and
whether leaves disagree. Heavy leaves are deleted on the way. -/
def predict (learn : Learning) (tokens : Cut) (tree : Tree) : Tree × (Action × Floating × Bool) :=
  if tokens.len < learn.minPathLength then (tree, .none, .finite 0, false)
  else
    let walk := (tree.root.filter fun entry => under tokens.text entry.1).foldl
      (visit learn.minPathLength) .start
    let tree : Tree := tree.without walk.prunes
    if walk.disagreed then (tree, .none, .finite 0, true)
    else if walk.count = 0 then (tree, .none, .finite 0, false)
    else
      let resistance := walk.resistance.div (.ofInt walk.count)
      if tokens.lastBrightness.le resistance then (tree, .none, .finite 0, false)
      else (tree, walk.current, resistance, false)

/-- What `Update` does to the decision at a key. -/
def bump (path : String) (delta : ℚ) (key : String) (leaf : Leaf) : Leaf :=
  if under path key then { leaf with resistance := leaf.resistance + delta }
  else leaf

/-- `Tree.Update`: a settled delta on every decision under the path. -/
def update (learn : Learning) (path : String) (delta : ℚ) (tree : Tree) : Tree :=
  if path = "" ∨ segments path < learn.minPathLength then tree
  else {
    root := tree.root.map fun entry => (entry.1, bump path delta entry.1 entry.2)
    ascending := by
      unfold Ascending
      rw [List.pairwise_map]
      exact tree.ascending }

/-- `Tree.Insert`. -/
def insert (learn : Learning) (path : String) (leaf : Leaf) (tree : Tree) : Tree :=
  if path = "" ∨ segments path < learn.minPathLength then tree
  else ⟨insertEntry path leaf tree.root, ascending_insertEntry path leaf tree.ascending⟩

/-- `Tree.Ensure`: seed a leaf once. -/
def ensure (learn : Learning) (path : String) (action : Action) (tree : Tree) : Tree :=
  if path = "" ∨ action = .none ∨ segments path < learn.minPathLength then tree
  else if (tree.get path).isSome then tree
  else tree.insert learn path ⟨action.string, path, seedResistance⟩

end Tree

end Symm.Strategy
