import Symm.Lib.Machine
import Symm.Lib.Objects
import Symm.Strategy.TreeSpec

/-!
# The stored policy (`strategy/tree.go`)

Every operation on the tree also writes the object store: a leaf is written
under its own key, `model/paths/<path>.json`, and removed by the prefix
`model/paths/<path>` without the extension. `NewTree` reads the leaves back.

The store is any key-value store and the JSON of a leaf any encoding that can
be read back. Each `Insert` brings a decision of its own, as `Ensure` does.

- `Stored`: a tree with its store, and the operations of the tree on both;
- `newTree`: what a restart makes of the store;
- `Agrees`: the restart would give the paths, actions and resistances of the tree in
  memory;
- `Safe`: what is asked of an operation for that to stay so.

A leaf is written with its extension and deleted without it, so a deletion takes with it
every object whose key goes on from the deleted path (`Shadows`). And a path that ends
in `.bin` is read back without it. Those are the two ways in which tree and store come
apart; that there is no third is `Strategy.Reload`.
-/

namespace Symm.Strategy

open Symm.System Symm.Lib

universe u

/-- `sonic.Marshal` and `sonic.Unmarshal` of a decision. -/
structure Codec (Raw : Type u) where
  marshal : Leaf → Raw
  unmarshal : Raw → Option Leaf
  unmarshal_marshal : ∀ leaf, unmarshal (marshal leaf) = some leaf

/-- The prefix of every stored path. -/
def seedPrefix : String := "model/paths/"

/-- The key a leaf is written under. -/
def storeKey (path : String) : String := seedPrefix ++ path ++ ".json"

/-- A tree with its store. -/
structure Stored (Raw : Type u) where
  tree : Tree
  store : Objects Raw

/-- The path `NewTree` reads from a key. -/
def loadPath (pre key : String) : String :=
  trimSuffix (trimSuffix (trimPrefix key pre) ".json") ".bin"

variable {Raw : Type u} (codec : Codec Raw)

/-- One object of `NewTree`: what does not parse and what has no path is left out. -/
def load (pre : String) (store : Objects Raw) (tree : Tree) (key : String) : Tree :=
  match (store.lookup key).bind codec.unmarshal with
  | none => tree
  | some leaf =>
    let path := loadPath pre key
    if path = "" then tree else tree.put path leaf

/-- `NewTree`. -/
def newTree (pre : String) (store : Objects Raw) : Tree :=
  (store.list pre).foldl (load codec pre store) ⟨[], ascending_nil⟩

/-- `Tree.persist`. -/
def persist (path : String) (leaf : Leaf) (store : Objects Raw) : Objects Raw :=
  store.insert (storeKey path) (codec.marshal leaf)

namespace Stored

/-- An empty tree on an empty store. -/
def empty : Stored Raw := ⟨⟨[], ascending_nil⟩, ∅⟩

/-- `Tree.Insert`; `none` is a nil decision. -/
def insert (learn : Learning) (path : String) (decision : Option Leaf) (s : Stored Raw) :
    Stored Raw :=
  match decision with
  | none => s
  | some leaf =>
    if path = "" ∨ segments path < learn.minPathLength then s
    else ⟨s.tree.insert learn path leaf, persist codec path leaf s.store⟩

/-- `Tree.Ensure`. -/
def ensure (learn : Learning) (path : String) (action : Action) (s : Stored Raw) : Stored Raw :=
  if path = "" ∨ action = .none ∨ segments path < learn.minPathLength then s
  else if (s.tree.get path).isSome then s
  else s.insert codec learn path (some ⟨action.string, path, seedResistance⟩)

/-- `Tree.Update`: every decision under the path is changed and written. -/
def update (learn : Learning) (path : String) (delta : ℚ) (s : Stored Raw) : Stored Raw :=
  if path = "" ∨ segments path < learn.minPathLength then s
  else {
    tree := s.tree.update learn path delta
    store := (s.tree.root.filter fun entry => Tree.under path entry.1).foldl
      (fun store entry =>
        persist codec entry.1 { entry.2 with resistance := entry.2.resistance + delta } store)
      s.store }

/-- `Tree.Delete`. -/
def delete (path : String) (s : Stored Raw) : Stored Raw where
  tree := s.tree.without [path]
  store := s.store.deletePrefix (seedPrefix ++ path)

/-- `Tree.Predict`: the leaves it prunes are removed from both. -/
def predict (learn : Learning) (tokens : Cut) (s : Stored Raw) :
    Stored Raw × (Action × Floating × Bool) :=
  let (tree, answer) := s.tree.predict learn tokens
  if tokens.len < learn.minPathLength then (s, answer)
  else
    let prunes := (s.tree.walk learn tokens).prunes
    (⟨tree, prunes.foldl (fun store prune => store.deletePrefix (seedPrefix ++ prune)) s.store⟩,
      answer)

/-- An operation on the tree, under the configuration it is called with. -/
inductive Op
  | insert (learn : Learning) (path : String) (decision : Option Leaf)
  | ensure (learn : Learning) (path : String) (action : Action)
  | update (learn : Learning) (path : String) (delta : ℚ)
  | delete (path : String)
  | predict (learn : Learning) (tokens : Cut)

/-- One operation. -/
def next (s : Stored Raw) : Op → Stored Raw
  | .insert learn path decision => s.insert codec learn path decision
  | .ensure learn path action => s.ensure codec learn path action
  | .update learn path delta => s.update codec learn path delta
  | .delete path => s.delete path
  | .predict learn tokens => (s.predict learn tokens).1

end Stored

/-- The paths of a tree with their actions and resistances. -/
def Tree.decisions (tree : Tree) : List (String × String × ℚ) :=
  tree.root.map fun entry => (entry.1, entry.2.action, entry.2.resistance)

namespace Stored

/-- A tree built from the store now has the paths, actions and resistances of the
tree in memory. -/
def Agrees (s : Stored Raw) : Prop :=
  (newTree codec seedPrefix s.store).decisions = s.tree.decisions

/-! ## When an operation keeps the two apart -/

/-- Deleting the stored path takes the object of the key with it. -/
def Shadows (path key : String) : Prop := Starts path (key ++ ".json")

instance (path key : String) : Decidable (Shadows path key) :=
  inferInstanceAs (Decidable (Starts path (key ++ ".json")))

/-- The call writes a leaf. -/
def Writes (learn : Learning) (path : String) : Prop :=
  path ≠ "" ∧ learn.minPathLength ≤ segments path

/-- What an operation must meet for the store to follow the tree: no new path ends
in `.bin`, and no leaf that stays has a key that continues a deleted path. -/
def Safe (s : Stored Raw) : Op → Prop
  | .insert learn path decision => decision.isSome → Writes learn path → ¬ Ends ".bin" path
  | .ensure learn path action =>
    action ≠ .none → s.tree.get path = none → Writes learn path → ¬ Ends ".bin" path
  | .update _ _ _ => True
  | .delete path => ∀ key, (s.tree.get key).isSome → key ≠ path → ¬ Shadows path key
  | .predict learn tokens => learn.minPathLength ≤ tokens.len →
    ∀ path, s.tree.Condemned learn tokens path →
      ∀ key, (s.tree.get key).isSome → ¬ s.tree.Condemned learn tokens key → ¬ Shadows path key

end Stored

end Symm.Strategy
