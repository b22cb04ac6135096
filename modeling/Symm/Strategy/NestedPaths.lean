import Symm.Strategy.ModelSpec
import Symm.Strategy.TreeSpec

/-!
# Settling a lot whose paths are nested

`Model.Exit` seeds the two paths of a lot and then moves the leaves under each
of them. A leaf under both is moved twice. The guard of `Model.Exit` excludes
equal paths only, and the leaf of the longer path lies under the shorter one.

Settling a lot bumps the leaves under its entry path and then those under its exit path,
by one delta each. `MovedOnce` asks that every leaf under either path be moved by
exactly one delta and every other leaf be left alone, after the two paths have been
seeded.

Where one path extends the other, its leaf is under both, and `bump_bump` moves it
twice: the leaf is there, since seeding has put it there, so nested paths always fail.
Where neither extends the other no key is under both (`not_under_both`), which is all
that the converse needs. The guard for equal paths keeps the tree as it is, and then the
leaf at the exit path has not been moved at all.
-/

namespace Symm.Strategy

open Symm.System Symm.Broker

namespace Tree

/-- A path lies under itself. -/
theorem under_self (path : String) : under path path = true :=
  List.isPrefixOf_iff_prefix.mpr (List.prefix_refl path.toList)

/-- `Ensure` leaves a leaf that is there, and seeds one that is not. -/
theorem get_ensure {learn : Learning} {path : String} {action : Action} (hpath : path ≠ "")
    (haction : action ≠ .none) (hlong : learn.minPathLength ≤ segments path) (key : String)
    (tree : Tree) : (tree.ensure learn path action).get key =
      if key = path then some ((tree.get path).getD ⟨action.string, path, seedResistance⟩)
      else tree.get key := by
  have hguard : ¬ (path = "" ∨ action = .none ∨ segments path < learn.minPathLength) := by
    rintro (h | h | h)
    · exact hpath h
    · exact haction h
    · omega
  have hguard' : ¬ (path = "" ∨ segments path < learn.minPathLength) := fun h =>
    hguard (h.imp id .inr)
  unfold ensure
  rw [if_neg hguard]
  cases hget : tree.get path with
  | some leaf =>
    rw [if_pos Option.isSome_some, Option.getD_some]
    by_cases hkey : key = path
    · rw [if_pos hkey, hkey, hget]
    · rw [if_neg hkey]
  | none =>
    have hput : tree.insert learn path ⟨action.string, path, seedResistance⟩ =
        tree.put path ⟨action.string, path, seedResistance⟩ := if_neg hguard'
    rw [if_neg (by simp), hput, get_put, Option.getD_none]

end Tree

/-- The leaf a settlement finds at a key, once it has seeded its two paths. -/
def seeded (tree : Tree) (entryPath exitPath key : String) : Option Leaf :=
  (tree.get key).or <|
    if key = entryPath then some ⟨Action.enter.string, entryPath, seedResistance⟩
    else if key = exitPath then some ⟨Action.exit.string, exitPath, seedResistance⟩
    else none

/-- Every leaf under either path is moved by one delta, and no other leaf changes. -/
def MovedOnce (entryPath exitPath : String) (delta : ℚ) (tree tree' : Tree) : Prop :=
  ∀ key, tree'.get key = (seeded tree entryPath exitPath key).map fun leaf =>
    if Tree.under entryPath key ∨ Tree.under exitPath key then
      { leaf with resistance := leaf.resistance + delta }
    else leaf

namespace Model

/-- An outcome always moves the leaf. -/
theorem delta_ne_zero (position : Position) : delta position ≠ 0 := by
  unfold delta
  split <;> norm_num

/-- A settlement on two paths moves a leaf once for each path it lies under. -/
theorem get_exit {learn : Learning} {path : String} {model : Model} {ref : TierType × LotId}
    {position : Position} (hlot : model.lot ref = some position)
    (hentry : position.entryPath ≠ "") (hexit : path ≠ "")
    (hentryLong : learn.minPathLength ≤ segments position.entryPath)
    (hexitLong : learn.minPathLength ≤ segments path) (hne : path ≠ position.entryPath)
    (key : String) :
    (model.exit learn path ref).tree.get key =
      (seeded model.tree position.entryPath path key).map fun leaf =>
        Tree.bump path (delta position) key
          (Tree.bump position.entryPath (delta position) key leaf) := by
  have htree : (model.exit learn path ref).tree =
      (((model.tree.ensure learn position.entryPath .enter).ensure learn path .exit).update
        learn position.entryPath (delta position)).update learn path (delta position) := by
    unfold exit
    rw [hlot]
    dsimp only
    rw [if_neg (not_or.mpr ⟨hexit, hne⟩)]
  -- what both calls of `Ensure` leave at the key
  have hseeded : ((model.tree.ensure learn position.entryPath .enter).ensure
      learn path .exit).get key = seeded model.tree position.entryPath path key := by
    rw [Tree.get_ensure hexit (by decide) hexitLong,
      Tree.get_ensure hentry (by decide) hentryLong,
      Tree.get_ensure hentry (by decide) hentryLong, if_neg hne]
    unfold seeded
    -- the exit path is seeded last, and only where the entry path left nothing
    by_cases hpath : key = path
    · rw [if_pos hpath, hpath, if_neg hne, if_pos rfl]
      cases model.tree.get path <;> rfl
    · rw [if_neg hpath, if_neg hpath]
      by_cases hentryKey : key = position.entryPath
      · rw [if_pos hentryKey, if_pos hentryKey, hentryKey]
        cases model.tree.get position.entryPath <;> rfl
      · rw [if_neg hentryKey, if_neg hentryKey]
        cases model.tree.get key <;> rfl
  rw [htree, Tree.get_update, if_neg (not_or.mpr ⟨hexit, not_lt.mpr hexitLong⟩),
    Tree.get_update, if_neg (not_or.mpr ⟨hentry, not_lt.mpr hentryLong⟩), hseeded,
    Option.map_map]
  rfl

/-- After seeding there is a leaf at the path of the entry. -/
theorem seeded_entryPath (tree : Tree) (entryPath exitPath : String) :
    ∃ leaf, seeded tree entryPath exitPath entryPath = some leaf := by
  unfold seeded
  cases tree.get entryPath with
  | some leaf => exact ⟨leaf, rfl⟩
  | none => exact ⟨_, by rw [if_pos rfl]; rfl⟩

/-- And one at the path of the exit. -/
theorem seeded_exitPath (tree : Tree) (entryPath exitPath : String) :
    ∃ leaf, seeded tree entryPath exitPath exitPath = some leaf := by
  unfold seeded
  cases tree.get exitPath with
  | some leaf => exact ⟨leaf, rfl⟩
  | none =>
    by_cases heq : exitPath = entryPath
    · exact ⟨_, by rw [if_pos heq]; rfl⟩
    · exact ⟨_, by rw [if_neg heq, if_pos rfl]; rfl⟩

/-- A leaf under both paths is moved by two deltas. -/
theorem bump_bump {path path' key : String} (delta : ℚ) (leaf : Leaf)
    (h : Tree.under path key = true) (h' : Tree.under path' key = true) :
    Tree.bump path' delta key (Tree.bump path delta key leaf) =
      { leaf with resistance := leaf.resistance + delta + delta } := by
  unfold Tree.bump
  rw [if_pos h, if_pos h']

/-- A key that extends two paths makes one of them extend the other. -/
theorem not_under_both {entryPath exitPath : String}
    (hentryApart : Tree.under entryPath exitPath = false)
    (hexitApart : Tree.under exitPath entryPath = false) (key : String) :
    ¬ (Tree.under entryPath key = true ∧ Tree.under exitPath key = true) := by
  rintro ⟨hone, hother⟩
  unfold Tree.under at hone hother hentryApart hexitApart
  rw [List.isPrefixOf_iff_prefix] at hone hother
  rcases List.prefix_or_prefix_of_prefix hone hother with hp | hp
  · rw [List.isPrefixOf_iff_prefix.mpr hp] at hentryApart
    exact Bool.noConfusion hentryApart
  · rw [List.isPrefixOf_iff_prefix.mpr hp] at hexitApart
    exact Bool.noConfusion hexitApart

/-- What moves by two deltas does not move once. -/
theorem not_movedOnce_of_both {tree tree' : Tree} {entryPath exitPath key : String} {delta : ℚ}
    {leaf : Leaf} (hdelta : delta ≠ 0) (hleaf : seeded tree entryPath exitPath key = some leaf)
    (hentry : Tree.under entryPath key = true) (hexit : Tree.under exitPath key = true)
    (hget : tree'.get key = (seeded tree entryPath exitPath key).map fun leaf =>
      Tree.bump exitPath delta key (Tree.bump entryPath delta key leaf)) :
    ¬ MovedOnce entryPath exitPath delta tree tree' := by
  intro h
  have hkey := h key
  rw [hget, hleaf, Option.map_some, Option.map_some, bump_bump _ _ hentry hexit,
    if_pos (.inl hentry)] at hkey
  have hres := congrArg Leaf.resistance (Option.some.inj hkey)
  exact hdelta (by simpa using hres)

/-- A tree that is kept has not moved the leaf at the exit path. -/
theorem not_movedOnce_self {tree : Tree} {entryPath exitPath : String} {delta : ℚ}
    (hdelta : delta ≠ 0) (hunder : Tree.under entryPath exitPath = true) :
    ¬ MovedOnce entryPath exitPath delta tree tree := by
  intro h
  have hkey := h exitPath
  obtain ⟨leaf, hleaf⟩ := seeded_exitPath tree entryPath exitPath
  rw [hleaf, Option.map_some, if_pos (.inl hunder)] at hkey
  have hsame : seeded tree entryPath exitPath exitPath =
      some { leaf with resistance := leaf.resistance + delta } := by
    unfold seeded
    rw [hkey]
    rfl
  rw [hleaf] at hsame
  have hres := congrArg Leaf.resistance (Option.some.inj hsame)
  exact hdelta (by simpa using hres)

/-- A settlement moves every leaf once exactly if neither path extends the other. -/
theorem movedOnce_iff (learn : Learning) (model : Model) (ref : TierType × LotId)
    (position : Position) (path : String) (hlot : model.lot ref = some position)
    (hentry : position.entryPath ≠ "") (hexit : path ≠ "")
    (hentryLong : learn.minPathLength ≤ segments position.entryPath)
    (hexitLong : learn.minPathLength ≤ segments path) :
    MovedOnce position.entryPath path (if position.pnl.any (0 < ·) then -1 / 20 else 1 / 20)
        model.tree (model.exit learn path ref).tree ↔
      Tree.under position.entryPath path = false ∧
        Tree.under path position.entryPath = false := by
  show MovedOnce position.entryPath path (delta position) _ _ ↔ _
  have hdelta := delta_ne_zero position
  by_cases hne : path = position.entryPath
  · -- equal paths: nothing is seeded and nothing moves
    have hself : Tree.under position.entryPath path = true := by
      rw [hne]
      exact Tree.under_self _
    have htree : (model.exit learn path ref).tree = model.tree := by
      unfold exit
      rw [hlot]
      dsimp only
      rw [if_pos (.inr hne)]
    rw [htree]
    refine iff_of_false (not_movedOnce_self hdelta hself) fun h => absurd hself ?_
    rw [h.1]
    exact Bool.false_ne_true
  · -- otherwise each leaf moves by the sum over the paths that are above it
    have hget := get_exit hlot hentry hexit hentryLong hexitLong hne
    constructor
    · intro h
      constructor
      · by_contra hunder
        rw [Bool.not_eq_false] at hunder
        obtain ⟨leaf, hleaf⟩ := seeded_exitPath model.tree position.entryPath path
        exact not_movedOnce_of_both hdelta hleaf hunder (Tree.under_self path) (hget path) h
      · by_contra hunder
        rw [Bool.not_eq_false] at hunder
        obtain ⟨leaf, hleaf⟩ := seeded_entryPath model.tree position.entryPath path
        exact not_movedOnce_of_both hdelta hleaf (Tree.under_self position.entryPath) hunder
          (hget position.entryPath) h
    · rintro ⟨hentryApart, hexitApart⟩ key
      rw [hget]
      refine Option.map_congr fun leaf _ => ?_
      have hboth := not_under_both hentryApart hexitApart key
      unfold Tree.bump
      by_cases hone : Tree.under position.entryPath key = true
      · have hother : ¬ Tree.under path key = true := fun h => hboth ⟨hone, h⟩
        rw [if_pos hone, if_neg hother, if_pos (.inl hone)]
      · rw [if_neg hone]
        by_cases hother : Tree.under path key = true
        · rw [if_pos hother, if_pos (.inr hother)]
        · rw [if_neg hother, if_neg (not_or.mpr ⟨hone, hother⟩)]

/-- A virtual lot that entered on `a/b`, over a tree without leaves. -/
def settling : Model :=
  new (Desk.step Desk.sample (.enter (Desk.sampleEnv "v" 1 99) "A/B" "a/b" .virtual true))
    ⟨[], ascending_nil⟩

/-- The lot of `settling`. -/
def settlingLot : Position := (settling.lot (.virtual, 0)).get (by decide +kernel)

/-- Paths apart: both leaves are seeded and moved once. -/
theorem movedOnce_sample : MovedOnce "a/b" "c/d" (1 / 20) settling.tree
    (settling.exit Cfg.defaults.learning "c/d" (.virtual, 0)).tree := by
  have hentry : settlingLot.entryPath = "a/b" := by decide +kernel
  have hpnl : (if settlingLot.pnl.any (0 < ·) then -1 / 20 else 1 / 20 : ℚ) = 1 / 20 := by
    decide +kernel
  have h := (movedOnce_iff Cfg.defaults.learning settling (.virtual, 0) settlingLot "c/d"
    (Option.some_get _).symm (by decide +kernel) (by decide) (by decide +kernel)
    (by decide +kernel)).mpr ⟨by decide +kernel, by decide +kernel⟩
  rwa [hentry, hpnl] at h

/-- The exit path extends the entry path: its leaf is moved twice. -/
theorem nested_moved_twice :
    ¬ ∀ (learn : Learning) (model : Model) (ref : TierType × LotId) (position : Position)
      (path : String), model.lot ref = some position → position.entryPath ≠ "" → path ≠ "" →
      learn.minPathLength ≤ segments position.entryPath →
      learn.minPathLength ≤ segments path →
      MovedOnce position.entryPath path (if position.pnl.any (0 < ·) then -1 / 20 else 1 / 20)
        model.tree (model.exit learn path ref).tree := by
  intro h
  have hkey := h Cfg.defaults.learning settling (.virtual, 0) settlingLot "a/b/c"
    (Option.some_get _).symm (by decide +kernel) (by decide) (by decide +kernel)
    (by decide +kernel) "a/b/c"
  have hno : ¬ (settling.exit Cfg.defaults.learning "a/b/c" (.virtual, 0)).tree.get "a/b/c" =
      (seeded settling.tree settlingLot.entryPath "a/b/c" "a/b/c").map fun leaf =>
        if Tree.under settlingLot.entryPath "a/b/c" ∨ Tree.under "a/b/c" "a/b/c" then
          { leaf with resistance := leaf.resistance +
            (if settlingLot.pnl.any (0 < ·) then -1 / 20 else 1 / 20) }
        else leaf := by decide +kernel
  exact hno hkey

end Model

end Symm.Strategy
