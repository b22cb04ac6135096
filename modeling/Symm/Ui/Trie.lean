import Mathlib.Data.List.Perm.Basic
import Symm.Lib.Doubles
import Symm.Lib.Objects
import Symm.Lib.Segments

/-!
# The trie of the dashboard (`learning/radix-tree-viz.tsx`)

A key of the policy is cut at its slashes, after the store's prefix, and the
keys are merged into a trie whose branches carry one token each and whose
action leaves carry a threshold.

- `decodeKey`: the tokens and the action of a key;
- `buildTreeFromPrefixes`: the trie of a list of keys;
- `perm_actionLeaves`: its action leaves are the decoded keys, one for each,
  where no two keys decode alike;
- `keyMatchesPrefix_iff`: a key matches the cuts its tokens begin with.

A node's `id` only numbers it, and nothing here reads it.

The walk of a key is stated by the leaves that it adds, node by node: it writes the
threshold of a leaf that is there or adds one, and it makes no other (`leavesOf_grow`,
`of_mem_grow`). Where keys decode alike, the last of them has written the threshold;
hence the condition of `perm_actionLeaves`, which the listings of a policy meet.

Sharing the thresholds is a second pass over the finished trie. It moves no leaf, so
what is said of leaves holds before and after it.
-/

namespace Symm.Ui

open Symm.Lib

/-! ## Keys -/

/-- `text.split("/")`. -/
def split (text : String) : List String := (text.toList.splitOn '/').map String.ofList

/-- `text.split("/").filter(Boolean)`. -/
def parts (text : String) : List String := (split text).filter (· ≠ "")

/-- `text.replace(/\.bin$/i, "")`. -/
def dropBin (text : String) : String :=
  if Ends ".bin" text.toLower then
    String.ofList (text.toList.take (text.toList.length - 4))
  else text

/-- `grammarKey`: the key without the place it is stored at. -/
def grammarKey (key : String) : String :=
  if Starts "model/paths" key then trimPrefix key "model/paths"
  else if Starts "policy/current/" key then trimPrefix key "policy/current/"
  else if Starts "model/current/" key then trimPrefix key "model/current/"
  else if Starts "policy/explored/" key then
    let rest := trimPrefix key "policy/explored/"
    let role := rest.toList.takeWhile (· ≠ '/')
    if role = [] ∨ '/' ∉ rest.toList then rest
    else
      let path := dropBin (String.ofList (rest.toList.drop (role.length + 1)))
      if path = "" then rest else path ++ "/" ++ String.ofList role ++ ".bin"
  else key

/-- The tokens of a key, and its last part where that names an action. -/
def keyTokens (key : String) : List String × Option String :=
  let all := parts (grammarKey key)
  match all.getLast? with
  | none => ([], none)
  | some lastPart => if Ends ".bin" lastPart then (all.dropLast, some lastPart) else (all, none)

/-- The tokens and the action of a key, as `buildTreeFromPrefixes` reads them; an
action that is empty is none. -/
def decodeKey (key : String) : List String × Option String :=
  let (tokens, lastPart) := keyTokens key
  (tokens, (lastPart.map fun text => (dropBin text).toUpper).filter (· ≠ ""))

/-- `keyMatchesPrefix`. -/
def keyMatchesPrefix (key : String) (tokens : List String) : Bool :=
  tokens ≠ [] ∧ tokens.length ≤ (keyTokens key).1.length ∧
    ∀ i < tokens.length, (keyTokens key).1[i]? = tokens[i]?

/-! ## The trie -/

/-- `TrieNodeData` as `buildTreeFromPrefixes` makes it: an action leaf has no token
and no children. The threshold of a leaf is finite; that of a branch is computed. -/
inductive TrieNode
  | leaf (pre action : String) (threshold : Option ℚ)
  | branch (pre token : String) (threshold : Option Floating) (children : List TrieNode)

namespace TrieNode

/-- Find the action leaf among the children and write its threshold, or add one. -/
def addAction (pre action : String) (resolved : Option ℚ) : List TrieNode → List TrieNode
  | [] => [.leaf (pre ++ "/" ++ action.toLower ++ ".bin") action resolved]
  | .leaf pre' action' threshold :: rest =>
    if action' = action then .leaf pre' action' (resolved.or threshold) :: rest
    else .leaf pre' action' threshold :: addAction pre action resolved rest
  | .branch pre' token threshold children :: rest =>
    .branch pre' token threshold children :: addAction pre action resolved rest

/-- Find the branch of a token among the children, or add one, and go on below it. -/
def descend (pre token : String) (below : List TrieNode → List TrieNode) :
    List TrieNode → List TrieNode
  | [] => [.branch pre token none (below [])]
  | .leaf pre' action threshold :: rest =>
    .leaf pre' action threshold :: descend pre token below rest
  | .branch pre' token' threshold children :: rest =>
    if token' = token then .branch pre' token' threshold (below children) :: rest
    else .branch pre' token' threshold children :: descend pre token below rest

/-- The walk of one key from a node with this prefix. -/
def grow (action : Option String) (resolved : Option ℚ) :
    String → List String → List TrieNode → List TrieNode
  | pre, [], children => action.elim children fun action => addAction pre action resolved children
  | pre, token :: tokens, children =>
    let pre := if pre = "" then token else pre ++ "/" ++ token
    descend pre token (grow action resolved pre tokens) children

mutual

/-- `shadeThresholds`: the node, and the threshold it passes up. -/
def shade : TrieNode → TrieNode × Option Floating
  | .leaf pre action threshold => (.leaf pre action threshold, threshold.map .finite)
  | .branch pre token threshold children =>
    let (children, values) := shadeAll children
    if values = [] then (.branch pre token threshold children, none)
    else
      let mean := Floating.average values
      (.branch pre token (some mean) children, some mean)

/-- The children, and the thresholds they pass up. -/
def shadeAll : List TrieNode → List TrieNode × List Floating
  | [] => ([], [])
  | node :: rest =>
    let (node, value) := node.shade
    let (rest, values) := shadeAll rest
    (node :: rest, value.elim values (· :: values))

end

/-- One key of `buildTreeFromPrefixes`. -/
def addKey (thresholds : String → Option ℚ) (children : List TrieNode) (raw : String) :
    List TrieNode :=
  let (tokens, action) := decodeKey raw
  if tokens = [] then children else grow action (thresholds raw) "" tokens children

end TrieNode

/-- `buildTreeFromPrefixes`. -/
def buildTreeFromPrefixes (prefixes : List String) (thresholds : String → Option ℚ) :
    Option TrieNode :=
  if prefixes = [] then none
  else some (TrieNode.branch "root" "" none
    (prefixes.foldl (TrieNode.addKey thresholds) [])).shade.1

/-! ## Action leaves -/

/-- An action leaf: the tokens of the nodes above it, its action and its threshold. -/
abbrev ActionLeaf : Type := List String × String × Option ℚ

namespace TrieNode

mutual

/-- The action leaves of a node, by the chains of tokens that lead to them. -/
def leaves : TrieNode → List ActionLeaf
  | .leaf _ action threshold => [([], action, threshold)]
  | .branch _ token _ children => (leavesOf children).map fun leaf => (token :: leaf.1, leaf.2)

/-- The action leaves of the children. -/
def leavesOf : List TrieNode → List ActionLeaf
  | [] => []
  | node :: rest => node.leaves ++ leavesOf rest

end

@[simp] theorem leavesOf_nil : leavesOf [] = [] := rfl

@[simp] theorem leavesOf_cons (node : TrieNode) (rest : List TrieNode) :
    leavesOf (node :: rest) = node.leaves ++ leavesOf rest := rfl

@[simp] theorem leaves_branch (pre token : String) (threshold : Option Floating)
    (children : List TrieNode) : (branch pre token threshold children).leaves =
      (leavesOf children).map fun leaf => (token :: leaf.1, leaf.2) := rfl

/-- The children of a node. -/
def children : TrieNode → List TrieNode
  | .leaf _ _ _ => []
  | .branch _ _ _ children => children

end TrieNode

/-- The action leaves of a trie, by their chains from the root. -/
def actionLeaves (root : Option TrieNode) : List ActionLeaf :=
  root.elim [] fun root => TrieNode.leavesOf root.children

/-- The action leaf a key stands for: it needs a token and an action. -/
def shown (thresholds : String → Option ℚ) (key : String) : Option ActionLeaf :=
  match decodeKey key with
  | (tokens, some action) => if tokens = [] then none else some (tokens, action, thresholds key)
  | (_, none) => none

namespace TrieNode

variable {tokens : List String} {action : String} {resolved : Option ℚ}

/-- No leaf of this action stands at the end of these tokens. -/
def Free (tokens : List String) (action : String) (children : List TrieNode) : Prop :=
  ∀ threshold, (tokens, action, threshold) ∉ leavesOf children

/-- A leaf is free in a list if it is free in every node. -/
theorem free_cons {node : TrieNode} {rest : List TrieNode} :
    Free tokens action (node :: rest) ↔
      (∀ threshold, (tokens, action, threshold) ∉ node.leaves) ∧ Free tokens action rest := by
  unfold Free
  rw [← forall_and]
  refine forall_congr' fun threshold => ?_
  rw [leavesOf_cons, List.mem_append, not_or]

/-- A free action adds its leaf. -/
theorem leavesOf_addAction (pre : String) (resolved : Option ℚ) {children : List TrieNode}
    (h : Free [] action children) :
    (leavesOf (addAction pre action resolved children)).Perm
      (([], action, resolved) :: leavesOf children) := by
  induction children with
  | nil => exact List.Perm.refl _
  | cons node rest ih =>
    obtain ⟨hnode, hrest⟩ := free_cons.mp h
    have hstep := ih hrest
    cases node with
    | leaf pre' action' threshold =>
      have hne : action' ≠ action := by
        rintro rfl
        exact hnode threshold List.mem_cons_self
      dsimp only [addAction]
      rw [if_neg hne, leavesOf_cons, leavesOf_cons]
      exact (hstep.append_left _).trans List.perm_middle
    | branch pre' token threshold children =>
      rw [addAction, leavesOf_cons, leavesOf_cons]
      exact (hstep.append_left _).trans List.perm_middle

/-- What the walk adds below a token, it adds with the token before it. -/
theorem leavesOf_descend (pre token : String) {below : List TrieNode → List TrieNode}
    (hbelow : ∀ children, Free tokens action children →
      (leavesOf (below children)).Perm ((tokens, action, resolved) :: leavesOf children))
    {children : List TrieNode} (h : Free (token :: tokens) action children) :
    (leavesOf (descend pre token below children)).Perm
      ((token :: tokens, action, resolved) :: leavesOf children) := by
  induction children with
  | nil =>
    -- a new branch, with what the walk puts below it
    have hempty := hbelow [] fun _ hmem => by cases hmem
    rw [descend, leavesOf_cons, leaves_branch, leavesOf_nil, List.append_nil]
    exact hempty.map fun leaf : ActionLeaf => (token :: leaf.1, leaf.2)
  | cons node rest ih =>
    obtain ⟨hnode, hrest⟩ := free_cons.mp h
    have hstep := ih hrest
    cases node with
    | leaf pre' action' threshold =>
      rw [descend, leavesOf_cons, leavesOf_cons]
      exact (hstep.append_left _).trans List.perm_middle
    | branch pre' token' threshold children =>
      dsimp only [descend]
      split
      · rename_i htoken
        -- the branch of the token, whose children are free below it
        have hfree : Free tokens action children := by
          intro threshold' hmem
          refine hnode threshold' ?_
          rw [leaves_branch, ← htoken]
          exact List.mem_map.mpr ⟨_, hmem, rfl⟩
        rw [leavesOf_cons, leavesOf_cons, leaves_branch, leaves_branch, htoken]
        exact ((hbelow children hfree).map
          fun leaf : ActionLeaf => (token :: leaf.1, leaf.2)).append_right _
      · rw [leavesOf_cons, leavesOf_cons]
        exact (hstep.append_left _).trans List.perm_middle

/-- The walk of a key adds its action leaf, and nothing else. -/
theorem leavesOf_grow (pre : String) {children : List TrieNode} (h : Free tokens action children) :
    (leavesOf (grow (some action) resolved pre tokens children)).Perm
      ((tokens, action, resolved) :: leavesOf children) := by
  induction tokens generalizing pre children with
  | nil => exact leavesOf_addAction pre resolved h
  | cons token tokens ih => exact leavesOf_descend _ token (fun _ hfree => ih _ hfree) h

theorem of_mem_addAction {pre : String} {children : List TrieNode} {leaf : ActionLeaf}
    (h : leaf ∈ leavesOf (addAction pre action resolved children)) :
    (leaf.1 = [] ∧ leaf.2.1 = action) ∨ leaf ∈ leavesOf children := by
  induction children with
  | nil =>
    rw [List.mem_singleton.mp h]
    exact .inl ⟨rfl, rfl⟩
  | cons node rest ih =>
    have hrest : leaf ∈ leavesOf (node :: addAction pre action resolved rest) →
        (leaf.1 = [] ∧ leaf.2.1 = action) ∨ leaf ∈ leavesOf (node :: rest) := by
      intro hmem
      rcases List.mem_append.mp hmem with hnode | hmem
      · exact .inr (List.mem_append_left _ hnode)
      · exact (ih hmem).imp_right (List.mem_append_right _)
    cases node with
    | leaf pre' action' threshold =>
      dsimp only [addAction] at h
      split at h
      · rename_i heq
        rcases List.mem_cons.mp h with rfl | hmem
        · exact .inl ⟨rfl, heq⟩
        · exact .inr (List.mem_cons_of_mem _ hmem)
      · exact hrest h
    | branch pre' token threshold children => exact hrest h

theorem of_mem_descend {pre token : String} {below : List TrieNode → List TrieNode}
    (hbelow : ∀ children leaf, leaf ∈ leavesOf (below children) →
      (leaf.1 = tokens ∧ leaf.2.1 = action) ∨ leaf ∈ leavesOf children)
    {children : List TrieNode} {leaf : ActionLeaf}
    (h : leaf ∈ leavesOf (descend pre token below children)) :
    (leaf.1 = token :: tokens ∧ leaf.2.1 = action) ∨ leaf ∈ leavesOf children := by
  -- a leaf below a branch has its token in front
  have hbranch : ∀ (threshold : Option Floating) (children : List TrieNode) (pre' : String),
      leaf ∈ (branch pre' token threshold (below children)).leaves →
      (leaf.1 = token :: tokens ∧ leaf.2.1 = action) ∨
        leaf ∈ (branch pre' token threshold children).leaves := by
    intro threshold children pre' hmem
    obtain ⟨found, hfound, rfl⟩ := List.mem_map.mp hmem
    rcases hbelow children found hfound with ⟨htokens, haction⟩ | hold
    · exact .inl ⟨congrArg (List.cons token) htokens, haction⟩
    · exact .inr (List.mem_map.mpr ⟨found, hold, rfl⟩)
  induction children with
  | nil =>
    rcases List.mem_append.mp h with hmem | hmem
    · rcases hbranch none [] pre hmem with hnew | hold
      · exact .inl hnew
      · cases hold
    · cases hmem
  | cons node rest ih =>
    -- a node that is passed by keeps its leaves
    have hrest : leaf ∈ leavesOf (node :: descend pre token below rest) →
        (leaf.1 = token :: tokens ∧ leaf.2.1 = action) ∨ leaf ∈ leavesOf (node :: rest) := by
      intro hmem
      rcases List.mem_append.mp hmem with hnode | hmem
      · exact .inr (List.mem_append_left _ hnode)
      · exact (ih hmem).imp_right (List.mem_append_right _)
    cases node with
    | leaf pre' action' threshold => exact hrest h
    | branch pre' token' threshold children =>
      dsimp only [descend] at h
      split at h
      · rename_i htoken
        rw [htoken] at h ⊢
        rcases List.mem_append.mp h with hmem | hmem
        · exact (hbranch threshold children pre' hmem).imp_right (List.mem_append_left _)
        · exact .inr (List.mem_append_right _ hmem)
      · exact hrest h

/-- The walk of a key makes a leaf of no other place. -/
theorem of_mem_grow {pre : String} {children : List TrieNode} {leaf : ActionLeaf}
    (h : leaf ∈ leavesOf (grow (some action) resolved pre tokens children)) :
    (leaf.1 = tokens ∧ leaf.2.1 = action) ∨ leaf ∈ leavesOf children := by
  induction tokens generalizing pre children leaf with
  | nil => exact of_mem_addAction h
  | cons token tokens ih => exact of_mem_descend (fun _ _ hmem => ih hmem) h

/-- Without an action it adds no leaf. -/
theorem leavesOf_grow_none (pre : String) (children : List TrieNode) :
    leavesOf (grow none resolved pre tokens children) = leavesOf children := by
  induction tokens generalizing pre children with
  | nil => rfl
  | cons token tokens ih =>
    dsimp only [grow]
    induction children with
    | nil =>
      rw [descend, leavesOf_cons, leaves_branch, ih]
      rfl
    | cons node rest ihrest =>
      cases node with
      | leaf pre' action' threshold => rw [descend, leavesOf_cons, leavesOf_cons, ihrest]
      | branch pre' token' threshold children =>
        dsimp only [descend]
        split
        · rw [leavesOf_cons, leavesOf_cons, leaves_branch, leaves_branch, ih]
        · rw [leavesOf_cons, leavesOf_cons, ihrest]

mutual

/-- Sharing thresholds moves no leaf. -/
theorem leaves_shade : (node : TrieNode) → node.shade.1.leaves = node.leaves
  | .leaf _ _ _ => rfl
  | .branch pre token threshold children => by
    have hchildren := leavesOf_shadeAll children
    rw [shade]
    dsimp only
    split
    · rw [leaves_branch, leaves_branch, hchildren]
    · rw [leaves_branch, leaves_branch, hchildren]

theorem leavesOf_shadeAll : (nodes : List TrieNode) → leavesOf (shadeAll nodes).1 = leavesOf nodes
  | [] => rfl
  | node :: rest => by
    rw [shadeAll]
    dsimp only
    rw [leavesOf_cons, leavesOf_cons, leaves_shade node, leavesOf_shadeAll rest]

end

theorem children_shade (pre token : String) (threshold : Option Floating)
    (children : List TrieNode) :
    (branch pre token threshold children).shade.1.children = (shadeAll children).1 := by
  rw [shade]
  dsimp only
  split <;> rfl

variable {thresholds : String → Option ℚ}

/-- A key adds its action leaf, if it has one. -/
theorem leavesOf_addKey {key : String} {children : List TrieNode}
    (h : ∀ leaf ∈ shown thresholds key, Free leaf.1 leaf.2.1 children) :
    (leavesOf (addKey thresholds children key)).Perm
      ((shown thresholds key).toList ++ leavesOf children) := by
  rcases hdecode : decodeKey key with ⟨tokens, action⟩
  -- a key without a token is passed over
  have hadd : addKey thresholds children key =
      if tokens = [] then children else grow action (thresholds key) "" tokens children := by
    unfold addKey
    rw [hdecode]
  cases action with
  | none =>
    have hshown : shown thresholds key = none := by
      unfold shown
      rw [hdecode]
    rw [hadd, hshown]
    split
    · exact List.Perm.refl _
    -- a key without an action makes branches, but no leaf
    · rw [leavesOf_grow_none]
      exact List.Perm.refl _
  | some action =>
    have hshown : shown thresholds key =
        if tokens = [] then none else some (tokens, action, thresholds key) := by
      unfold shown
      rw [hdecode]
    rw [hshown] at h ⊢
    rw [hadd]
    split
    · exact List.Perm.refl _
    · rename_i hne
      rw [if_neg hne] at h
      exact leavesOf_grow "" (h _ rfl)

/-- Every leaf is the one of the key or was there before. -/
theorem of_mem_addKey {key : String} {children : List TrieNode} {leaf : ActionLeaf}
    (h : leaf ∈ leavesOf (addKey thresholds children key)) :
    decodeKey key = (leaf.1, some leaf.2.1) ∨ leaf ∈ leavesOf children := by
  rcases hdecode : decodeKey key with ⟨tokens, action⟩
  unfold addKey at h
  rw [hdecode] at h
  dsimp only at h
  split at h
  · exact .inr h
  · cases action with
    | none =>
      rw [leavesOf_grow_none] at h
      exact .inr h
    | some action =>
      rcases of_mem_grow h with ⟨htokens, haction⟩ | hold
      · rw [htokens, haction]
        exact .inl rfl
      · exact .inr hold

/-- Keys that decode apart add one action leaf each. -/
theorem leavesOf_foldl_addKey {keys : List String} {children : List TrieNode}
    (hnodup : ((keys.filterMap (shown thresholds)).map fun leaf => (leaf.1, leaf.2.1)).Nodup)
    (hfree : ∀ leaf ∈ keys.filterMap (shown thresholds), Free leaf.1 leaf.2.1 children) :
    (leavesOf (keys.foldl (addKey thresholds) children)).Perm
      (keys.filterMap (shown thresholds) ++ leavesOf children) := by
  induction keys generalizing children with
  | nil => exact List.Perm.refl _
  | cons key rest ih =>
    rw [List.foldl_cons]
    cases hkey : shown thresholds key with
    | none =>
      have hadd := @leavesOf_addKey thresholds key children fun leaf hleaf => by
          rw [hkey] at hleaf
          cases hleaf
      rw [hkey] at hadd
      rw [List.filterMap_cons_none hkey] at hnodup hfree ⊢
      refine (ih hnodup fun leaf hleaf threshold hmem => ?_).trans (hadd.append_left _)
      exact hfree leaf hleaf threshold (hadd.mem_iff.mp hmem)
    | some first =>
      rw [List.filterMap_cons_some hkey] at hnodup hfree ⊢
      rw [List.map_cons, List.nodup_cons] at hnodup
      have hadd := @leavesOf_addKey thresholds key children fun leaf hleaf => by
          rw [hkey] at hleaf
          cases hleaf
          exact hfree first List.mem_cons_self
      rw [hkey] at hadd
      refine (ih hnodup.2 fun leaf hleaf threshold hmem => ?_).trans ?_
      · -- a leaf at the same place as the first would decode alike
        rcases List.mem_cons.mp (hadd.mem_iff.mp hmem) with heq | hmem
        · refine hnodup.1 (List.mem_map.mpr ⟨leaf, hleaf, ?_⟩)
          rw [← heq]
        · exact hfree leaf (List.mem_cons_of_mem first hleaf) threshold hmem
      · exact (hadd.append_left _).trans List.perm_middle

end TrieNode

/-- The action leaves of the trie are the leaves its keys stand for. -/
theorem perm_actionLeaves {keys : List String} {thresholds : String → Option ℚ}
    (hnodup : ((keys.filterMap (shown thresholds)).map fun leaf => (leaf.1, leaf.2.1)).Nodup) :
    (actionLeaves (buildTreeFromPrefixes keys thresholds)).Perm
      (keys.filterMap (shown thresholds)) := by
  unfold buildTreeFromPrefixes
  split
  · rename_i hkeys
    rw [hkeys]
    exact List.Perm.refl _
  · have hfold := @TrieNode.leavesOf_foldl_addKey thresholds keys [] hnodup
      fun _ _ _ hmem => by cases hmem
    rw [TrieNode.leavesOf_nil, List.append_nil] at hfold
    show (TrieNode.leavesOf (TrieNode.branch "root" "" none _).shade.1.children).Perm _
    rwa [TrieNode.children_shade, TrieNode.leavesOf_shadeAll]

/-- Every action leaf of the trie is decoded from a key. -/
theorem of_mem_actionLeaves {keys : List String} {thresholds : String → Option ℚ}
    {leaf : ActionLeaf} (h : leaf ∈ actionLeaves (buildTreeFromPrefixes keys thresholds)) :
    ∃ key ∈ keys, decodeKey key = (leaf.1, some leaf.2.1) := by
  have hfold : ∀ (keys : List String) (children : List TrieNode),
      leaf ∈ TrieNode.leavesOf (keys.foldl (TrieNode.addKey thresholds) children) →
      (∃ key ∈ keys, decodeKey key = (leaf.1, some leaf.2.1)) ∨
        leaf ∈ TrieNode.leavesOf children := by
    intro keys
    induction keys with
    | nil => exact fun _ hmem => .inr hmem
    | cons key rest ih =>
      intro children hmem
      rcases ih _ hmem with ⟨key', hkey', hdecode⟩ | hold
      · exact .inl ⟨key', List.mem_cons_of_mem key hkey', hdecode⟩
      · rcases TrieNode.of_mem_addKey hold with hdecode | hold
        · exact .inl ⟨key, List.mem_cons_self, hdecode⟩
        · exact .inr hold
  unfold buildTreeFromPrefixes at h
  split at h
  · cases h
  · have hmem : leaf ∈ TrieNode.leavesOf
        (TrieNode.branch "root" "" none _).shade.1.children := h
    rw [TrieNode.children_shade, TrieNode.leavesOf_shadeAll] at hmem
    rcases hfold keys [] hmem with hkey | hold
    · exact hkey
    · cases hold

/-- A key matches the cuts that its tokens begin with. -/
theorem keyMatchesPrefix_iff (key : String) (cut : List String) :
    keyMatchesPrefix key cut ↔ cut ≠ [] ∧ cut <+: (keyTokens key).1 := by
  unfold keyMatchesPrefix
  rw [decide_eq_true_iff]
  refine and_congr_right fun _ => ⟨?_, fun h => ?_⟩
  · rintro ⟨hlen, hall⟩
    rw [List.prefix_iff_getElem?]
    intro i hi
    rw [hall i hi, List.getElem?_eq_getElem hi]
  · refine ⟨h.length_le, fun i hi => ?_⟩
    rw [List.prefix_iff_getElem?.mp h i hi, List.getElem?_eq_getElem hi]

end Symm.Ui
