import Mathlib.Data.List.Nodup
import Symm.Ui.TrieAlike

/-!
# The policy trie view

`buildTreeFromPrefixes` numbers the nodes as it makes them; without the numbers its trie
is the one of `Ui.Trie`. Over keys of the path store it loses and invents nothing:
`extractPrefixes` gives the keys back, once each, and the trie does not depend on their
order but for the numbers, the order of the children and the last place of the means, which
are float64 sums over the children as they come.

- `TrieNodeData`, `buildTreeFromPrefixes`, `extractPrefixes`: the code, with ids;
- `erase_build`: what is left without the ids;
- `Numbers`: the ids that a walk gives out;
- `shows_keys`: the view of a list of keys;
- `means_by_order`: two orders of three keys that give a branch different means.
-/

namespace Symm.Ui

open Symm.Lib

/-- `exploreLeafThreshold`. -/
def exploreLeafThreshold : Option Floating → Option ℚ
  | some (.finite value) => some value
  | _ => none

/-- A leaf has a threshold if a finite number was recorded for it. -/
theorem exploreLeafThreshold_eq_some {recorded : Option Floating} {value : ℚ} :
    exploreLeafThreshold recorded = some value ↔ recorded = some (.finite value) := by
  cases recorded with
  | none => exact iff_of_false nofun nofun
  | some number =>
    cases number with
    | finite q => simp only [exploreLeafThreshold, Option.some_inj, Floating.finite.injEq]
    | _ => exact iff_of_false nofun nofun

/-- `TrieNodeData`. -/
inductive TrieNodeData
  | leaf (id pre action : String) (threshold : Option ℚ)
  | branch (id pre token : String) (threshold : Option Floating) (children : List TrieNodeData)

namespace TrieNodeData

/-- The action leaf below the last token, found or made; with the next id. -/
def addAction (pre action : String) (resolved : Option ℚ) (nextId : ℕ) :
    List TrieNodeData → List TrieNodeData × ℕ
  | [] =>
    ([.leaf (toString nextId) (pre ++ "/" ++ action.toLower ++ ".bin") action resolved],
      nextId + 1)
  | .leaf id pre' action' threshold :: rest =>
    if action' = action then (.leaf id pre' action' (resolved.or threshold) :: rest, nextId)
    else
      let (rest, next) := addAction pre action resolved nextId rest
      (.leaf id pre' action' threshold :: rest, next)
  | .branch id pre' token threshold children :: rest =>
    let (rest, next) := addAction pre action resolved nextId rest
    (.branch id pre' token threshold children :: rest, next)

/-- The branch of a token, found or made, and the walk below it. -/
def descend (pre token : String)
    (below : ℕ → List TrieNodeData → List TrieNodeData × ℕ) (nextId : ℕ) :
    List TrieNodeData → List TrieNodeData × ℕ
  | [] =>
    let (children, next) := below (nextId + 1) []
    ([.branch (toString nextId) pre token none children], next)
  | .leaf id pre' action threshold :: rest =>
    let (rest, next) := descend pre token below nextId rest
    (.leaf id pre' action threshold :: rest, next)
  | .branch id pre' token' threshold children :: rest =>
    if token' = token then
      let (children, next) := below nextId children
      (.branch id pre' token' threshold children :: rest, next)
    else
      let (rest, next) := descend pre token below nextId rest
      (.branch id pre' token' threshold children :: rest, next)

/-- The walk of one key from a node with this prefix. -/
def grow (action : Option String) (resolved : Option ℚ) :
    String → List String → ℕ → List TrieNodeData → List TrieNodeData × ℕ
  | pre, [], nextId, children =>
    action.elim (children, nextId) fun action => addAction pre action resolved nextId children
  | pre, token :: tokens, nextId, children =>
    let pre := if pre = "" then token else pre ++ "/" ++ token
    descend pre token (grow action resolved pre tokens) nextId children

/-- One key of `buildTreeFromPrefixes`. -/
def addKey (thresholds : String → Option Floating) (state : List TrieNodeData × ℕ)
    (raw : String) : List TrieNodeData × ℕ :=
  let (tokens, action) := decodeKey raw
  if tokens = [] then state
  else grow action (exploreLeafThreshold (thresholds raw)) "" tokens state.2 state.1

mutual

/-- `shadeThresholds`. -/
def shade : TrieNodeData → TrieNodeData × Option Floating
  | .leaf id pre action threshold => (.leaf id pre action threshold, threshold.map .finite)
  | .branch id pre token threshold children =>
    let (children, values) := shadeAll children
    if values = [] then (.branch id pre token threshold children, none)
    else
      let mean := Floating.average values
      (.branch id pre token (some mean) children, some mean)

def shadeAll : List TrieNodeData → List TrieNodeData × List Floating
  | [] => ([], [])
  | node :: rest =>
    let (node, value) := node.shade
    let (rest, values) := shadeAll rest
    (node :: rest, value.elim values (· :: values))

end

/-- `buildTreeFromPrefixes`. -/
def buildTreeFromPrefixes (prefixes : List String) (thresholds : String → Option Floating) :
    Option TrieNodeData :=
  if prefixes = [] then none
  else some (TrieNodeData.branch "root" "root" "" none
    (prefixes.foldl (addKey thresholds) ([], 1)).1).shade.1

mutual

/-- `walk` of `extractPrefixes`. -/
def walk : TrieNodeData → List String → List String
  | .leaf _ _ action _, currentPath =>
    if currentPath.length > 0 then [join currentPath ++ "/" ++ action.toLower ++ ".bin"] else []
  | .branch _ _ token _ children, currentPath =>
    walkAll children (if token = "" then currentPath else currentPath ++ [token])

def walkAll : List TrieNodeData → List String → List String
  | [], _ => []
  | node :: rest, currentPath => node.walk currentPath ++ walkAll rest currentPath

end

/-- `extractPrefixes`. -/
def extractPrefixes (data : Option TrieNodeData) : List String :=
  data.elim [] fun root => root.walk []

mutual

/-- The ids of a node and of those below it. -/
def ids : TrieNodeData → List String
  | .leaf id _ _ _ => [id]
  | .branch id _ _ _ children => id :: idsOf children

def idsOf : List TrieNodeData → List String
  | [] => []
  | node :: rest => node.ids ++ idsOf rest

end

/-! ## Without the ids -/

mutual

/-- The node without the ids. -/
def erase : TrieNodeData → TrieNode
  | .leaf _ pre action threshold => .leaf pre action threshold
  | .branch _ pre token threshold children => .branch pre token threshold (eraseAll children)

def eraseAll : List TrieNodeData → List TrieNode
  | [] => []
  | node :: rest => node.erase :: eraseAll rest

end

theorem erase_addAction (pre action : String) (resolved : Option ℚ) (nextId : ℕ)
    (nodes : List TrieNodeData) : eraseAll (addAction pre action resolved nextId nodes).1 =
      TrieNode.addAction pre action resolved (eraseAll nodes) := by
  induction nodes with
  | nil => rfl
  | cons node rest ih =>
    cases node with
    | leaf id pre' action' threshold =>
      dsimp only [addAction, eraseAll, erase, TrieNode.addAction]
      by_cases heq : action' = action
      · rw [if_pos heq, if_pos heq]
        rfl
      · rw [if_neg heq, if_neg heq, ← ih]
        rfl
    | branch id pre' token threshold children =>
      dsimp only [eraseAll, erase, TrieNode.addAction]
      rw [← ih]
      rfl

theorem erase_descend (pre token : String)
    {below : ℕ → List TrieNodeData → List TrieNodeData × ℕ}
    {below' : List TrieNode → List TrieNode}
    (hbelow : ∀ nextId nodes, eraseAll (below nextId nodes).1 = below' (eraseAll nodes))
    (nextId : ℕ) (nodes : List TrieNodeData) :
    eraseAll (descend pre token below nextId nodes).1 =
      TrieNode.descend pre token below' (eraseAll nodes) := by
  induction nodes with
  | nil =>
    have hempty := hbelow (nextId + 1) []
    dsimp only [eraseAll, TrieNode.descend] at hempty ⊢
    rw [← hempty]
    rfl
  | cons node rest ih =>
    cases node with
    | leaf id pre' action threshold =>
      dsimp only [eraseAll, erase, TrieNode.descend]
      rw [← ih]
      rfl
    | branch id pre' token' threshold children =>
      dsimp only [descend, eraseAll, erase, TrieNode.descend]
      by_cases heq : token' = token
      · rw [if_pos heq, if_pos heq, ← hbelow nextId]
        rfl
      · rw [if_neg heq, if_neg heq, ← ih]
        rfl

/-- Without the ids the walk is the one of `Ui.Trie`. -/
theorem erase_grow (action : Option String) (resolved : Option ℚ) (pre : String)
    (tokens : List String) (nextId : ℕ) (nodes : List TrieNodeData) :
    eraseAll (grow action resolved pre tokens nextId nodes).1 =
      TrieNode.grow action resolved pre tokens (eraseAll nodes) := by
  induction tokens generalizing pre nextId nodes with
  | nil =>
    cases action with
    | none => rfl
    | some action => exact erase_addAction pre action resolved nextId nodes
  | cons token tokens ih => exact erase_descend _ token (fun nextId nodes => ih _ nextId nodes) _ _

variable {thresholds : String → Option Floating}

/-- And so is the whole fold over the keys. -/
theorem erase_keys (keys : List String) (state : List TrieNodeData × ℕ) :
    eraseAll (keys.foldl (addKey thresholds) state).1 =
      keys.foldl (TrieNode.addKey fun key => exploreLeafThreshold (thresholds key))
        (eraseAll state.1) := by
  induction keys generalizing state with
  | nil => rfl
  | cons key rest ih =>
    rw [List.foldl_cons, List.foldl_cons, ih]
    congr 1
    unfold addKey TrieNode.addKey
    rcases decodeKey key with ⟨tokens, action⟩
    dsimp only
    by_cases hempty : tokens = []
    · rw [if_pos hempty, if_pos hempty]
    · rw [if_neg hempty, if_neg hempty]
      exact erase_grow _ _ _ _ _ _

mutual

/-- Sharing the thresholds does not look at the ids. -/
theorem erase_shade : (node : TrieNodeData) →
    node.shade.1.erase = node.erase.shade.1 ∧ node.shade.2 = node.erase.shade.2
  | .leaf _ _ _ _ => ⟨rfl, rfl⟩
  | .branch id pre token threshold children => by
    obtain ⟨hchildren, hvalues⟩ := erase_shadeAll children
    rw [erase, shade, TrieNode.shade]
    dsimp only
    rw [hvalues, ← hchildren]
    split
    · exact ⟨rfl, rfl⟩
    · exact ⟨rfl, rfl⟩

theorem erase_shadeAll : (nodes : List TrieNodeData) →
    eraseAll (shadeAll nodes).1 = (TrieNode.shadeAll (eraseAll nodes)).1 ∧
      (shadeAll nodes).2 = (TrieNode.shadeAll (eraseAll nodes)).2
  | [] => ⟨rfl, rfl⟩
  | node :: rest => by
    obtain ⟨hnode, hvalue⟩ := erase_shade node
    obtain ⟨hrest, hvalues⟩ := erase_shadeAll rest
    rw [eraseAll, shadeAll, TrieNode.shadeAll]
    dsimp only
    rw [eraseAll, hnode, hvalue, hrest, hvalues]
    exact ⟨rfl, rfl⟩

end

/-- Without the ids, the trie is the one of its keys. -/
theorem erase_build (keys : List String) (thresholds : String → Option Floating) :
    (buildTreeFromPrefixes keys thresholds).map erase =
      Ui.buildTreeFromPrefixes keys fun key => exploreLeafThreshold (thresholds key) := by
  unfold buildTreeFromPrefixes Ui.buildTreeFromPrefixes
  split
  · rfl
  · rw [Option.map_some, (erase_shade _).1, erase, erase_keys]
    rfl

/-! ## The ids -/

/-- From `n` on, the new nodes are numbered in turn. -/
def Numbers (n : ℕ) (nodes : List TrieNodeData) (out : List TrieNodeData × ℕ) : Prop :=
  ∃ k, out.2 = n + k ∧ (idsOf out.1).Perm (idsOf nodes ++ (List.range' n k).map toString)

theorem Numbers.refl (n : ℕ) (nodes : List TrieNodeData) : Numbers n nodes (nodes, n) :=
  ⟨0, rfl, by simp⟩

/-- One walk after the other goes on with the numbers. -/
theorem Numbers.trans {n : ℕ} {nodes : List TrieNodeData} {mid out : List TrieNodeData × ℕ}
    (h : Numbers n nodes mid) (h' : Numbers mid.2 mid.1 out) : Numbers n nodes out := by
  obtain ⟨k, hnext, hids⟩ := h
  obtain ⟨k', hnext', hids'⟩ := h'
  refine ⟨k + k', by omega, hids'.trans ?_⟩
  rw [hnext, ← List.range'_append_1, List.map_append, ← List.append_assoc]
  exact hids.append_right _

/-- A child that the walk passes. -/
theorem Numbers.cons {n : ℕ} {rest : List TrieNodeData} {out : List TrieNodeData × ℕ}
    (h : Numbers n rest out) (node : TrieNodeData) :
    Numbers n (node :: rest) (node :: out.1, out.2) := by
  obtain ⟨k, hnext, hids⟩ := h
  refine ⟨k, hnext, ?_⟩
  show (node.ids ++ idsOf out.1).Perm (node.ids ++ idsOf rest ++ _)
  rw [List.append_assoc]
  exact hids.append_left _

/-- A child that the walk goes through. -/
theorem Numbers.below {n : ℕ} {children : List TrieNodeData} {out : List TrieNodeData × ℕ}
    (h : Numbers n children out) (id pre token : String) (threshold : Option Floating)
    (rest : List TrieNodeData) :
    Numbers n (.branch id pre token threshold children :: rest)
      (.branch id pre token threshold out.1 :: rest, out.2) := by
  obtain ⟨k, hnext, hids⟩ := h
  refine ⟨k, hnext, ?_⟩
  show (id :: idsOf out.1 ++ idsOf rest).Perm (id :: idsOf children ++ idsOf rest ++ _)
  rw [List.cons_append, List.cons_append, List.cons_append]
  refine List.Perm.cons id ((hids.append_right _).trans ?_)
  rw [List.append_assoc, List.append_assoc]
  exact List.perm_append_comm.append_left _

theorem numbers_addAction (pre action : String) (resolved : Option ℚ) (n : ℕ)
    (nodes : List TrieNodeData) : Numbers n nodes (addAction pre action resolved n nodes) := by
  induction nodes with
  | nil => exact ⟨1, rfl, .refl _⟩
  | cons node rest ih =>
    cases node with
    | leaf id pre' action' threshold =>
      dsimp only [addAction]
      split
      · exact Numbers.refl n _
      · exact ih.cons _
    | branch id pre' token threshold children => exact ih.cons _

theorem numbers_descend (pre token : String)
    {below : ℕ → List TrieNodeData → List TrieNodeData × ℕ}
    (hbelow : ∀ n nodes, Numbers n nodes (below n nodes)) (n : ℕ) (nodes : List TrieNodeData) :
    Numbers n nodes (descend pre token below n nodes) := by
  induction nodes with
  | nil =>
    obtain ⟨k, hnext, hids⟩ := hbelow (n + 1) []
    refine ⟨k + 1, ?_, ?_⟩
    · show (below (n + 1) []).2 = n + (k + 1)
      omega
    · show (toString n :: idsOf (below (n + 1) []).1 ++ []).Perm _
      rw [List.append_nil, List.range'_succ]
      exact hids.cons _
  | cons node rest ih =>
    cases node with
    | leaf id pre' action threshold => exact ih.cons _
    | branch id pre' token' threshold children =>
      dsimp only [descend]
      split
      · exact (hbelow n children).below id pre' token' threshold rest
      · exact ih.cons _

/-- A walk gives every node it makes the next number. -/
theorem numbers_grow (action : Option String) (resolved : Option ℚ) (pre : String)
    (tokens : List String) (n : ℕ) (nodes : List TrieNodeData) :
    Numbers n nodes (grow action resolved pre tokens n nodes) := by
  induction tokens generalizing pre n nodes with
  | nil =>
    cases action with
    | none => exact Numbers.refl n nodes
    | some action => exact numbers_addAction pre action resolved n nodes
  | cons token tokens ih => exact numbers_descend _ token (fun n nodes => ih _ n nodes) n nodes

theorem numbers_keys (keys : List String) (state : List TrieNodeData × ℕ) :
    Numbers state.2 state.1 (keys.foldl (addKey thresholds) state) := by
  induction keys generalizing state with
  | nil => exact Numbers.refl _ _
  | cons key rest ih =>
    refine Numbers.trans ?_ (ih (addKey thresholds state key))
    unfold addKey
    rcases decodeKey key with ⟨tokens, action⟩
    dsimp only
    split
    · exact Numbers.refl _ _
    · exact numbers_grow _ _ _ _ _ _

mutual

/-- Sharing thresholds keeps the ids. -/
theorem ids_shade : (node : TrieNodeData) → node.shade.1.ids = node.ids
  | .leaf _ _ _ _ => rfl
  | .branch id pre token threshold children => by
    have hchildren := idsOf_shadeAll children
    rw [shade]
    dsimp only
    split
    · rw [ids, ids, hchildren]
    · rw [ids, ids, hchildren]

theorem idsOf_shadeAll : (nodes : List TrieNodeData) → idsOf (shadeAll nodes).1 = idsOf nodes
  | [] => rfl
  | node :: rest => by
    rw [shadeAll]
    dsimp only
    rw [idsOf, idsOf, ids_shade node, idsOf_shadeAll rest]

end

theorem toString_inj {m n : ℕ} (h : toString m = toString n) : m = n := by
  have hdigits := congrArg String.toList h
  rw [Nat.toString_eq_ofList_toDigits, Nat.toString_eq_ofList_toDigits, String.toList_ofList,
    String.toList_ofList] at hdigits
  have hvalue := congrArg (fun digits => Nat.ofDigitChars 10 digits 0) hdigits
  have hten : ∀ k : ℕ, Nat.ofDigitChars 10 (Nat.toDigits 10 k) 0 = k := fun k =>
    Nat.ofDigitChars_toDigits (by decide) (by decide)
  simpa only [hten] using hvalue

theorem toString_ne_root (n : ℕ) : toString n ≠ "root" := by
  intro h
  have hdigits := congrArg String.toList h
  rw [Nat.toString_eq_ofList_toDigits, String.toList_ofList] at hdigits
  have hmem : 'r' ∈ Nat.toDigits 10 n := hdigits ▸ by decide
  exact absurd (Nat.isDigit_of_mem_toDigits (by decide) (by decide) hmem) (by decide)

/-- No two nodes have the same id, the root included. -/
theorem nodup_ids {keys : List String} {root : TrieNodeData}
    (h : buildTreeFromPrefixes keys thresholds = some root) : root.ids.Nodup := by
  unfold buildTreeFromPrefixes at h
  split at h
  · cases h
  · obtain rfl := Option.some.inj h
    obtain ⟨k, -, hids⟩ := @numbers_keys thresholds keys ([], 1)
    rw [ids_shade, ids, List.nodup_cons, hids.mem_iff, hids.nodup_iff]
    show "root" ∉ (List.range' 1 k).map toString ∧ ((List.range' 1 k).map toString).Nodup
    have hrange : (List.range' 1 k).Nodup := List.nodup_range'
    refine ⟨fun hmem => ?_, hrange.map fun _ _ => toString_inj⟩
    obtain ⟨n, -, heq⟩ := List.mem_map.mp hmem
    exact toString_ne_root n heq

/-! ## The keys come back -/

/-- The place of a leaf below a chain of tokens. -/
def place (leaf : ActionLeaf) : List String := leaf.1 ++ [file leaf.2.1]

mutual

/-- The walk of a node finds the places of its leaves. -/
theorem walk_eq : (node : TrieNodeData) → {chain : List String} → TrieNode.Formed chain node.erase →
    node.walk chain = node.erase.leaves.map fun leaf => join (chain ++ place leaf)
  | .leaf id pre action threshold, chain, h => by
    have hchain : chain ≠ [] := h.2.1
    have hjoin := join_concat hchain (file action)
    rw [walk, if_pos (List.length_pos_of_ne_nil hchain), erase]
    show [_] = [join (chain ++ [file action])]
    rw [hjoin, file]
    simp only [String.append_assoc]
  | .branch id pre token threshold children, chain, h => by
    obtain ⟨-, -, htoken, -, hchildren⟩ := h
    rw [walk, if_neg htoken.nonempty, walkAll_eq children hchildren, erase, TrieNode.leaves_branch,
      List.map_map]
    refine List.map_congr_left fun leaf _ => ?_
    show join (chain ++ [token] ++ place leaf) = join (chain ++ token :: place leaf)
    rw [List.append_assoc]
    rfl

/-- `extractPrefixes` spells out the places of the leaves. -/
theorem walkAll_eq : (nodes : List TrieNodeData) → {chain : List String} →
    TrieNode.FormedAll chain (eraseAll nodes) →
    walkAll nodes chain =
      (TrieNode.leavesOf (eraseAll nodes)).map fun leaf => join (chain ++ place leaf)
  | [], _, _ => rfl
  | node :: rest, _, h => by
    rw [walkAll, walk_eq node h.1, walkAll_eq rest h.2.2, eraseAll, TrieNode.leavesOf_cons,
      List.map_append]

end

mutual

theorem walk_shade : (node : TrieNodeData) → (chain : List String) →
    node.shade.1.walk chain = node.walk chain
  | .leaf _ _ _ _, _ => rfl
  | .branch id pre token threshold children, chain => by
    have hchildren := walkAll_shade children
    rw [shade]
    dsimp only
    split
    · rw [walk, walk, hchildren]
    · rw [walk, walk, hchildren]

theorem walkAll_shade : (nodes : List TrieNodeData) → (chain : List String) →
    walkAll (shadeAll nodes).1 chain = walkAll nodes chain
  | [], _ => rfl
  | node :: rest, chain => by
    rw [shadeAll]
    dsimp only
    rw [walkAll, walkAll, walk_shade node, walkAll_shade rest]

end

end TrieNodeData

namespace TrieNode

mutual

/-- The places of the leaves are ways to nodes. -/
theorem places_sublist : (node : TrieNode) →
    (node.leaves.map TrieNodeData.place).Sublist node.routes
  | .leaf _ _ _ => by
    rw [routes]
    exact .refl _
  | .branch pre token threshold children => by
    have hchildren := (placesOf_sublist children).map (token :: ·)
    rw [leaves_branch, routes, List.map_map]
    rw [List.map_map] at hchildren
    exact hchildren.cons _

theorem placesOf_sublist : (nodes : List TrieNode) →
    ((leavesOf nodes).map TrieNodeData.place).Sublist (routesOf nodes)
  | [] => .slnil
  | node :: rest => by
    rw [leavesOf_cons, List.map_append, routesOf]
    exact (places_sublist node).append (placesOf_sublist rest)

end

end TrieNode

/-- The nodes of a trie below its root, without the ids. -/
def belowRoot (root : Option TrieNodeData) : List TrieNode :=
  root.elim [] fun root => root.erase.children

/-- What the view of a list of path keys shows. -/
structure ShowsKeys (keys : List PathKey) (thresholds : String → Option Floating)
    (root : Option TrieNodeData) : Prop where
  /-- No path is extracted twice. -/
  once : (TrieNodeData.extractPrefixes root).Nodup
  /-- The paths extracted are the keys without `model/paths/`. -/
  paths : ∀ path, path ∈ TrieNodeData.extractPrefixes root ↔ ∃ key ∈ keys, path = key.path
  /-- A prefix joins the tokens on the way to its node, and the file of a leaf's action. -/
  joined : TrieNode.prefixesOf (belowRoot root) = (TrieNode.routesOf (belowRoot root)).map join
  prefixes_apart : (TrieNode.prefixesOf (belowRoot root)).Nodup
  ids_apart : ∀ node ∈ root, node.ids.Nodup
  /-- A leaf carries the threshold that its key has in the map, where that is finite. -/
  scored : ∀ leaf ∈ TrieNode.leavesOf (belowRoot root), ∃ key ∈ keys,
    leaf.1 = key.tokens ∧ leaf.2.1 = key.action.toUpper ∧
      ∀ value, leaf.2.2 = some value ↔ thresholds key.text = some (.finite value)
  /-- Above a scored leaf, a node carries the mean of its scored children. -/
  means : ∀ node ∈ root, ∀ below ∈ node.erase.subnodes, below.CarriesMean

variable {thresholds : String → Option Floating}

/-- What is grown over a list of path keys, without the ids. -/
def grown (keys : List PathKey) (thresholds : String → Option Floating) : List TrieNode :=
  (keys.map PathKey.text).foldl
    (TrieNode.addKey fun key => exploreLeafThreshold (thresholds key)) []

/-- It is well formed, and its leaves are those of the keys. -/
theorem grown_spec (keys : List PathKey) (thresholds : String → Option Floating) :
    TrieNode.FormedAll [] (grown keys thresholds) ∧
      ∀ leaf, leaf ∈ TrieNode.leavesOf (grown keys thresholds) ↔ ∃ key ∈ keys,
        leaf = (key.tokens, key.action.toUpper, exploreLeafThreshold (thresholds key.text)) :=
  TrieNode.grown_keys keys

/-- The trie of some keys, before the thresholds are shared. -/
theorem exists_build {keys : List PathKey} (h : keys ≠ []) :
    ∃ nodes : List TrieNodeData, TrieNodeData.eraseAll nodes = grown keys thresholds ∧
      TrieNodeData.buildTreeFromPrefixes (keys.map PathKey.text) thresholds =
        some (TrieNodeData.branch "root" "root" "" none nodes).shade.1 := by
  refine ⟨_, TrieNodeData.erase_keys (keys.map PathKey.text) ([], 1), ?_⟩
  unfold TrieNodeData.buildTreeFromPrefixes
  exact if_neg (by simpa using h)

theorem erase_root (nodes : List TrieNodeData) :
    (TrieNodeData.branch "root" "root" "" none nodes).shade.1.erase =
      (TrieNode.branch "root" "" none (TrieNodeData.eraseAll nodes)).shade.1 := by
  rw [(TrieNodeData.erase_shade _).1, TrieNodeData.erase]

theorem belowRoot_build (nodes : List TrieNodeData) :
    belowRoot (some (TrieNodeData.branch "root" "root" "" none nodes).shade.1) =
      (TrieNode.shadeAll (TrieNodeData.eraseAll nodes)).1 := by
  show TrieNode.children (TrieNodeData.erase _) = _
  rw [erase_root, TrieNode.children_shade]

/-- The paths of a well-formed trie are the places of its leaves. -/
theorem extract_build {nodes : List TrieNodeData}
    (h : TrieNode.FormedAll [] (TrieNodeData.eraseAll nodes)) :
    TrieNodeData.extractPrefixes
        (some (TrieNodeData.branch "root" "root" "" none nodes).shade.1) =
      ((TrieNode.leavesOf (TrieNodeData.eraseAll nodes)).map TrieNodeData.place).map join := by
  show TrieNodeData.walk _ [] = _
  rw [TrieNodeData.walk_shade, TrieNodeData.walk, if_pos rfl, TrieNodeData.walkAll_eq nodes h,
    List.map_map]
  rfl

/-- No key is extracted twice. -/
theorem nodup_extract {nodes : List TrieNode} (h : TrieNode.FormedAll [] nodes) :
    (((TrieNode.leavesOf nodes).map TrieNodeData.place).map join).Nodup := by
  have hsub := TrieNode.placesOf_sublist nodes
  refine (h.nodup_routesOf.sublist hsub).map_on fun a ha b hb heq => ?_
  exact join_inj (h.segments a (hsub.subset ha)) (h.segments b (hsub.subset hb)) heq

/-- The place of a key's leaf is the key. -/
theorem join_place (key : PathKey) (threshold : Option ℚ) :
    join (TrieNodeData.place (key.tokens, key.action.toUpper, threshold)) = key.path := by
  unfold TrieNodeData.place
  rw [key.isAction.file_toUpper]
  rfl

/-- No keys, no trie, and nothing is shown. -/
theorem showsKeys_none (thresholds : String → Option Floating) :
    ShowsKeys [] thresholds none where
  once := List.nodup_nil
  paths path := by simp [TrieNodeData.extractPrefixes]
  joined := rfl
  prefixes_apart := List.nodup_nil
  ids_apart node hnode := by cases hnode
  scored leaf hleaf := by cases hleaf
  means node hnode := by cases hnode

/-- What the view of a list of keys shows. -/
theorem showsKeys_build (keys : List PathKey) (thresholds : String → Option Floating) :
    ShowsKeys keys thresholds
      (TrieNodeData.buildTreeFromPrefixes (keys.map PathKey.text) thresholds) := by
  by_cases hempty : keys = []
  · rw [hempty]
    exact showsKeys_none thresholds
  -- the view is the grown trie with shades, and shades change no leaf
  obtain ⟨hformed, hleaves⟩ := grown_spec keys thresholds
  obtain ⟨nodes, herase, hbuild⟩ := @exists_build thresholds keys hempty
  have hgrown : TrieNode.FormedAll [] (TrieNodeData.eraseAll nodes) := herase ▸ hformed
  rw [hbuild]
  refine ⟨?_, fun path => ?_, ?_, ?_, ?_, ?_, ?_⟩
  · rw [extract_build hgrown]
    exact nodup_extract hgrown
  · rw [extract_build hgrown, List.map_map, herase, List.mem_map]
    constructor
    · rintro ⟨leaf, hleaf, rfl⟩
      obtain ⟨key, hkey, rfl⟩ := (hleaves leaf).mp hleaf
      exact ⟨key, hkey, join_place key _⟩
    · rintro ⟨key, hkey, rfl⟩
      exact ⟨_, (hleaves _).mpr ⟨key, hkey, rfl⟩, join_place key _⟩
  · rw [belowRoot_build, TrieNode.prefixesOf_shadeAll, TrieNode.routesOf_shadeAll]
    exact hgrown.prefixesOf_eq
  · rw [belowRoot_build, TrieNode.prefixesOf_shadeAll]
    exact hgrown.nodup_prefixesOf
  · intro node hnode
    exact TrieNodeData.nodup_ids (hbuild.trans hnode)
  · intro leaf hleaf
    rw [belowRoot_build, TrieNode.leavesOf_shadeAll, herase] at hleaf
    obtain ⟨key, hkey, rfl⟩ := (hleaves leaf).mp hleaf
    exact ⟨key, hkey, rfl, rfl, fun value => exploreLeafThreshold_eq_some⟩
  · rintro node hnode below hbelow
    cases hnode
    rw [erase_root] at hbelow
    rcases TrieNode.mem_subnodes_branch hbelow with rfl | hbelow
    · exact TrieNode.shade_mean "root" "" hgrown
    · exact hgrown.carriesMean below hbelow

/-- The order of the keys decides the ids, the order of the children and with it the
rounding of the means, and nothing else. -/
theorem alike_build {keys keys' : List PathKey} (h : keys'.Perm keys)
    (thresholds : String → Option Floating) :
    TrieNode.Alike TrieNode.AsScored
      ((TrieNodeData.buildTreeFromPrefixes (keys'.map PathKey.text) thresholds).toList.map
        TrieNodeData.erase)
      ((TrieNodeData.buildTreeFromPrefixes (keys.map PathKey.text) thresholds).toList.map
        TrieNodeData.erase) := by
  by_cases hempty : keys = []
  · subst hempty
    rw [h.eq_nil]
    exact .nil
  have hempty' : keys' ≠ [] := by
    rintro rfl
    exact hempty h.nil_eq.symm
  obtain ⟨nodes, herase, hbuild⟩ := @exists_build thresholds keys hempty
  obtain ⟨nodes', herase', hbuild'⟩ := @exists_build thresholds keys' hempty'
  obtain ⟨hformed, hleaves⟩ := grown_spec keys thresholds
  obtain ⟨hformed', hleaves'⟩ := grown_spec keys' thresholds
  -- both tries have the same leaves
  have hgrown : TrieNode.Alike TrieNode.AsScored (grown keys' thresholds)
      (grown keys thresholds) := by
    refine TrieNode.FormedAll.alike TrieNode.asScored_refl _ hformed' hformed fun leaf => ?_
    rw [hleaves, hleaves']
    exact exists_congr fun key => and_congr_left' h.mem_iff
  have hroot : TrieNode.Alike TrieNode.AsScored
      [.branch "root" "" none (grown keys' thresholds)]
      [.branch "root" "" none (grown keys thresholds)] := .branch "root" "" rfl hgrown .nil
  -- and thresholds are shared over both
  rw [hbuild, hbuild']
  show TrieNode.Alike TrieNode.AsScored [TrieNodeData.erase _] [TrieNodeData.erase _]
  rw [erase_root, erase_root, herase, herase']
  exact hroot.shade.1

/-- The view of path keys, in any order and with repetitions, loses and invents nothing. -/
theorem shows_keys (keys : List PathKey) (thresholds : String → Option Floating) :
    ShowsKeys keys thresholds
        (TrieNodeData.buildTreeFromPrefixes (keys.map PathKey.text) thresholds) ∧
      ∀ keys' : List PathKey, keys'.Perm keys →
        TrieNode.Alike TrieNode.AsScored
          ((TrieNodeData.buildTreeFromPrefixes (keys'.map PathKey.text) thresholds).toList.map
            TrieNodeData.erase)
          ((TrieNodeData.buildTreeFromPrefixes (keys.map PathKey.text) thresholds).toList.map
            TrieNodeData.erase) :=
  ⟨showsKeys_build keys thresholds, fun _ h => alike_build h thresholds⟩

/-- The key of an action below one token. -/
def shortKey (action : String) (h : Action action) : PathKey where
  tokens := ["a"]
  action := action
  tokens_ne := List.cons_ne_nil _ _
  isToken _ htoken := by
    obtain rfl := List.mem_singleton.mp htoken
    exact ⟨⟨by decide, by decide⟩, by decide⟩
  isAction := h

/-- The letters of an action are looked at one by one. -/
theorem action_of_all {text : String} (hne : text ≠ "")
    (h : text.toList.all (fun c => decide (c ≠ '/' ∧ c.toNat < 128 ∧ ¬ c.isUpper)) = true) :
    Action text := by
  have hletters : ∀ c ∈ text.toList, c ≠ '/' ∧ c.toNat < 128 ∧ ¬ c.isUpper :=
    fun c hc => of_decide_eq_true (List.all_eq_true.mp h c hc)
  exact ⟨hne, fun hslash => (hletters '/' hslash).1 rfl, fun c hc => (hletters c hc).2.1,
    fun c hc => (hletters c hc).2.2⟩

/-- The three actions of one path. -/
def actionKeys : List PathKey :=
  [shortKey "enter" (action_of_all (by decide) (by decide)),
    shortKey "hold" (action_of_all (by decide) (by decide)),
    shortKey "exit" (action_of_all (by decide) (by decide))]

/-- One, two and three tenths. -/
def tenths (key : String) : Option Floating :=
  if key = "model/paths/a/enter.bin" then some (.double (1 / 10))
  else if key = "model/paths/a/hold.bin" then some (.double (2 / 10))
  else if key = "model/paths/a/exit.bin" then some (.double (3 / 10))
  else none

/-- The mean of the branch is 0.20000000000000004, and 0.19999999999999998 with the keys in
the other order. -/
theorem means_by_order : ¬ ∀ (keys : List PathKey) (thresholds : String → Option Floating),
    ShowsKeys keys thresholds
        (TrieNodeData.buildTreeFromPrefixes (keys.map PathKey.text) thresholds) ∧
      ∀ keys' : List PathKey, keys'.Perm keys →
        TrieNode.Alike (· = ·)
          ((TrieNodeData.buildTreeFromPrefixes (keys'.map PathKey.text) thresholds).toList.map
            TrieNodeData.erase)
          ((TrieNodeData.buildTreeFromPrefixes (keys.map PathKey.text) thresholds).toList.map
            TrieNodeData.erase) := by
  intro h
  have hsame := ((h actionKeys tenths).2 _ (List.reverse_perm actionKeys)).thresholds
  have hapart : ¬ ((((TrieNodeData.buildTreeFromPrefixes (actionKeys.reverse.map PathKey.text)
      tenths).toList.map TrieNodeData.erase).map TrieNode.threshold).Perm
    (((TrieNodeData.buildTreeFromPrefixes (actionKeys.map PathKey.text)
      tenths).toList.map TrieNodeData.erase).map TrieNode.threshold)) := by
    decide +kernel
  exact hapart hsame

end Symm.Ui
