import Symm.Ui.TrieForm

/-!
# Tries up to the order of the children

A well-formed trie is settled by its action leaves: two of them with the same leaves
differ in the order of the children alone. `shadeThresholds` then gives the same nodes a
threshold, but not the same threshold: it adds up the children in their order, and the
sum of float64s depends on it in the last place.

- `Alike`: the same children, in any order, at every node, and thresholds of the branches
  that a relation holds between;
- `FormedAll.alike`: same leaves, same trie;
- `Alike.shade`: sharing the thresholds scores the same branches in any order;
- `FormedAll.carriesMean`: what it leaves at every node.

The relation between thresholds is a parameter of `Alike`. Where it is equality, the
tries are the same but for the order of children; `AsScored` asks only that both
branches have a threshold or neither has, which is what is left once the thresholds are
shared.

That a trie is settled by its leaves is an induction over the two tries at once: the
first segment of a leaf says through which child it is reached, so each child of the one
has its counterpart in the other, with the same leaves behind it, and the others have
the rest.
-/

namespace Symm.Ui

open Symm.Lib

namespace TrieNode

/-- The same nodes in any order, with children that are alike in turn; between the
thresholds of two branches the relation holds. -/
inductive Alike (same : Option Floating → Option Floating → Prop) :
    List TrieNode → List TrieNode → Prop
  | nil : Alike same [] []
  | leaf (pre action : String) (threshold : Option ℚ) {rest rest' : List TrieNode} :
    Alike same rest rest' →
      Alike same (.leaf pre action threshold :: rest) (.leaf pre action threshold :: rest')
  | branch (pre token : String) {threshold threshold' : Option Floating}
    {children children' rest rest' : List TrieNode} : same threshold threshold' →
    Alike same children children' → Alike same rest rest' →
      Alike same (.branch pre token threshold children :: rest)
        (.branch pre token threshold' children' :: rest')
  | swap (a b : TrieNode) (rest : List TrieNode) : Alike same (a :: b :: rest) (b :: a :: rest)
  | trans {as bs cs : List TrieNode} : Alike same as bs → Alike same bs cs → Alike same as cs

/-- Both branches have a threshold, or neither has. -/
def AsScored (a b : Option Floating) : Prop := a.isSome = b.isSome

theorem asScored_refl (value : Option Floating) : AsScored value value := rfl

variable {same : Option Floating → Option Floating → Prop}

mutual

theorem Alike.refl_cons (hsame : ∀ value, same value value) : (node : TrieNode) →
    {rest rest' : List TrieNode} → Alike same rest rest' →
    Alike same (node :: rest) (node :: rest')
  | .leaf pre action threshold, _, _, h => .leaf pre action threshold h
  | .branch pre token threshold children, _, _, h =>
    .branch pre token (hsame threshold) (Alike.refl hsame children) h

theorem Alike.refl (hsame : ∀ value, same value value) :
    (nodes : List TrieNode) → Alike same nodes nodes
  | [] => .nil
  | node :: rest => Alike.refl_cons hsame node (Alike.refl hsame rest)

end

/-- Reordering nodes leaves them alike. -/
theorem Alike.of_perm (hsame : ∀ value, same value value) {as bs : List TrieNode}
    (h : as.Perm bs) : Alike same as bs := by
  induction h with
  | nil => exact .nil
  | cons node _ ih => exact .refl_cons hsame node ih
  | swap a b rest => exact .swap b a rest
  | trans _ _ ih ih' => exact .trans ih ih'

/-! ## Same leaves, same trie -/

/-- The segment that leads to the leaf first. -/
def firstSeg : ActionLeaf → String
  | ([], action, _) => file action
  | (token :: _, _) => token

/-- A leaf is reached through the segment of its node first. -/
theorem firstSeg_of_mem {node : TrieNode} {leaf : ActionLeaf} (h : leaf ∈ node.leaves) :
    firstSeg leaf = node.seg := by
  cases node with
  | leaf pre action threshold =>
    rw [List.mem_singleton.mp h]
    rfl
  | branch pre token threshold children =>
    obtain ⟨found, -, rfl⟩ := List.mem_map.mp h
    rfl

/-- The leaves of a list are those of its nodes. -/
theorem mem_leavesOf {nodes : List TrieNode} {leaf : ActionLeaf} :
    leaf ∈ leavesOf nodes ↔ ∃ node ∈ nodes, leaf ∈ node.leaves := by
  induction nodes with
  | nil => simp
  | cons node rest ih => rw [leavesOf_cons, List.mem_append, ih, List.exists_mem_cons_iff]

mutual

/-- Every node leads to a leaf. -/
theorem Formed.exists_leaf : {chain : List String} → {node : TrieNode} → Formed chain node →
    ∃ leaf, leaf ∈ node.leaves
  | _, .leaf _ action threshold, _ => ⟨([], action, threshold), List.mem_cons_self⟩
  | _, .branch _ token _ children, h => by
    obtain ⟨leaf, hleaf⟩ := FormedAll.exists_leaf h.2.2.2.2 h.2.2.2.1
    exact ⟨(token :: leaf.1, leaf.2), List.mem_map.mpr ⟨leaf, hleaf, rfl⟩⟩

theorem FormedAll.exists_leaf : {chain : List String} → {nodes : List TrieNode} →
    FormedAll chain nodes → nodes ≠ [] → ∃ leaf, leaf ∈ leavesOf nodes
  | _, [], _, hne => absurd rfl hne
  | _, node :: rest, h, _ => by
    obtain ⟨leaf, hleaf⟩ := Formed.exists_leaf h.1
    exact ⟨leaf, List.mem_append_left _ hleaf⟩

end

variable {chain : List String} {nodes nodes' : List TrieNode}

/-- The leaves behind one child are those with its segment. -/
theorem mem_leaves_iff (h : FormedAll chain nodes) {node : TrieNode} (hnode : node ∈ nodes)
    {leaf : ActionLeaf} :
    leaf ∈ node.leaves ↔ leaf ∈ leavesOf nodes ∧ firstSeg leaf = node.seg := by
  constructor
  · intro hleaf
    exact ⟨mem_leavesOf.mpr ⟨node, hnode, hleaf⟩, firstSeg_of_mem hleaf⟩
  · rintro ⟨hleaf, hseg⟩
    obtain ⟨other, hother, hleaf⟩ := mem_leavesOf.mp hleaf
    have hsame : other.seg = node.seg := (firstSeg_of_mem hleaf).symm.trans hseg
    rwa [List.inj_on_of_nodup_map h.nodup hother hnode hsame] at hleaf

/-- The leaves behind the other children are the rest. -/
theorem mem_rest_iff {node : TrieNode} {rest : List TrieNode} (h : FormedAll chain (node :: rest))
    {leaf : ActionLeaf} :
    leaf ∈ leavesOf rest ↔ leaf ∈ leavesOf (node :: rest) ∧ firstSeg leaf ≠ node.seg := by
  constructor
  · intro hleaf
    refine ⟨List.mem_append_right _ hleaf, fun hseg => h.2.1 ?_⟩
    obtain ⟨other, hother, hleaf⟩ := mem_leavesOf.mp hleaf
    exact List.mem_map.mpr ⟨other, hother, (firstSeg_of_mem hleaf).symm.trans hseg⟩
  · rintro ⟨hleaf, hne⟩
    rcases List.mem_append.mp hleaf with hleaf | hleaf
    · exact absurd (firstSeg_of_mem hleaf) hne
    · exact hleaf

theorem mem_leaves_branch {pre token : String} {threshold : Option Floating}
    {children : List TrieNode} {leaf : ActionLeaf} :
    (token :: leaf.1, leaf.2) ∈ (branch pre token threshold children).leaves ↔
      leaf ∈ leavesOf children := by
  rw [leaves_branch, List.mem_map]
  constructor
  · rintro ⟨found, hfound, heq⟩
    obtain ⟨htokens, hrest⟩ := Prod.ext_iff.mp heq
    have hsame : found = leaf := Prod.ext (List.cons.inj htokens).2 hrest
    exact hsame ▸ hfound
  · intro hleaf
    exact ⟨leaf, hleaf, rfl⟩

mutual

/-- Nodes at one place that lead to the same leaves. -/
theorem Formed.alike (hsame : ∀ value, same value value) : (node : TrieNode) →
    {node' : TrieNode} → {chain : List String} → Formed chain node → Formed chain node' →
    (∀ leaf, leaf ∈ node.leaves ↔ leaf ∈ node'.leaves) →
    {rest rest' : List TrieNode} → Alike same rest rest' →
    Alike same (node :: rest) (node' :: rest')
  | .leaf pre action threshold, .leaf pre' action' threshold', _, h, h', hleaves, _, _, hrest => by
    have hfound := (hleaves ([], action, threshold)).mp List.mem_cons_self
    cases List.mem_singleton.mp hfound
    rw [h.1, h'.1]
    exact .leaf _ action threshold hrest
  | .leaf _ action threshold, .branch _ _ _ _, _, _, _, hleaves, _, _, _ => by
    have hfound := (hleaves ([], action, threshold)).mp List.mem_cons_self
    obtain ⟨_, -, heq⟩ := List.mem_map.mp hfound
    cases heq
  | .branch _ _ _ _, .leaf _ action threshold, _, _, _, hleaves, _, _, _ => by
    have hfound := (hleaves ([], action, threshold)).mpr List.mem_cons_self
    obtain ⟨_, -, heq⟩ := List.mem_map.mp hfound
    cases heq
  | .branch pre token threshold children, .branch pre' token' threshold' children', chain, h, h',
      hleaves, _, _, hrest => by
    -- two branches with the same leaves have the same token
    obtain ⟨leaf, hleaf⟩ := Formed.exists_leaf h
    have htoken : token = token' :=
      (firstSeg_of_mem hleaf).symm.trans (firstSeg_of_mem ((hleaves leaf).mp hleaf))
    subst htoken
    obtain ⟨rfl, rfl, -, -, hchildren⟩ := h
    obtain ⟨rfl, rfl, -, -, hchildren'⟩ := h'
    have hbelow := FormedAll.alike hsame children hchildren hchildren' fun leaf => by
      rw [← mem_leaves_branch, hleaves, mem_leaves_branch]
    exact .branch _ token (hsame none) hbelow hrest

/-- Well-formed tries with the same leaves are the same up to the order of the children. -/
theorem FormedAll.alike (hsame : ∀ value, same value value) : (nodes : List TrieNode) →
    {nodes' : List TrieNode} → {chain : List String} → FormedAll chain nodes →
    FormedAll chain nodes' →
    (∀ leaf, leaf ∈ leavesOf nodes ↔ leaf ∈ leavesOf nodes') → Alike same nodes nodes'
  | [], [], _, _, _, _ => .nil
  | [], _ :: _, _, _, h', hleaves => by
    obtain ⟨leaf, hleaf⟩ := FormedAll.exists_leaf h' (List.cons_ne_nil _ _)
    cases (hleaves leaf).mpr hleaf
  | node :: rest, nodes', chain, h, h', hleaves => by
    -- the child of the other trie that leads to the leaves of this one
    obtain ⟨leaf, hleaf⟩ := Formed.exists_leaf h.1
    have hmem := (hleaves leaf).mp (List.mem_append_left _ hleaf)
    obtain ⟨node', hnode', hleaf'⟩ := mem_leavesOf.mp hmem
    have hseg : node.seg = node'.seg :=
      (firstSeg_of_mem hleaf).symm.trans (firstSeg_of_mem hleaf')
    have hleaves' : ∀ leaf, leaf ∈ node.leaves ↔ leaf ∈ node'.leaves := by
      intro leaf
      rw [mem_leaves_iff h List.mem_cons_self, mem_leaves_iff h' hnode', hleaves, hseg]
    obtain ⟨before, after, rfl⟩ := List.append_of_mem hnode'
    have hperm : (node' :: (before ++ after)).Perm (before ++ node' :: after) :=
      List.perm_middle.symm
    have hformed : FormedAll chain (node' :: (before ++ after)) := by
      obtain ⟨hall, hnodup⟩ := formedAll_iff.mp h'
      refine formedAll_iff.mpr ⟨fun other hother => hall other (hperm.mem_iff.mp hother), ?_⟩
      exact ((hperm.map seg).nodup_iff).mpr hnodup
    have hother : ∀ leaf, leaf ∈ leavesOf rest ↔ leaf ∈ leavesOf (before ++ after) := by
      intro leaf
      rw [mem_rest_iff h, mem_rest_iff hformed, hleaves, hseg, mem_leavesOf, mem_leavesOf]
      exact and_congr_left' (exists_congr fun other => and_congr_left' hperm.mem_iff.symm)
    have hrest := FormedAll.alike hsame rest h.2.2 hformed.2.2 hother
    exact .trans (Formed.alike hsame node h.1 hformed.1 hleaves' hrest) (.of_perm hsame hperm)

end

/-! ## Sharing the thresholds -/

/-- The threshold of a node. -/
def threshold : TrieNode → Option Floating
  | .leaf _ _ threshold => threshold.map .finite
  | .branch _ _ threshold _ => threshold

theorem shadeAll_cons (node : TrieNode) (rest : List TrieNode) :
    shadeAll (node :: rest) =
      (node.shade.1 :: (shadeAll rest).1, node.shade.2.toList ++ (shadeAll rest).2) := by
  rw [shadeAll]
  rcases node.shade with ⟨node, value⟩
  cases value <;> rfl

/-- Without a scored child a branch keeps the threshold it had. -/
theorem shade_branch_of_nil {pre token : String} {threshold : Option Floating}
    {children : List TrieNode} (h : (shadeAll children).2 = []) :
    (branch pre token threshold children).shade =
      (branch pre token threshold (shadeAll children).1, none) := by
  rw [shade]
  exact if_pos h

/-- With one it gets the average of those that are. -/
theorem shade_branch_of_scored {pre token : String} {threshold : Option Floating}
    {children : List TrieNode} (h : (shadeAll children).2 ≠ []) :
    (branch pre token threshold children).shade =
      (branch pre token (some (.average (shadeAll children).2)) (shadeAll children).1,
        some (.average (shadeAll children).2)) := by
  rw [shade]
  exact if_neg h

/-- Sharing the thresholds passes up as many in any order of the children. -/
theorem Alike.shade {as bs : List TrieNode} (h : Alike AsScored as bs) :
    Alike AsScored (shadeAll as).1 (shadeAll bs).1 ∧
      (shadeAll as).2.length = (shadeAll bs).2.length := by
  induction h with
  | nil => exact ⟨.nil, rfl⟩
  | leaf pre action threshold _ ih =>
    rw [shadeAll_cons, shadeAll_cons, List.length_append, List.length_append]
    exact ⟨.leaf pre action threshold ih.1, congrArg _ ih.2⟩
  | @branch pre token threshold threshold' children children' rest rest' hscored _ _ ihchildren
      ihrest =>
    obtain ⟨hchildren, hlength⟩ := ihchildren
    rw [shadeAll_cons, shadeAll_cons, List.length_append, List.length_append]
    -- a branch is scored if one of its children passes a threshold up
    by_cases hnil : (shadeAll children).2 = []
    · have hnil' : (shadeAll children').2 = [] := by
        rw [hnil, List.length_nil] at hlength
        exact List.length_eq_zero_iff.mp hlength.symm
      rw [shade_branch_of_nil hnil, shade_branch_of_nil hnil']
      exact ⟨.branch pre token hscored hchildren ihrest.1, congrArg _ ihrest.2⟩
    · have hnil' : (shadeAll children').2 ≠ [] := by
        intro h'
        rw [h', List.length_nil] at hlength
        exact hnil (List.length_eq_zero_iff.mp hlength)
      rw [shade_branch_of_scored hnil, shade_branch_of_scored hnil']
      exact ⟨.branch pre token rfl hchildren ihrest.1, congrArg _ ihrest.2⟩
  | swap a b rest =>
    rw [shadeAll_cons, shadeAll_cons, shadeAll_cons, shadeAll_cons]
    refine ⟨.swap _ _ _, ?_⟩
    simp only [List.length_append]
    omega
  | trans _ _ ih ih' => exact ⟨ih.1.trans ih'.1, ih.2.trans ih'.2⟩

/-- Tries alike with equal thresholds have the same ones at the top. -/
theorem Alike.thresholds {as bs : List TrieNode} (h : Alike (· = ·) as bs) :
    (as.map threshold).Perm (bs.map threshold) := by
  induction h with
  | nil => exact .refl _
  | leaf pre action threshold _ ih => exact ih.cons _
  | branch pre token hsame _ _ _ ih =>
    rw [List.map_cons, List.map_cons, threshold, threshold, hsame]
    exact ih.cons _
  | swap a b rest => exact List.Perm.swap _ _ _
  | trans _ _ ih ih' => exact ih.trans ih'

mutual

theorem routes_shade : (node : TrieNode) → node.shade.1.routes = node.routes
  | .leaf _ _ _ => rfl
  | .branch pre token threshold children => by
    have hchildren := routesOf_shadeAll children
    rw [shade]
    dsimp only
    split
    · rw [routes, routes, hchildren]
    · rw [routes, routes, hchildren]

theorem routesOf_shadeAll : (nodes : List TrieNode) → routesOf (shadeAll nodes).1 = routesOf nodes
  | [] => rfl
  | node :: rest => by
    rw [shadeAll_cons, routesOf, routesOf, routes_shade node, routesOf_shadeAll rest]

end

mutual

theorem prefixes_shade : (node : TrieNode) → node.shade.1.prefixes = node.prefixes
  | .leaf _ _ _ => rfl
  | .branch pre token threshold children => by
    have hchildren := prefixesOf_shadeAll children
    rw [shade]
    dsimp only
    split
    · rw [prefixes, prefixes, hchildren]
    · rw [prefixes, prefixes, hchildren]

theorem prefixesOf_shadeAll : (nodes : List TrieNode) →
    prefixesOf (shadeAll nodes).1 = prefixesOf nodes
  | [] => rfl
  | node :: rest => by
    rw [shadeAll_cons, prefixesOf, prefixesOf, prefixes_shade node, prefixesOf_shadeAll rest]

end

/-- What a node passes up is the threshold it is left with. -/
theorem shade_passes {node : TrieNode} (h : Formed chain node) :
    node.shade.2 = node.shade.1.threshold := by
  cases node with
  | leaf pre action threshold => rfl
  | branch pre token threshold children =>
    obtain ⟨-, rfl, -⟩ := h
    by_cases hnil : (shadeAll children).2 = []
    · rw [shade_branch_of_nil hnil]
      rfl
    · rw [shade_branch_of_scored hnil]
      rfl

/-- What the nodes pass up are the thresholds that they end with. -/
theorem shadeAll_passes (h : FormedAll chain nodes) :
    (shadeAll nodes).2 = (shadeAll nodes).1.filterMap threshold := by
  induction nodes with
  | nil => rfl
  | cons node rest ih =>
    rw [shadeAll_cons, ih h.2.2, shade_passes h.1]
    cases hthreshold : node.shade.1.threshold with
    | none => rw [List.filterMap_cons_none hthreshold]; rfl
    | some value => rw [List.filterMap_cons_some hthreshold]; rfl

mutual

/-- A node with a scored leaf passes up a threshold. -/
theorem scored_shade : (node : TrieNode) → (∃ leaf ∈ node.leaves, leaf.2.2 ≠ none) →
    node.shade.2 ≠ none
  | .leaf _ _ _, h => by
    obtain ⟨leaf, hleaf, hscored⟩ := h
    rw [List.mem_singleton.mp hleaf] at hscored
    exact fun hnone => hscored (Option.map_eq_none_iff.mp hnone)
  | .branch _ _ _ children, h => by
    obtain ⟨leaf, hleaf, hscored⟩ := h
    obtain ⟨found, hfound, rfl⟩ := List.mem_map.mp hleaf
    rw [shade_branch_of_scored (scored_shadeAll children ⟨found, hfound, hscored⟩)]
    exact Option.some_ne_none _

/-- A scored leaf makes its threshold, or a mean it is part of, reach every node above. -/
theorem scored_shadeAll : (nodes : List TrieNode) → (∃ leaf ∈ leavesOf nodes, leaf.2.2 ≠ none) →
    (shadeAll nodes).2 ≠ []
  | [], h => by
    obtain ⟨leaf, hleaf, -⟩ := h
    cases hleaf
  | node :: rest, h => by
    obtain ⟨leaf, hleaf, hscored⟩ := h
    rw [shadeAll_cons]
    rcases List.mem_append.mp hleaf with hleaf | hleaf
    · obtain ⟨value, hvalue⟩ := Option.ne_none_iff_exists'.mp
        (scored_shade node ⟨leaf, hleaf, hscored⟩)
      rw [hvalue]
      exact List.cons_ne_nil _ _
    · exact List.append_ne_nil_of_right_ne_nil _ (scored_shadeAll rest ⟨leaf, hleaf, hscored⟩)

end

/-- With a scored leaf below it, the node carries the mean of its scored children: their
thresholds are added up in the order of the children and divided by their number. -/
def CarriesMean (node : TrieNode) : Prop :=
  (∃ leaf ∈ leavesOf node.children, leaf.2.2 ≠ none) →
    node.threshold = some (.average (node.children.filterMap threshold))

/-- A branch carries the mean of its scored children. -/
theorem shade_mean (pre token : String) (h : FormedAll chain nodes) :
    CarriesMean (branch pre token none nodes).shade.1 := by
  intro hscored
  rw [children_shade, leavesOf_shadeAll] at hscored
  have hsome := scored_shadeAll nodes hscored
  rw [children_shade, ← shadeAll_passes h, shade_branch_of_scored hsome]
  rfl

mutual

/-- A node and those below it. -/
def subnodes : TrieNode → List TrieNode
  | .leaf pre action threshold => [.leaf pre action threshold]
  | .branch pre token threshold children =>
    .branch pre token threshold children :: subnodesOf children

def subnodesOf : List TrieNode → List TrieNode
  | [] => []
  | node :: rest => node.subnodes ++ subnodesOf rest

end

theorem mem_subnodes_branch {pre token : String} {threshold : Option Floating}
    {children : List TrieNode} {node : TrieNode}
    (h : node ∈ (branch pre token threshold children).shade.1.subnodes) :
    node = (branch pre token threshold children).shade.1 ∨
      node ∈ subnodesOf (shadeAll children).1 := by
  by_cases hnil : (shadeAll children).2 = []
  · rw [shade_branch_of_nil hnil] at h ⊢
    exact List.mem_cons.mp h
  · rw [shade_branch_of_scored hnil] at h ⊢
    exact List.mem_cons.mp h

mutual

/-- Below a well-formed node every branch ends with the average of its children. -/
theorem Formed.carriesMean : {chain : List String} → {node : TrieNode} → Formed chain node →
    ∀ below ∈ node.shade.1.subnodes, CarriesMean below
  | _, .leaf pre action threshold, _ => by
    intro below hbelow hscored
    rw [List.mem_singleton.mp hbelow] at hscored
    obtain ⟨leaf, hleaf, -⟩ := hscored
    cases hleaf
  | chain, .branch pre token threshold children, h => by
    obtain ⟨-, rfl, -, -, hchildren⟩ := h
    intro below hbelow
    rcases mem_subnodes_branch hbelow with rfl | hbelow
    · exact shade_mean pre token hchildren
    · exact FormedAll.carriesMean hchildren below hbelow

theorem FormedAll.carriesMean : {chain : List String} → {nodes : List TrieNode} →
    FormedAll chain nodes → ∀ below ∈ subnodesOf (shadeAll nodes).1, CarriesMean below
  | _, [], _ => by
    intro below hbelow
    cases hbelow
  | _, node :: rest, h => by
    intro below hbelow
    rw [shadeAll_cons, subnodesOf] at hbelow
    rcases List.mem_append.mp hbelow with hbelow | hbelow
    · exact Formed.carriesMean h.1 below hbelow
    · exact FormedAll.carriesMean h.2.2 below hbelow

end

end TrieNode

end Symm.Ui
