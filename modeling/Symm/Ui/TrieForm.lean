import Mathlib.Data.List.Induction
import Symm.Ui.PathKeys

/-!
# The form of the trie

Grown over path keys, the trie is well formed: every node has the prefix of its place,
no two children of a node carry the same token or the same action, and every branch
leads to an action leaf.

- `FormedAll`: a well-formed list of children below a chain of tokens;
- `formed_grow`, `mem_leaves_grow`: what one key does to it;
- `grown_keys`: the trie of a list of keys, and its leaves;
- `routesOf`, `prefixesOf_eq`: the ways to the nodes, and their prefixes.

The functions of `Ui.Trie` go by lists of children, with the walk below as an argument,
so an induction over the tokens of a key meets an induction over the children at each
level. Each level has a lemma for its list, and the walk is put together of them.
-/

namespace Symm.Ui

open Symm.Lib

/-- The file of an action is no token, so a leaf and a branch never share a segment. -/
theorem Action.notToken {action : String} (h : Action action) : ¬ Token (file action.toUpper) := by
  intro htoken
  rw [h.file_toUpper] at htoken
  exact htoken.notFile (ends_append_bin action)

theorem Action.toUpper_inj {a b : String} (ha : Action a) (hb : Action b)
    (h : a.toUpper = b.toUpper) : a = b := by
  rw [← ha.toLower_toUpper, h, hb.toLower_toUpper]

/-- The files of two actions are apart. -/
theorem Action.file_inj {a b : String} (ha : Action a) (hb : Action b)
    (h : file a.toUpper = file b.toUpper) : a = b := by
  have ha' := ha.toLower_toUpper
  have hb' := hb.toLower_toUpper
  unfold file at h
  rw [ha', hb'] at h
  have hchars := congrArg String.toList h
  rw [String.toList_append, String.toList_append, List.append_cancel_right_eq] at hchars
  exact String.toList_inj.mp hchars

namespace TrieNode

/-- The segment that leads to the node. -/
def seg : TrieNode → String
  | .leaf _ action _ => file action
  | .branch _ token _ _ => token

mutual

/-- A node below a chain of tokens, before the thresholds are shared. -/
def Formed : List String → TrieNode → Prop
  | chain, .leaf pre action _ =>
    pre = join (chain ++ [file action]) ∧ chain ≠ [] ∧ ∃ a, Action a ∧ action = a.toUpper
  | chain, .branch pre token threshold children =>
    pre = join (chain ++ [token]) ∧ threshold = none ∧ Token token ∧ children ≠ [] ∧
      FormedAll (chain ++ [token]) children

/-- The children of a node, each with a segment of its own. -/
def FormedAll : List String → List TrieNode → Prop
  | _, [] => True
  | chain, node :: rest => Formed chain node ∧ node.seg ∉ rest.map seg ∧ FormedAll chain rest

end

/-- Children have segments of their own. -/
theorem FormedAll.nodup {chain : List String} {nodes : List TrieNode}
    (h : FormedAll chain nodes) : (nodes.map seg).Nodup := by
  induction nodes with
  | nil => exact List.nodup_nil
  | cons node rest ih => exact List.nodup_cons.mpr ⟨h.2.1, ih h.2.2⟩

theorem FormedAll.mem {chain : List String} {nodes : List TrieNode} (h : FormedAll chain nodes)
    {node : TrieNode} (hnode : node ∈ nodes) : Formed chain node := by
  induction nodes with
  | nil => cases hnode
  | cons first rest ih =>
    rcases List.mem_cons.mp hnode with rfl | hnode
    · exact h.1
    · exact ih h.2.2 hnode

theorem formedAll_iff {chain : List String} {nodes : List TrieNode} :
    FormedAll chain nodes ↔ (∀ node ∈ nodes, Formed chain node) ∧ (nodes.map seg).Nodup := by
  refine ⟨fun h => ⟨fun _ => h.mem, h.nodup⟩, ?_⟩
  rintro ⟨hall, hnodup⟩
  induction nodes with
  | nil => trivial
  | cons node rest ih =>
    obtain ⟨hnode, hrest⟩ := List.forall_mem_cons.mp hall
    obtain ⟨hout, hnodup⟩ := List.nodup_cons.mp hnodup
    exact ⟨hnode, hout, ih hrest hnodup⟩

/-! ## One key -/

theorem of_mem_segs_addAction {pre action s : String} {resolved : Option ℚ}
    {nodes : List TrieNode} (h : s ∈ (addAction pre action resolved nodes).map seg) :
    s = file action ∨ s ∈ nodes.map seg := by
  induction nodes with
  | nil => exact .inl (List.mem_singleton.mp h)
  | cons node rest ih =>
    have hrest : s ∈ (node :: addAction pre action resolved rest).map seg →
        s = file action ∨ s ∈ (node :: rest).map seg := by
      intro hmem
      rcases List.mem_cons.mp hmem with rfl | hmem
      · exact .inr List.mem_cons_self
      · exact (ih hmem).imp_right (List.mem_cons_of_mem _)
    cases node with
    | leaf pre' action' threshold =>
      dsimp only [addAction] at h
      split at h
      · exact .inr h
      · exact hrest h
    | branch pre' token threshold children => exact hrest h

theorem of_mem_segs_descend {pre token s : String} {below : List TrieNode → List TrieNode}
    {nodes : List TrieNode} (h : s ∈ (descend pre token below nodes).map seg) :
    s = token ∨ s ∈ nodes.map seg := by
  induction nodes with
  | nil => exact .inl (List.mem_singleton.mp h)
  | cons node rest ih =>
    have hrest : s ∈ (node :: descend pre token below rest).map seg →
        s = token ∨ s ∈ (node :: rest).map seg := by
      intro hmem
      rcases List.mem_cons.mp hmem with rfl | hmem
      · exact .inr List.mem_cons_self
      · exact (ih hmem).imp_right (List.mem_cons_of_mem _)
    cases node with
    | leaf pre' action threshold => exact hrest h
    | branch pre' token' threshold children =>
      dsimp only [descend] at h
      split at h
      · exact .inr h
      · exact hrest h

theorem addAction_ne_nil (pre action : String) (resolved : Option ℚ) (nodes : List TrieNode) :
    addAction pre action resolved nodes ≠ [] := by
  intro h
  cases nodes with
  | nil => cases h
  | cons node rest =>
    cases node with
    | leaf pre' action' threshold =>
      dsimp only [addAction] at h
      split at h <;> cases h
    | branch pre' token threshold children => cases h

theorem descend_ne_nil (pre token : String) (below : List TrieNode → List TrieNode)
    (nodes : List TrieNode) : descend pre token below nodes ≠ [] := by
  intro h
  cases nodes with
  | nil => cases h
  | cons node rest =>
    cases node with
    | leaf pre' action threshold => cases h
    | branch pre' token' threshold children =>
      dsimp only [descend] at h
      split at h <;> cases h

variable {chain : List String} {action : String} {resolved : Option ℚ} {nodes : List TrieNode}

/-- Adding an action keeps the children well formed. -/
theorem formed_addAction (hchain : chain ≠ []) (haction : Action action)
    (h : FormedAll chain nodes) :
    FormedAll chain (addAction (join chain) action.toUpper resolved nodes) := by
  induction nodes with
  | nil =>
    refine ⟨⟨?_, hchain, action, haction, rfl⟩, List.not_mem_nil, trivial⟩
    rw [join_concat hchain, file]
    simp only [String.append_assoc]
  | cons node rest ih =>
    obtain ⟨hnode, hout, hrest⟩ := h
    -- a node that is passed over keeps its segment apart from the file
    have hlater : node.seg ≠ file action.toUpper →
        FormedAll chain (node :: addAction (join chain) action.toUpper resolved rest) := by
      intro hne
      refine ⟨hnode, fun hmem => ?_, ih hrest⟩
      rcases of_mem_segs_addAction hmem with heq | hmem
      · exact hne heq
      · exact hout hmem
    cases node with
    | leaf pre' action' threshold =>
      dsimp only [addAction]
      split
      · exact ⟨hnode, hout, hrest⟩
      · next hne =>
        refine hlater fun heq => hne ?_
        obtain ⟨-, -, a, ha, rfl⟩ := hnode
        rw [ha.file_inj haction heq]
    -- no token reads as the file of an action
    | branch pre' token threshold children =>
      refine hlater fun heq => ?_
      have htoken : Token token := hnode.2.2.1
      have heq : token = file action.toUpper := heq
      exact haction.notToken (heq ▸ htoken)

/-- So does the walk below a token, if it does below. -/
theorem formed_descend {token : String} {below : List TrieNode → List TrieNode}
    (htoken : Token token)
    (hbelow : ∀ nodes, FormedAll (chain ++ [token]) nodes →
      FormedAll (chain ++ [token]) (below nodes) ∧ below nodes ≠ [])
    (h : FormedAll chain nodes) :
    FormedAll chain (descend (join (chain ++ [token])) token below nodes) := by
  induction nodes with
  | nil =>
    obtain ⟨hformed, hne⟩ := hbelow [] trivial
    exact ⟨⟨rfl, rfl, htoken, hne, hformed⟩, List.not_mem_nil, trivial⟩
  | cons node rest ih =>
    obtain ⟨hnode, hout, hrest⟩ := h
    -- a node that is passed over keeps its segment apart from the token
    have hlater : node.seg ≠ token →
        FormedAll chain (node :: descend (join (chain ++ [token])) token below rest) := by
      intro hne
      refine ⟨hnode, fun hmem => ?_, ih hrest⟩
      rcases of_mem_segs_descend hmem with heq | hmem
      · exact hne heq
      · exact hout hmem
    cases node with
    -- no file of an action reads as a token
    | leaf pre' action' threshold =>
      refine hlater fun heq => ?_
      obtain ⟨-, -, a, ha, rfl⟩ := hnode
      have heq : file a.toUpper = token := heq
      exact ha.notToken (heq ▸ htoken)
    | branch pre' token' threshold children =>
      dsimp only [descend]
      split
      -- the branch of the token: the walk goes on below it
      · next heq =>
        subst heq
        obtain ⟨hpre, hnone, -, -, hchildren⟩ := hnode
        obtain ⟨hformed, hne⟩ := hbelow children hchildren
        exact ⟨⟨hpre, hnone, htoken, hne, hformed⟩, hout, hrest⟩
      · next hne => exact hlater hne

/-- The prefix that the walk of a key goes on with. -/
theorem prefix_concat (hchain : ∀ token ∈ chain, Segment token) (token : String) :
    (if join chain = "" then token else join chain ++ "/" ++ token) = join (chain ++ [token]) := by
  cases chain with
  | nil =>
    rw [join_nil, if_pos rfl]
    exact (join_singleton token).symm
  | cons first rest =>
    have hne := List.cons_ne_nil first rest
    rw [if_neg (join_ne_empty hchain hne), join_concat hne]

theorem segment_concat {token : String} (hchain : ∀ token ∈ chain, Segment token)
    (htoken : Token token) : ∀ other ∈ chain ++ [token], Segment other := by
  intro other hother
  rcases List.mem_append.mp hother with hmem | hmem
  · exact hchain other hmem
  · rw [List.mem_singleton.mp hmem]
    exact htoken.toSegment

/-- The walk of a key keeps the form. -/
theorem formed_grow {tokens : List String} (hchain : ∀ token ∈ chain, Segment token)
    (htokens : ∀ token ∈ tokens, Token token) (haction : Action action)
    (hne : chain ++ tokens ≠ []) (h : FormedAll chain nodes) :
    FormedAll chain (grow (some action.toUpper) resolved (join chain) tokens nodes) ∧
      grow (some action.toUpper) resolved (join chain) tokens nodes ≠ [] := by
  induction tokens generalizing chain nodes with
  | nil =>
    rw [List.append_nil] at hne
    exact ⟨formed_addAction hne haction h, addAction_ne_nil _ _ _ _⟩
  | cons token tokens ih =>
    obtain ⟨htoken, htokens⟩ := List.forall_mem_cons.mp htokens
    dsimp only [grow]
    rw [prefix_concat hchain]
    refine ⟨formed_descend htoken (fun nodes hnodes => ?_) h, descend_ne_nil _ _ _ _⟩
    refine ih (segment_concat hchain htoken) htokens ?_ hnodes
    exact List.append_ne_nil_of_left_ne_nil (List.append_ne_nil_of_right_ne_nil chain
      (List.cons_ne_nil token [])) tokens

/-! ## The leaves of one key -/

/-- The leaf of these tokens and this action has the threshold already, if it is there. -/
def Agree (tokens : List String) (action : String) (resolved : Option ℚ)
    (nodes : List TrieNode) : Prop :=
  ∀ leaf ∈ leavesOf nodes, leaf.1 = tokens → leaf.2.1 = action → leaf.2.2 = resolved

theorem agree_cons {tokens : List String} {node : TrieNode} {rest : List TrieNode} :
    Agree tokens action resolved (node :: rest) ↔
      (∀ leaf ∈ node.leaves, leaf.1 = tokens → leaf.2.1 = action → leaf.2.2 = resolved) ∧
        Agree tokens action resolved rest := by
  unfold Agree
  rw [leavesOf_cons]
  exact List.forall_mem_append

/-- An action adds its leaf, once. -/
theorem mem_leaves_addAction (pre : String) (h : Agree [] action resolved nodes)
    {leaf : ActionLeaf} : leaf ∈ leavesOf (addAction pre action resolved nodes) ↔
      leaf = ([], action, resolved) ∨ leaf ∈ leavesOf nodes := by
  induction nodes with
  | nil => exact List.mem_cons
  | cons node rest ih =>
    obtain ⟨hnode, hrest⟩ := agree_cons.mp h
    have hlater : leaf ∈ leavesOf (node :: addAction pre action resolved rest) ↔
        leaf = ([], action, resolved) ∨ leaf ∈ leavesOf (node :: rest) := by
      rw [leavesOf_cons, leavesOf_cons, List.mem_append, List.mem_append, ih hrest]
      exact or_left_comm
    cases node with
    | leaf pre' action' threshold =>
      dsimp only [addAction]
      split
      · next heq =>
        subst heq
        obtain rfl : threshold = resolved := hnode _ List.mem_cons_self rfl rfl
        rw [Option.or_self]
        refine ⟨.inr, fun hleaf => hleaf.elim (fun heq => ?_) id⟩
        rw [heq]
        exact List.mem_cons_self
      · exact hlater
    | branch pre' token threshold children => exact hlater

/-- And the walk adds it below its tokens. -/
theorem mem_leaves_descend (pre token : String) {below : List TrieNode → List TrieNode}
    {tokens : List String}
    (hbelow : ∀ nodes, Agree tokens action resolved nodes → ∀ leaf : ActionLeaf,
      leaf ∈ leavesOf (below nodes) ↔ leaf = (tokens, action, resolved) ∨ leaf ∈ leavesOf nodes)
    (h : Agree (token :: tokens) action resolved nodes) {leaf : ActionLeaf} :
    leaf ∈ leavesOf (descend pre token below nodes) ↔
      leaf = (token :: tokens, action, resolved) ∨ leaf ∈ leavesOf nodes := by
  -- what comes in below a branch comes in with its token in front
  have hbranch : ∀ (pre' : String) (threshold : Option Floating) (children : List TrieNode),
      Agree tokens action resolved children →
      (leaf ∈ (branch pre' token threshold (below children)).leaves ↔
        leaf = (token :: tokens, action, resolved) ∨
          leaf ∈ (branch pre' token threshold children).leaves) := by
    intro pre' threshold children hchildren
    rw [leaves_branch, leaves_branch, List.mem_map, List.mem_map]
    constructor
    · rintro ⟨found, hfound, rfl⟩
      rcases (hbelow children hchildren found).mp hfound with rfl | hfound
      · exact .inl rfl
      · exact .inr ⟨found, hfound, rfl⟩
    · rintro (rfl | ⟨found, hfound, rfl⟩)
      · exact ⟨_, (hbelow children hchildren _).mpr (.inl rfl), rfl⟩
      · exact ⟨found, (hbelow children hchildren found).mpr (.inr hfound), rfl⟩
  induction nodes with
  | nil =>
    have hempty := hbranch pre none [] fun _ hmem => by cases hmem
    dsimp only [descend]
    rw [leavesOf_cons, leavesOf_nil, List.append_nil]
    exact hempty
  | cons node rest ih =>
    obtain ⟨hnode, hrest⟩ := agree_cons.mp h
    -- a node that is passed by keeps its leaves
    have hlater : leaf ∈ leavesOf (node :: descend pre token below rest) ↔
        leaf = (token :: tokens, action, resolved) ∨ leaf ∈ leavesOf (node :: rest) := by
      rw [leavesOf_cons, leavesOf_cons, List.mem_append, List.mem_append]
      exact (or_congr_right (ih hrest)).trans or_left_comm
    cases node with
    | leaf pre' action' threshold => exact hlater
    | branch pre' token' threshold children =>
      dsimp only [descend]
      split
      · next heq =>
        subst heq
        have hchildren : Agree tokens action resolved children := by
          intro found hfound htokens haction
          exact hnode (token' :: found.1, found.2) (List.mem_map.mpr ⟨found, hfound, rfl⟩)
            (congrArg _ htokens) haction
        rw [leavesOf_cons, leavesOf_cons, List.mem_append, List.mem_append,
          hbranch pre' threshold children hchildren]
        exact or_assoc
      · exact hlater

/-- The walk of a key adds its leaf to those that are there. -/
theorem mem_leaves_grow {tokens : List String} (pre : String)
    (h : Agree tokens action resolved nodes) (leaf : ActionLeaf) :
    leaf ∈ leavesOf (grow (some action) resolved pre tokens nodes) ↔
      leaf = (tokens, action, resolved) ∨ leaf ∈ leavesOf nodes := by
  induction tokens generalizing pre nodes leaf with
  | nil => exact mem_leaves_addAction pre h
  | cons token tokens ih => exact mem_leaves_descend _ token (fun _ hnodes => ih _ hnodes) h

/-! ## The trie of the keys -/

/-- The leaf of a key. -/
def leafOf (thresholds : String → Option ℚ) (key : PathKey) : ActionLeaf :=
  (key.tokens, key.action.toUpper, thresholds key.text)

/-- The place of a leaf tells its key. -/
theorem key_of_place {a b : PathKey} (htokens : a.tokens = b.tokens)
    (haction : a.action.toUpper = b.action.toUpper) : a = b := by
  have haction := a.isAction.toUpper_inj b.isAction haction
  cases a
  cases b
  cases htokens
  cases haction
  rfl

variable {thresholds : String → Option ℚ}

/-- The key of the store is walked token by token, without its ending. -/
theorem addKey_text (key : PathKey) :
    addKey thresholds nodes key.text =
      grow (some key.action.toUpper) (thresholds key.text) (join []) key.tokens nodes := by
  unfold addKey
  rw [key.decodeKey_text]
  exact if_neg key.tokens_ne

/-- What is grown over a list of keys. -/
theorem grown_keys (keys : List PathKey) :
    FormedAll [] ((keys.map PathKey.text).foldl (addKey thresholds) []) ∧
      ∀ leaf, leaf ∈ leavesOf ((keys.map PathKey.text).foldl (addKey thresholds) []) ↔
        ∃ key ∈ keys, leaf = leafOf thresholds key := by
  induction keys using List.reverseRecOn with
  | nil => exact ⟨trivial, fun leaf => by simp⟩
  | append_singleton keys key ih =>
    obtain ⟨hformed, hleaves⟩ := ih
    rw [List.map_append, List.foldl_append]
    generalize (keys.map PathKey.text).foldl (addKey thresholds) [] = nodes at hformed hleaves ⊢
    rw [List.map_singleton, List.foldl_cons, List.foldl_nil, addKey_text]
    -- a leaf that is there already has the threshold of its key
    have hagree : Agree key.tokens key.action.toUpper (thresholds key.text) nodes := by
      intro leaf hleaf htokens haction
      obtain ⟨other, -, rfl⟩ := (hleaves leaf).mp hleaf
      obtain rfl : other = key := key_of_place htokens haction
      rfl
    have hsegments : ∀ token ∈ ([] : List String), Segment token := fun _ hmem => by cases hmem
    refine ⟨(formed_grow hsegments key.isToken key.isAction key.tokens_ne hformed).1,
      fun leaf => ?_⟩
    rw [mem_leaves_grow _ hagree, hleaves]
    constructor
    · rintro (rfl | ⟨other, hother, rfl⟩)
      · exact ⟨key, List.mem_append_right _ List.mem_cons_self, rfl⟩
      · exact ⟨other, List.mem_append_left _ hother, rfl⟩
    · rintro ⟨other, hother, rfl⟩
      rcases List.mem_append.mp hother with hmem | hmem
      · exact .inr ⟨other, hmem, rfl⟩
      · rw [List.mem_singleton.mp hmem]
        exact .inl rfl

/-! ## The ways to the nodes -/

mutual

/-- The ways to a node and to those below it: the tokens on the way, and the file of the
action at a leaf. -/
def routes : TrieNode → List (List String)
  | .leaf _ action _ => [[file action]]
  | .branch _ token _ children => [token] :: (routesOf children).map (token :: ·)

def routesOf : List TrieNode → List (List String)
  | [] => []
  | node :: rest => node.routes ++ routesOf rest

end

mutual

/-- The prefixes of a node and of those below it, in the same order. -/
def prefixes : TrieNode → List String
  | .leaf pre _ _ => [pre]
  | .branch pre _ _ children => pre :: prefixesOf children

def prefixesOf : List TrieNode → List String
  | [] => []
  | node :: rest => node.prefixes ++ prefixesOf rest

end

/-- A way to a node or below it begins with the node's segment. -/
theorem head_routes {node : TrieNode} {route : List String} (h : route ∈ node.routes) :
    ∃ more, route = node.seg :: more := by
  cases node with
  | leaf pre action threshold =>
    rw [routes] at h
    exact ⟨[], List.mem_singleton.mp h⟩
  | branch pre token threshold children =>
    rw [routes] at h
    rcases List.mem_cons.mp h with rfl | h
    · exact ⟨[], rfl⟩
    · obtain ⟨more, -, rfl⟩ := List.mem_map.mp h
      exact ⟨more, rfl⟩

theorem head_routesOf {route : List String} (h : route ∈ routesOf nodes) :
    ∃ s ∈ nodes.map seg, ∃ more, route = s :: more := by
  induction nodes with
  | nil => cases h
  | cons node rest ih =>
    rw [routesOf] at h
    rcases List.mem_append.mp h with h | h
    · exact ⟨node.seg, List.mem_cons_self, head_routes h⟩
    · obtain ⟨s, hs, hroute⟩ := ih h
      exact ⟨s, List.mem_cons_of_mem _ hs, hroute⟩

theorem Formed.segment {node : TrieNode} (h : Formed chain node) : Segment node.seg := by
  cases node with
  | leaf pre action threshold =>
    obtain ⟨-, -, a, ha, rfl⟩ := h
    show Segment (file a.toUpper)
    rw [ha.file_toUpper]
    exact ha.segment
  | branch pre token threshold children => exact h.2.2.1.toSegment

mutual

/-- The prefix of a node joins the way to it. -/
theorem Formed.prefixes_eq : {chain : List String} → {node : TrieNode} → Formed chain node →
    node.prefixes = node.routes.map fun route => join (chain ++ route)
  | _, .leaf _ _ _, h => by
    rw [prefixes, routes, List.map_singleton, h.1]
  | chain, .branch pre token _ children, h => by
    have hchildren := FormedAll.prefixesOf_eq h.2.2.2.2
    rw [prefixes, routes, List.map_cons, hchildren, h.1, List.map_map]
    refine congrArg _ (List.map_congr_left fun route _ => ?_)
    show join (chain ++ [token] ++ route) = join (chain ++ token :: route)
    rw [List.append_assoc]
    rfl

/-- The prefix of a node spells the way to it. -/
theorem FormedAll.prefixesOf_eq : {chain : List String} → {nodes : List TrieNode} →
    FormedAll chain nodes →
    prefixesOf nodes = (routesOf nodes).map fun route => join (chain ++ route)
  | _, [], _ => rfl
  | _, node :: rest, h => by
    rw [prefixesOf, routesOf, List.map_append, Formed.prefixes_eq h.1,
      FormedAll.prefixesOf_eq h.2.2]

end

mutual

/-- No two nodes are reached in the same way. -/
theorem Formed.nodup_routes : {chain : List String} → {node : TrieNode} → Formed chain node →
    node.routes.Nodup
  | _, .leaf _ _ _, _ => by
    rw [routes]
    exact List.nodup_singleton _
  | chain, .branch pre token _ children, h => by
    have hchildren := FormedAll.nodup_routesOf h.2.2.2.2
    rw [routes]
    refine List.nodup_cons.mpr ⟨fun hmem => ?_, hchildren.map List.cons_injective⟩
    obtain ⟨route, hroute, heq⟩ := List.mem_map.mp hmem
    obtain ⟨s, -, more, rfl⟩ := head_routesOf hroute
    cases heq

/-- No two nodes are reached the same way. -/
theorem FormedAll.nodup_routesOf : {chain : List String} → {nodes : List TrieNode} →
    FormedAll chain nodes → (routesOf nodes).Nodup
  | _, [], _ => List.nodup_nil
  | _, node :: rest, h => by
    rw [routesOf]
    refine List.nodup_append.mpr ⟨Formed.nodup_routes h.1, FormedAll.nodup_routesOf h.2.2, ?_⟩
    rintro route hroute _ hrest rfl
    obtain ⟨more, rfl⟩ := head_routes hroute
    obtain ⟨s, hs, more', heq⟩ := head_routesOf hrest
    cases heq
    exact h.2.1 hs

end

mutual

theorem Formed.segments : {chain : List String} → {node : TrieNode} → Formed chain node →
    ∀ route ∈ node.routes, ∀ s ∈ route, Segment s
  | _, .leaf _ _ _, h => by
    intro route hroute s hs
    rw [routes] at hroute
    rw [List.mem_singleton.mp hroute] at hs
    rw [List.mem_singleton.mp hs]
    exact Formed.segment h
  | chain, .branch pre token _ children, h => by
    intro route hroute s hs
    rw [routes] at hroute
    rcases List.mem_cons.mp hroute with rfl | hroute
    · rw [List.mem_singleton.mp hs]
      exact h.2.2.1.toSegment
    · obtain ⟨below, hbelow, rfl⟩ := List.mem_map.mp hroute
      rcases List.mem_cons.mp hs with rfl | hs
      · exact h.2.2.1.toSegment
      · exact FormedAll.segments h.2.2.2.2 below hbelow s hs

theorem FormedAll.segments : {chain : List String} → {nodes : List TrieNode} →
    FormedAll chain nodes → ∀ route ∈ routesOf nodes, ∀ s ∈ route, Segment s
  | _, [], _ => by
    intro route hroute
    cases hroute
  | _, node :: rest, h => by
    intro route hroute
    rw [routesOf] at hroute
    rcases List.mem_append.mp hroute with hroute | hroute
    · exact Formed.segments h.1 route hroute
    · exact FormedAll.segments h.2.2 route hroute

end

/-- No two nodes of a trie have the same prefix. -/
theorem FormedAll.nodup_prefixesOf (h : FormedAll [] nodes) : (prefixesOf nodes).Nodup := by
  rw [h.prefixesOf_eq]
  refine h.nodup_routesOf.map_on fun a ha b hb heq => ?_
  exact join_inj (h.segments a ha) (h.segments b hb) heq

end TrieNode

end Symm.Ui
