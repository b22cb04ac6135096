import Symm.Strategy.Reload
import Symm.Ui.Trie

/-!
# The paths the dashboard shows (`ui/hub_prefix.go`, `strategy/tree.go`)

`Tree.persist` writes a leaf under `model/paths/<path>.json`, the hub appends the
action to the object's key, and the dashboard cuts the result into tokens. The
extension stays in the key, so that the last token of every path the dashboard
shows ends in `.json`.

- `pathsListing`: the keys and thresholds of `writePathsListing`;
- `shown_policy`: what the dashboard shows is the policy with that extension;
- `dashboard_shows_iff`: it shows the paths of the policy only if there are none.

`ShowsPolicy` is what the dashboard is for: one action leaf for each leaf of the policy,
with its resistance, at its path, under the cuts that the path extends. The key of a
leaf decodes to its path with `.json` on the last token, so the leaf is shown, one place
beside where it belongs: `shown_policy` is the same statement for the extended paths.

That the two statements never agree needs an argument, since extended paths could be the
paths of another leaf. The characters of all paths are counted: each extension adds five
of them, so a policy that is its own extension has no leaf (`weight_file`).
-/

namespace Symm.Ui

open Symm.Lib Symm.Strategy

universe u

variable {Raw : Type u}

/-- `pathBook`. -/
structure PathBook where
  action : String
  resistance : ℚ
  deriving DecidableEq

/-- `policyPathKey`. -/
def policyPathKey (storageKey action : String) : String :=
  if Ends ".bin" storageKey then storageKey
  else if action = "enter" ∨ action = "hold" ∨ action = "exit" then
    storageKey ++ "/" ++ action ++ ".bin"
  else storageKey

/-- `decodePathBook`: `unmarshal` is that of the stored bytes, and a missing object
has none. -/
def decodePathBook (unmarshal : Raw → Option PathBook) (raw : Option Raw) : Option PathBook :=
  (raw.bind unmarshal).filter fun book => book.action ≠ ""

/-- One key of `writePathsListing`. -/
def listPath (unmarshal : Raw → Option PathBook) (store : Objects Raw) (thresholds : Objects ℚ)
    (key : String) : Objects ℚ :=
  match decodePathBook unmarshal (store.lookup key) with
  | none => thresholds
  | some book =>
    if Floating.eightTenths < book.resistance then thresholds
    else thresholds.insert (policyPathKey key book.action) book.resistance

/-- The thresholds of `writePathsListing`. -/
def pathsListing (unmarshal : Raw → Option PathBook) (pre : String) (store : Objects Raw) :
    Objects ℚ :=
  (store.list pre).foldl (listPath unmarshal store) ∅

/-- The store after `Tree.persist` of every leaf. -/
def persistAll (codec : Codec Raw) (tree : Tree) : Objects Raw :=
  tree.root.foldl (fun store entry => persist codec entry.1 entry.2 store) ∅

/-- The leaf the dashboard should show. -/
def policyLeaf (entry : String × Leaf) : ActionLeaf :=
  (split entry.1, entry.2.action.toUpper, some entry.2.resistance)

/-- The key the dashboard gets for a leaf. -/
def leafKey (entry : String × Leaf) : String := policyPathKey (storeKey entry.1) entry.2.action

/-- A leaf the listing does not leave out, on a path whose tokens are no file names. -/
structure Listable (entry : String × Leaf) : Prop where
  path : entry.1 ≠ ""
  tokens : ∀ token ∈ split entry.1, ¬ Ends ".bin" token
  action : entry.2.action = "enter" ∨ entry.2.action = "hold" ∨ entry.2.action = "exit"
  resistance : entry.2.resistance ≤ Floating.eightTenths

/-- The trie of the listing, whatever order its keys come in, has one action leaf
for each leaf of the policy, and a key matches the cuts that its path extends. -/
def ShowsPolicy (listing : Objects ℚ) (tree : Tree) : Prop :=
  (∀ keys : List String, keys.Perm listing.keys →
    (actionLeaves (buildTreeFromPrefixes keys fun key => listing.lookup key)).Perm
      (tree.root.map policyLeaf)) ∧
  ∀ entry ∈ tree.root, ∀ cut : List String, cut ≠ [] →
    (keyMatchesPrefix (leafKey entry) cut ↔ cut <+: split entry.1)

/-! ## The key of one leaf -/

theorem not_ends_storeKey (path : String) : ¬ Ends ".bin" (storeKey path) := by
  have hjson : Ends ".json" (storeKey path) := by
    unfold Ends storeKey
    rw [String.toList_append]
    exact List.suffix_append _ _
  intro hbin
  have hsuffix : ".bin".toList <:+ ".json".toList :=
    List.suffix_of_suffix_length_le hbin hjson (by decide)
  exact absurd hsuffix (by decide)

/-- The key of a leaf is the key of its object and the file of its action. -/
theorem leafKey_eq {entry : String × Leaf} (h : Listable entry) :
    leafKey entry = storeKey entry.1 ++ "/" ++ (entry.2.action ++ ".bin") := by
  unfold leafKey policyPathKey
  rw [if_neg (not_ends_storeKey entry.1), if_pos h.action, String.append_assoc]

/-- A text is settled by its segments. -/
theorem split_inj {a b : String} (h : split a = split b) : a = b := by
  have hlist : a.toList.splitOn '/' = b.toList.splitOn '/' :=
    List.map_injective_iff.mpr (fun _ _ => String.ofList_inj.mp) h
  have hjoin := congrArg (['/'].intercalate) hlist
  rw [List.intercalate_splitOn, List.intercalate_splitOn] at hjoin
  exact String.toList_inj.mp hjoin

theorem split_append_slash (a b : String) : split (a ++ "/" ++ b) = split a ++ split b := by
  unfold split
  have hlist : (a ++ "/" ++ b).toList = a.toList ++ '/' :: b.toList := by
    rw [String.toList_append, String.toList_append, List.append_assoc]
    rfl
  rw [hlist, List.splitOn_append_cons_self, List.map_append]

theorem parts_append_slash (a b : String) : parts (a ++ "/" ++ b) = parts a ++ parts b := by
  unfold parts
  rw [split_append_slash, List.filter_append]

/-- The last part of a leaf's key names its action. -/
theorem split_action {entry : String × Leaf} (h : Listable entry) :
    split (entry.2.action ++ ".bin") = [entry.2.action ++ ".bin"] ∧
      parts (entry.2.action ++ ".bin") = [entry.2.action ++ ".bin"] ∧
      Ends ".bin" (entry.2.action ++ ".bin") := by
  rcases h.action with heq | heq | heq
  all_goals
    rw [heq]
    exact ⟨by decide, by decide, by decide⟩

/-- Two leaves with one key stand at one path. -/
theorem leafKey_inj {entry entry' : String × Leaf} (h : Listable entry) (h' : Listable entry')
    (heq : leafKey entry = leafKey entry') : entry.1 = entry'.1 := by
  have hsplit := congrArg (fun key => (split key).dropLast) heq
  rw [leafKey_eq h, leafKey_eq h', split_append_slash, split_append_slash, (split_action h).1,
    (split_action h').1, List.dropLast_concat, List.dropLast_concat] at hsplit
  exact storeKey_inj (split_inj hsplit)

/-- The key of a leaf decodes to the tokens of its path with the extension. -/
theorem keyTokens_leafKey {entry : String × Leaf} (h : Listable entry) :
    keyTokens (leafKey entry) = (parts (entry.1 ++ ".json"), some (entry.2.action ++ ".bin")) := by
  have hgrammar : grammarKey (leafKey entry) =
      "" ++ "/" ++ (entry.1 ++ ".json" ++ "/" ++ (entry.2.action ++ ".bin")) := by
    have hkey : leafKey entry = "model/paths" ++
        ("/" ++ (entry.1 ++ ".json" ++ "/" ++ (entry.2.action ++ ".bin"))) := by
      rw [leafKey_eq h]
      show "model/paths" ++ "/" ++ entry.1 ++ ".json" ++ "/" ++ _ = _
      simp only [String.append_assoc]
    rw [hkey]
    unfold grammarKey
    rw [if_pos (starts_append _ _), trimPrefix_append, String.empty_append]
  have hbin := (split_action h).2
  have hempty : parts "" = [] := by decide
  unfold keyTokens
  rw [hgrammar, parts_append_slash, parts_append_slash, hbin.1, hempty, List.nil_append]
  dsimp only
  rw [List.getLast?_concat, List.dropLast_concat]
  dsimp only
  rw [if_pos hbin.2]

/-- The dashboard reads the path with its ending, and the action, from the key. -/
theorem decodeKey_leafKey {entry : String × Leaf} (h : Listable entry) :
    decodeKey (leafKey entry) =
      (parts (entry.1 ++ ".json"), some entry.2.action.toUpper) := by
  unfold decodeKey
  rw [keyTokens_leafKey h]
  dsimp only
  rcases h.action with heq | heq | heq
  all_goals
    rw [heq]
    congr 1
    decide +kernel

/-! ## The listing -/

/-- Each leaf has an object of its own. -/
theorem entries_persistAll (codec : Codec Raw) (tree : Tree) :
    (persistAll codec tree).entries =
      (tree.root.map fun entry => ⟨storeKey entry.1, codec.marshal entry.2⟩).reverse := by
  have hnodup : (tree.root.map fun entry => storeKey entry.1).Nodup :=
    List.pairwise_map.mpr (tree.ascending.imp fun hlt heq => hlt.ne (storeKey_inj heq))
  have hfold := @Objects.entries_foldl_insert Raw _ (fun entry : String × Leaf => storeKey entry.1)
    (fun entry => codec.marshal entry.2) tree.root ∅ hnodup fun entry _ => AList.notMem_empty _
  rwa [AList.empty_entries, List.append_nil] at hfold

theorem list_persistAll (codec : Codec Raw) (tree : Tree) :
    (persistAll codec tree).list "model/paths" =
      tree.root.reverse.map fun entry => storeKey entry.1 := by
  have hkeys : (persistAll codec tree).keys = tree.root.reverse.map fun entry => storeKey entry.1 := by
    show (persistAll codec tree).entries.map Sigma.fst = _
    rw [entries_persistAll, ← List.map_reverse, List.map_map]
    rfl
  unfold Objects.list
  rw [hkeys, List.filter_eq_self]
  intro key hkey
  obtain ⟨entry, -, rfl⟩ := List.mem_map.mp hkey
  refine decide_eq_true ?_
  have hslash : seedPrefix = "model/paths" ++ "/" := rfl
  rw [storeKey_eq, hslash, String.append_assoc]
  exact starts_append _ _

/-- Every leaf is stored, under the key of its path. -/
theorem lookup_persistAll (codec : Codec Raw) {tree : Tree} {entry : String × Leaf}
    (h : entry ∈ tree.root) :
    (persistAll codec tree).lookup (storeKey entry.1) = some (codec.marshal entry.2) := by
  refine AList.mem_lookup_iff.mpr ?_
  rw [entries_persistAll, List.mem_reverse]
  exact List.mem_map.mpr ⟨entry, h, rfl⟩

variable {codec : Codec Raw} {unmarshal : Raw → Option PathBook}

/-- The listing of one leaf. -/
theorem listPath_leaf
    (hread : ∀ leaf, unmarshal (codec.marshal leaf) = some ⟨leaf.action, leaf.resistance⟩)
    {tree : Tree} {entry : String × Leaf} (hentry : entry ∈ tree.root) (h : Listable entry)
    (thresholds : Objects ℚ) :
    listPath unmarshal (persistAll codec tree) thresholds (storeKey entry.1) =
      thresholds.insert (leafKey entry) entry.2.resistance := by
  have haction : entry.2.action ≠ "" := by
    intro hempty
    rcases h.action with heq | heq | heq
    all_goals
      rw [heq] at hempty
      exact absurd hempty (by decide)
  have hbook : decodePathBook unmarshal ((persistAll codec tree).lookup (storeKey entry.1)) =
      some ⟨entry.2.action, entry.2.resistance⟩ := by
    rw [lookup_persistAll codec hentry]
    unfold decodePathBook
    rw [Option.bind_some, hread]
    exact Option.filter_some_pos (decide_eq_true haction)
  unfold listPath
  rw [hbook]
  exact if_neg (not_lt.mpr h.resistance)

/-- Each leaf is listed under its key, with its resistance. -/
theorem entries_pathsListing
    (hread : ∀ leaf, unmarshal (codec.marshal leaf) = some ⟨leaf.action, leaf.resistance⟩)
    {tree : Tree} (hleaves : ∀ entry ∈ tree.root, Listable entry) :
    (pathsListing unmarshal "model/paths" (persistAll codec tree)).entries =
      tree.root.map fun entry => ⟨leafKey entry, entry.2.resistance⟩ := by
  have hnodup : (tree.root.reverse.map leafKey).Nodup := by
    refine List.pairwise_map.mpr (List.pairwise_reverse.mpr ?_)
    refine tree.ascending.imp_of_mem fun ha hb hlt heq => ?_
    exact hlt.ne (leafKey_inj (hleaves _ hb) (hleaves _ ha) heq).symm
  have hfold := @Objects.entries_foldl_insert ℚ _ leafKey
    (fun entry => entry.2.resistance) tree.root.reverse ∅ hnodup fun entry _ => AList.notMem_empty _
  unfold pathsListing
  rw [list_persistAll, List.foldl_map]
  have hext : tree.root.reverse.foldl (fun thresholds entry =>
        listPath unmarshal (persistAll codec tree) thresholds (storeKey entry.1)) ∅ =
      tree.root.reverse.foldl (fun thresholds entry =>
        AList.insert (leafKey entry) entry.2.resistance thresholds) ∅ := by
    refine List.foldl_ext _ _ _ fun thresholds entry hentry => ?_
    have hmem := List.mem_reverse.mp hentry
    exact listPath_leaf hread hmem (hleaves entry hmem) thresholds
  rw [hext, hfold, AList.empty_entries, List.append_nil, ← List.map_reverse, List.reverse_reverse]

/-- The listing has one key for each leaf. -/
theorem keys_pathsListing
    (hread : ∀ leaf, unmarshal (codec.marshal leaf) = some ⟨leaf.action, leaf.resistance⟩)
    {tree : Tree} (hleaves : ∀ entry ∈ tree.root, Listable entry) :
    (pathsListing unmarshal "model/paths" (persistAll codec tree)).keys =
      tree.root.map leafKey := by
  show (pathsListing _ _ _).entries.map Sigma.fst = _
  rw [entries_pathsListing hread hleaves, List.map_map]
  rfl

/-! ## What the dashboard shows -/

/-- The tokens of a path are not empty. -/
def Proper (path : String) : Prop := ∀ token ∈ split path, token ≠ ""

theorem parts_of_proper {path : String} (h : Proper path) : parts path = split path :=
  List.filter_eq_self.mpr fun token htoken => decide_eq_true (h token htoken)

/-- The path with the extension of its object. -/
def fileLeaf (entry : String × Leaf) : ActionLeaf :=
  (split (entry.1 ++ ".json"), entry.2.action.toUpper, some entry.2.resistance)

theorem proper_file {path : String} (h : Proper path) : Proper (path ++ ".json") := by
  have hplain : '/' ∉ ".json".toList := by decide
  obtain ⟨front, last, hsplit, hfile⟩ := splitOn_append_of_not_mem path.toList hplain
  intro token htoken
  unfold Proper split at h
  unfold split at htoken
  rw [hsplit] at h
  rw [String.toList_append, hfile, List.map_append, List.mem_append] at htoken
  rcases htoken with hfront | hlast
  · refine h token ?_
    rw [List.map_append]
    exact List.mem_append_left _ hfront
  · rw [List.mem_singleton.mp hlast]
    intro hempty
    have hchars := congrArg String.toList hempty
    rw [String.toList_ofList] at hchars
    exact absurd (List.append_eq_nil_iff.mp hchars).2 (by decide)

variable {tree : Tree}

theorem lookup_pathsListing
    (hread : ∀ leaf, unmarshal (codec.marshal leaf) = some ⟨leaf.action, leaf.resistance⟩)
    (hleaves : ∀ entry ∈ tree.root, Listable entry) {entry : String × Leaf}
    (h : entry ∈ tree.root) :
    (pathsListing unmarshal "model/paths" (persistAll codec tree)).lookup (leafKey entry) =
      some entry.2.resistance := by
  refine AList.mem_lookup_iff.mpr ?_
  rw [entries_pathsListing hread hleaves]
  exact List.mem_map.mpr ⟨entry, h, rfl⟩

/-- So the dashboard shows the leaf at a path with the ending of the object. -/
theorem shown_leafKey {entry : String × Leaf} (h : Listable entry) (hproper : Proper entry.1)
    {thresholds : String → Option ℚ}
    (hthreshold : thresholds (leafKey entry) = some entry.2.resistance) :
    shown thresholds (leafKey entry) = some (fileLeaf entry) := by
  have hparts := parts_of_proper (proper_file hproper)
  have hne : split (entry.1 ++ ".json") ≠ [] := by
    unfold split
    rw [Ne, List.map_eq_nil_iff]
    exact List.splitOn_ne_nil '/' _
  unfold shown
  rw [decodeKey_leafKey h, hparts]
  dsimp only
  rw [if_neg hne, hthreshold]
  rfl

/-- The places of the leaves shown are apart. -/
theorem nodup_fileLeaf (tree : Tree) :
    ((tree.root.map fileLeaf).map fun leaf => (leaf.1, leaf.2.1)).Nodup := by
  rw [List.map_map]
  refine List.pairwise_map.mpr (tree.ascending.imp @fun a b hlt heq => ?_)
  have htokens : split (a.1 ++ ".json") = split (b.1 ++ ".json") := congrArg Prod.fst heq
  have hlist := congrArg String.toList (split_inj htokens)
  rw [String.toList_append, String.toList_append, List.append_cancel_right_eq,
    String.toList_inj] at hlist
  exact hlt.ne hlist

/-- The trie of the listing has these leaves and no others. -/
theorem perm_fileLeaf (hleaves : ∀ entry ∈ tree.root, Listable entry)
    (hproper : ∀ entry ∈ tree.root, Proper entry.1) {thresholds : String → Option ℚ}
    (hthresholds : ∀ entry ∈ tree.root, thresholds (leafKey entry) = some entry.2.resistance)
    {keys : List String} (hkeys : keys.Perm (tree.root.map leafKey)) :
    (actionLeaves (buildTreeFromPrefixes keys thresholds)).Perm (tree.root.map fileLeaf) := by
  have hleaf : ∀ entry ∈ tree.root, shown thresholds (leafKey entry) = some (fileLeaf entry) :=
    fun entry hentry => @shown_leafKey entry (hleaves entry hentry) (hproper entry hentry)
      thresholds (hthresholds entry hentry)
  have hshown : tree.root.filterMap (shown thresholds ∘ leafKey) =
      tree.root.filterMap (some ∘ fileLeaf) := by
    refine List.filterMap_congr fun entry hentry => ?_
    rw [Function.comp_apply, Function.comp_apply, hleaf entry hentry]
  have hall : (keys.filterMap (shown thresholds)).Perm (tree.root.map fileLeaf) := by
    have hmap := hkeys.filterMap (shown thresholds)
    rwa [List.filterMap_map, hshown, List.filterMap_eq_map] at hmap
  refine (perm_actionLeaves ?_).trans hall
  rw [(hall.map _).nodup_iff]
  exact nodup_fileLeaf tree

/-- The dashboard shows the policy with the extension of the objects on each path. -/
theorem shown_policy
    (hread : ∀ leaf, unmarshal (codec.marshal leaf) = some ⟨leaf.action, leaf.resistance⟩)
    (hleaves : ∀ entry ∈ tree.root, Listable entry)
    (hproper : ∀ entry ∈ tree.root, Proper entry.1) {keys : List String}
    (hkeys : keys.Perm (pathsListing unmarshal "model/paths" (persistAll codec tree)).keys) :
    (actionLeaves (buildTreeFromPrefixes keys fun key =>
      (pathsListing unmarshal "model/paths" (persistAll codec tree)).lookup key)).Perm
      (tree.root.map fileLeaf) := by
  rw [keys_pathsListing hread hleaves] at hkeys
  exact perm_fileLeaf hleaves hproper
    (fun _ hentry => lookup_pathsListing hread hleaves hentry) hkeys

/-- The characters of the tokens. -/
def weight (tokens : List String) : ℕ := (tokens.map fun token => token.toList.length).sum

theorem weight_split (text : String) :
    weight (split text) = (text.toList.filter (· ≠ '/')).length := by
  unfold weight split
  rw [List.map_map, ← sum_length_splitOn]
  congr 1
  refine List.map_congr_left fun token _ => ?_
  exact congrArg List.length (String.toList_ofList)

theorem weight_parts (text : String) : weight (parts text) = weight (split text) := by
  have hfilter : ∀ tokens : List String, weight (tokens.filter (· ≠ "")) = weight tokens := by
    intro tokens
    induction tokens with
    | nil => rfl
    | cons token rest ih =>
      have hcons : weight (token :: rest) = token.toList.length + weight rest := List.sum_cons
      by_cases hempty : token = ""
      · rw [List.filter_cons_of_neg (by simpa using hempty), ih, hcons, hempty]
        exact (Nat.zero_add _).symm
      · rw [List.filter_cons_of_pos (by simpa using hempty), hcons, ← ih]
        exact List.sum_cons
  exact hfilter (split text)

/-- The ending adds its five characters to the weight of a path. -/
theorem weight_file (path : String) : weight (parts (path ++ ".json")) = weight (split path) + 5 := by
  rw [weight_parts, weight_split, weight_split, String.toList_append, List.filter_append,
    List.length_append]
  rfl

/-- The dashboard shows the paths the policy holds exactly when it holds none. -/
theorem dashboard_shows_iff (codec : Codec Raw) (unmarshal : Raw → Option PathBook)
    (hread : ∀ leaf, unmarshal (codec.marshal leaf) = some ⟨leaf.action, leaf.resistance⟩)
    (tree : Tree) (hleaves : ∀ entry ∈ tree.root, Listable entry) :
    ShowsPolicy (pathsListing unmarshal "model/paths" (persistAll codec tree)) tree ↔
      tree.root = [] := by
  have hkeys := keys_pathsListing hread hleaves
  constructor
  · rintro ⟨hshow, -⟩
    have hperm := hshow _ (List.Perm.refl _)
    -- a leaf that is shown comes from the object of a lighter path
    have hnone : ∀ n, ∀ entry ∈ tree.root, weight (split entry.1) = n → False := by
      intro n
      induction n using Nat.strong_induction_on with
      | _ n ih =>
        intro entry hentry hweight
        have hmem := hperm.mem_iff.mpr (List.mem_map_of_mem hentry)
        obtain ⟨key, hkey, hdecode⟩ := of_mem_actionLeaves hmem
        rw [hkeys] at hkey
        obtain ⟨other, hother, rfl⟩ := List.mem_map.mp hkey
        rw [decodeKey_leafKey (hleaves other hother)] at hdecode
        have htokens : parts (other.1 ++ ".json") = split entry.1 := congrArg Prod.fst hdecode
        have hheavy := weight_file other.1
        rw [htokens, hweight] at hheavy
        exact ih (weight (split other.1)) (by omega) other hother rfl
    exact List.eq_nil_iff_forall_not_mem.mpr fun entry hentry => hnone _ entry hentry rfl
  · intro hempty
    rw [hempty, List.map_nil] at hkeys
    refine ⟨fun keys hperm => ?_, fun entry hentry => ?_⟩
    · rw [hkeys, List.perm_nil] at hperm
      rw [hperm, hempty]
      exact List.Perm.refl _
    · rw [hempty] at hentry
      cases hentry

/-! ## A policy of one leaf -/

/-- Decisions stored as they are. -/
def plainCodec : Codec Leaf := ⟨id, some, Stored.some_id⟩

/-- One enter leaf. -/
def samplePolicy : Tree := ⟨[("a/b", ⟨"enter", "a/b", 1 / 2⟩)], List.pairwise_singleton _ _⟩

theorem listable_samplePolicy : ∀ entry ∈ samplePolicy.root, Listable entry := by
  intro entry hentry
  obtain rfl := List.mem_singleton.mp hentry
  exact ⟨by decide, by decide +kernel, .inl rfl, by norm_num [Floating.eightTenths]⟩

/-- A policy without a leaf is shown, and this one is not. -/
theorem dashboard_shows_sample :
    ShowsPolicy (pathsListing (fun leaf => some ⟨leaf.action, leaf.resistance⟩) "model/paths"
        (persistAll plainCodec ⟨[], ascending_nil⟩)) ⟨[], ascending_nil⟩ ∧
      ¬ ShowsPolicy (pathsListing (fun leaf => some ⟨leaf.action, leaf.resistance⟩) "model/paths"
        (persistAll plainCodec samplePolicy)) samplePolicy := by
  constructor
  · exact (dashboard_shows_iff plainCodec (fun leaf => some ⟨leaf.action, leaf.resistance⟩)
      (fun _ => rfl) ⟨[], ascending_nil⟩ fun _ h => by cases h).mpr rfl
  · intro h
    exact List.cons_ne_nil _ _ ((dashboard_shows_iff plainCodec
      (fun leaf => some ⟨leaf.action, leaf.resistance⟩) (fun _ => rfl) samplePolicy
      listable_samplePolicy).mp h)

/-- The path `a/b` is shown as `a/b.json`, which the cut `a/b` does not match. -/
theorem samplePolicy_not_shown :
    ¬ ShowsPolicy (pathsListing (fun leaf => some ⟨leaf.action, leaf.resistance⟩) "model/paths"
      (persistAll plainCodec samplePolicy)) samplePolicy ∧
    leafKey ("a/b", ⟨"enter", "a/b", 1 / 2⟩) = "model/paths/a/b.json/enter.bin" ∧
    keyMatchesPrefix "model/paths/a/b.json/enter.bin" ["a", "b"] = false := by
  refine ⟨fun h => ?_, by decide +kernel, by decide +kernel⟩
  have hmatch := h.2 _ List.mem_cons_self ["a", "b"] (List.cons_ne_nil _ _)
  exact absurd hmatch (by decide +kernel)

end Symm.Ui
