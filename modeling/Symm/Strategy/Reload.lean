import Symm.Strategy.Stored

/-!
# Reading the stored policy back

While every operation is `Safe` the store mirrors the tree leaf by leaf, so
`NewTree` rebuilds it (`Mirrored.newTree_eq`). The first operation that is not
loses a leaf: a path that ends in `.bin` is read back under another one, and a
deleted path takes the objects of the leaves that continue it along.

- `Stored`, `Op`: a tree with its store, and what is done to them;
- `Mirrored`: a leaf is in the tree exactly if its object is in the store;
- `Safe`: the operation keeps the two together;
- `mirrored_next`: one operation, and by it every run of safe ones.

`Mirrored` also says that every path of the tree is read back as itself. Each operation
writes the tree and the store at the same places, but for a deletion, whose prefix may
reach the objects of other paths, and for a key that is read back under another one.
`Safe` excludes the two, operation by operation, in the state in which it is called.

It is exact: an operation that is not safe leaves a leaf that a restart does not find
(`not_agrees_next`), so a run agrees everywhere exactly if all of its operations are
safe.
-/

namespace Symm.Strategy

open Symm.System Symm.Lib

universe u

variable {Raw : Type u} {codec : Codec Raw}

/-! ## Keys -/

theorem storeKey_eq (path : String) : storeKey path = seedPrefix ++ (path ++ ".json") :=
  String.append_assoc

theorem starts_storeKey (path : String) : Starts seedPrefix (storeKey path) := by
  rw [storeKey_eq]
  exact starts_append seedPrefix _

/-- Paths are told apart by their keys. -/
theorem storeKey_inj {a b : String} (h : storeKey a = storeKey b) : a = b := by
  have hload := congrArg (fun key => trimSuffix (trimPrefix key seedPrefix) ".json") h
  rw [storeKey_eq, storeKey_eq] at hload
  simpa only [trimPrefix_append, trimSuffix_append] using hload

/-- The key of a leaf is read back as its path without a `.bin` at the end. -/
theorem loadPath_storeKey (path : String) :
    loadPath seedPrefix (storeKey path) = trimSuffix path ".bin" := by
  rw [storeKey_eq]
  unfold loadPath
  rw [trimPrefix_append, trimSuffix_append]

/-- Deleting a stored path reaches the keys of the paths it shadows. -/
theorem starts_seedPrefix_iff (path key : String) :
    Starts (seedPrefix ++ path) (storeKey key) ↔ Stored.Shadows path key := by
  rw [storeKey_eq]
  exact starts_append_left

/-! ## Loading -/

/-- A key that is read back as another path leaves the leaf of this one alone. -/
theorem get_load_of_ne {pre key path : String} {store : Objects Raw} (tree : Tree)
    (h : loadPath pre key ≠ path) : (load codec pre store tree key).get path = tree.get path := by
  unfold load
  split
  · rfl
  · dsimp only
    split
    · rfl
    · rw [Tree.get_put, if_neg h.symm]

/-- A path that no key is read back as has no leaf after a reload. -/
theorem get_newTree_of_ne {pre path : String} {store : Objects Raw}
    (h : ∀ key ∈ store.list pre, loadPath pre key ≠ path) :
    (newTree codec pre store).get path = none := by
  have hfold : ∀ (keys : List String) (tree : Tree), (∀ key ∈ keys, loadPath pre key ≠ path) →
      (keys.foldl (load codec pre store) tree).get path = tree.get path := by
    intro keys
    induction keys with
    | nil => exact fun tree _ => rfl
    | cons key rest ih =>
      intro tree hkeys
      rw [List.foldl_cons, ih _ fun k hk => hkeys k (List.mem_cons_of_mem key hk),
        get_load_of_ne tree (hkeys key List.mem_cons_self)]
  exact hfold _ _ h

/-- The key is one a leaf of a path that is read back unchanged was written under. -/
def Readable (codec : Codec Raw) (store : Objects Raw) (key : String) : Prop :=
  ∃ path leaf, key = storeKey path ∧ store.lookup key = some (codec.marshal leaf) ∧
    path ≠ "" ∧ ¬ Ends ".bin" path

/-- A readable key is read back as its own path, with its own leaf. -/
theorem load_of_readable {store : Objects Raw} {key : String} (h : Readable codec store key)
    (tree : Tree) : ∃ path leaf, key = storeKey path ∧
      (store.lookup key).bind codec.unmarshal = some leaf ∧
      load codec seedPrefix store tree key = tree.put path leaf := by
  obtain ⟨path, leaf, hkey, hlookup, hne, hbin⟩ := h
  have hread : (store.lookup key).bind codec.unmarshal = some leaf := by
    rw [hlookup, Option.bind_some, codec.unmarshal_marshal]
  have hpath : loadPath seedPrefix key = path := by
    rw [hkey, loadPath_storeKey, trimSuffix_of_not_ends hbin]
  refine ⟨path, leaf, hkey, hread, ?_⟩
  unfold load
  rw [hread]
  dsimp only
  rw [hpath, if_neg hne]

/-- From readable keys every path gets the leaf stored under its key. -/
theorem get_newTree {store : Objects Raw}
    (h : ∀ key ∈ store.list seedPrefix, Readable codec store key) (path : String) :
    (newTree codec seedPrefix store).get path =
      (store.lookup (storeKey path)).bind codec.unmarshal := by
  -- every key that is loaded puts the leaf of its own path
  have hfold : ∀ (keys : List String) (tree : Tree), (∀ key ∈ keys, Readable codec store key) →
      (keys.foldl (load codec seedPrefix store) tree).get path =
        if storeKey path ∈ keys then (store.lookup (storeKey path)).bind codec.unmarshal
        else tree.get path := by
    intro keys
    induction keys with
    | nil =>
      intro tree _
      rw [if_neg List.not_mem_nil]
      rfl
    | cons key rest ih =>
      intro tree hkeys
      obtain ⟨p, leaf, hkey, hread, hload⟩ :=
        load_of_readable (hkeys key List.mem_cons_self) tree
      rw [List.foldl_cons, ih _ fun k hk => hkeys k (List.mem_cons_of_mem key hk), hload,
        Tree.get_put]
      by_cases hp : path = p
      · have hhead : storeKey path = key := by rw [hkey, hp]
        have hmem : storeKey path ∈ key :: rest := by
          rw [hhead]
          exact List.mem_cons_self
        rw [if_pos hp, if_pos hmem, hhead, hread, ite_self]
      · have hhead : storeKey path ≠ key := fun heq => hp (storeKey_inj (heq.trans hkey))
        rw [if_neg hp]
        refine if_congr ?_ rfl rfl
        rw [List.mem_cons, or_iff_right hhead]
  unfold newTree
  rw [hfold _ _ h]
  split
  · rfl
  · rename_i hout
    have hnone : store.lookup (storeKey path) = none := by
      rw [← Option.not_isSome_iff_eq_none]
      exact fun hsome => hout (Objects.mem_list.mpr ⟨hsome, starts_storeKey path⟩)
    rw [hnone]
    rfl

namespace Stored

/-! ## The invariant -/

/-- The store holds the encoding of each leaf of the tree under the key of its path
and nothing else, and every path is read back unchanged. -/
structure Mirrored (codec : Codec Raw) (s : Stored Raw) : Prop where
  lookup : ∀ path, s.store.lookup (storeKey path) = (s.tree.get path).map codec.marshal
  keys : ∀ key, (s.store.lookup key).isSome → ∃ path, key = storeKey path
  clean : ∀ path, (s.tree.get path).isSome → path ≠ "" ∧ ¬ Ends ".bin" path

/-- An empty tree and an empty store agree. -/
theorem mirrored_empty : Mirrored codec (empty : Stored Raw) where
  lookup _ := rfl
  keys _ h := absurd h Bool.false_ne_true
  clean _ h := absurd h Bool.false_ne_true

/-- Every key of a store that mirrors a tree belongs to a leaf of the tree. -/
theorem Mirrored.leaf_of_key {s : Stored Raw} (h : Mirrored codec s) {key : String}
    (hkey : (s.store.lookup key).isSome) :
    ∃ path leaf, key = storeKey path ∧ s.tree.get path = some leaf := by
  obtain ⟨path, rfl⟩ := h.keys key hkey
  rw [h.lookup path, Option.isSome_map] at hkey
  obtain ⟨leaf, hleaf⟩ := Option.isSome_iff_exists.mp hkey
  exact ⟨path, leaf, rfl, hleaf⟩

/-- Where the store mirrors the tree, a reload gives the tree. -/
theorem Mirrored.newTree_eq {s : Stored Raw} (h : Mirrored codec s) :
    newTree codec seedPrefix s.store = s.tree := by
  refine Tree.ext_get fun path => ?_
  rw [get_newTree, h.lookup path]
  · cases s.tree.get path with
    | none => rfl
    | some leaf => exact codec.unmarshal_marshal leaf
  · intro key hkey
    obtain ⟨p, leaf, rfl, hleaf⟩ := h.leaf_of_key (Objects.mem_list.mp hkey).1
    refine ⟨p, leaf, rfl, ?_, h.clean p (by rw [hleaf]; rfl)⟩
    rw [h.lookup p, hleaf]
    rfl

/-- A mirror agrees with the tree on every path. -/
theorem Mirrored.agrees {s : Stored Raw} (h : Mirrored codec s) : Agrees codec s := by
  unfold Agrees
  rw [h.newTree_eq]

/-- A leaf that is not read back sets the two apart. -/
theorem not_agrees_of_lost {s : Stored Raw} (path : String) (hleaf : (s.tree.get path).isSome)
    (hlost : (newTree codec seedPrefix s.store).get path = none) : ¬ Agrees codec s := by
  intro hagrees
  obtain ⟨leaf, hget⟩ := Option.isSome_iff_exists.mp hleaf
  have hmem : (path, leaf.action, leaf.resistance) ∈
      (newTree codec seedPrefix s.store).decisions := by
    rw [hagrees]
    exact List.mem_map.mpr ⟨(path, leaf), Tree.get_eq_some.mp hget, rfl⟩
  obtain ⟨⟨p, l⟩, hroot, heq⟩ := List.mem_map.mp hmem
  obtain ⟨rfl, -⟩ := Prod.mk.inj heq
  rw [Tree.get_eq_some.mpr hroot] at hlost
  exact Option.some_ne_none l hlost

/-! ## Writing -/

/-- Writing one leaf to both keeps the store a mirror, if its path is read back. -/
theorem Mirrored.put {s : Stored Raw} (h : Mirrored codec s) {path : String} (hne : path ≠ "")
    (hbin : ¬ Ends ".bin" path) (leaf : Leaf) :
    Mirrored codec ⟨s.tree.put path leaf, persist codec path leaf s.store⟩ where
  lookup q := by
    show (s.store.insert (storeKey path) (codec.marshal leaf)).lookup (storeKey q) = _
    rw [Tree.get_put]
    by_cases hq : q = path
    · rw [if_pos hq, hq, AList.lookup_insert, Option.map_some]
    · rw [if_neg hq, AList.lookup_insert_ne fun heq => hq (storeKey_inj heq), h.lookup q]
  keys key hkey := by
    by_cases hk : key = storeKey path
    · exact ⟨path, hk⟩
    · refine h.keys key ?_
      have hold : (s.store.insert (storeKey path) (codec.marshal leaf)).lookup key =
          s.store.lookup key := AList.lookup_insert_ne hk
      rwa [← hold]
  clean q hq := by
    rw [Tree.get_put] at hq
    split at hq
    · rename_i heq
      rw [heq]
      exact ⟨hne, hbin⟩
    · exact h.clean q hq

/-- A path that ends in `.bin` is read back under another one. -/
theorem Mirrored.not_agrees_put {s : Stored Raw} (h : Mirrored codec s) {path : String}
    (hbin : Ends ".bin" path) (leaf : Leaf) :
    ¬ Agrees codec ⟨s.tree.put path leaf, persist codec path leaf s.store⟩ := by
  refine not_agrees_of_lost path ?_ (get_newTree_of_ne fun key hkey => ?_)
  · show ((s.tree.put path leaf).get path).isSome
    rw [Tree.get_put, if_pos rfl]
    rfl
  · have hsome : ((s.store.insert (storeKey path) (codec.marshal leaf)).lookup key).isSome :=
      (Objects.mem_list.mp hkey).1
    by_cases hk : key = storeKey path
    · rw [hk, loadPath_storeKey]
      exact trimSuffix_ne hbin (by decide)
    · rw [AList.lookup_insert_ne hk] at hsome
      obtain ⟨q, l, rfl, hl⟩ := h.leaf_of_key hsome
      have hclean := (h.clean q (by rw [hl]; rfl)).2
      rw [loadPath_storeKey, trimSuffix_of_not_ends hclean]
      rintro rfl
      exact hclean hbin

/-- Writing a list of leaves leaves every other key alone. -/
theorem lookup_foldl_persist_of_ne {change : String × Leaf → Leaf} {key : String}
    (entries : List (String × Leaf)) (store : Objects Raw)
    (h : ∀ entry ∈ entries, key ≠ storeKey entry.1) :
    (entries.foldl (fun store entry => persist codec entry.1 (change entry) store) store).lookup
      key = store.lookup key := by
  induction entries generalizing store with
  | nil => rfl
  | cons entry rest ih =>
    rw [List.foldl_cons, ih _ fun e he => h e (List.mem_cons_of_mem entry he)]
    exact AList.lookup_insert_ne (h entry List.mem_cons_self)

/-- The leaf written last under a path is the one of its entry. -/
theorem lookup_foldl_persist {change : String × Leaf → Leaf} {entries : List (String × Leaf)}
    (hasc : Ascending entries) (store : Objects Raw) (entry : String × Leaf)
    (h : entry ∈ entries) :
    (entries.foldl (fun store entry => persist codec entry.1 (change entry) store) store).lookup
      (storeKey entry.1) = some (codec.marshal (change entry)) := by
  induction entries generalizing store with
  | nil => exact absurd h List.not_mem_nil
  | cons head rest ih =>
    obtain ⟨hhead, hrest⟩ := List.pairwise_cons.mp hasc
    rw [List.foldl_cons]
    rcases List.mem_cons.mp h with rfl | hmem
    · rw [lookup_foldl_persist_of_ne]
      · exact AList.lookup_insert _
      · intro e he heq
        exact (hhead e he).ne (storeKey_inj heq)
    · exact ih hrest _ hmem

/-- `Update` writes every leaf it changes. -/
theorem Mirrored.update {s : Stored Raw} (h : Mirrored codec s) (learn : Learning)
    (path : String) (delta : ℚ) : Mirrored codec (s.update codec learn path delta) := by
  by_cases hguard : path = "" ∨ segments path < learn.minPathLength
  · unfold Stored.update
    rwa [if_pos hguard]
  · have hupdate : s.update codec learn path delta = _ := if_neg hguard
    have hget : ∀ q, (s.tree.update learn path delta).get q =
        (s.tree.get q).map (Tree.bump path delta q) := fun q => by
      rw [Tree.get_update, if_neg hguard]
    rw [hupdate]
    refine ⟨fun q => ?_, fun key hkey => ?_, fun q hq => ?_⟩
    · rw [hget q]
      dsimp only
      cases hq : s.tree.get q with
      | none =>
        rw [lookup_foldl_persist_of_ne, h.lookup q, hq]
        · rfl
        · intro e he heq
          have hmem : (q, e.2) ∈ s.tree.root := by
            rw [storeKey_inj heq]
            exact List.mem_of_mem_filter he
          rw [Tree.get_eq_some.mpr hmem] at hq
          exact Option.some_ne_none e.2 hq
      | some leaf =>
        have hroot := Tree.get_eq_some.mp hq
        rw [Option.map_some, Option.map_some]
        by_cases hunder : Tree.under path q
        · have hbump : Tree.bump path delta q leaf =
              { leaf with resistance := leaf.resistance + delta } := if_pos hunder
          rw [hbump]
          exact lookup_foldl_persist (s.tree.ascending.filter _) _ (q, leaf)
            (List.mem_filter.mpr ⟨hroot, hunder⟩)
        · have hbump : Tree.bump path delta q leaf = leaf := if_neg hunder
          rw [hbump, lookup_foldl_persist_of_ne, h.lookup q, hq, Option.map_some]
          intro e he heq
          exact hunder (storeKey_inj heq ▸ (List.mem_filter.mp he).2)
    -- a key in the store was written here, or was there before
    · by_cases hk : ∃ e ∈ s.tree.root.filter fun entry => Tree.under path entry.1,
          key = storeKey e.1
      · obtain ⟨e, -, hkey⟩ := hk
        exact ⟨e.1, hkey⟩
      · refine h.keys key ?_
        dsimp only at hkey
        rwa [lookup_foldl_persist_of_ne _ _ fun e he heq => hk ⟨e, he, heq⟩] at hkey
    · dsimp only at hq
      rw [hget q, Option.isSome_map] at hq
      exact h.clean q hq

/-! ## Removing -/

/-- Remove paths from the tree and from the store. -/
def remove (paths : List String) (s : Stored Raw) : Stored Raw where
  tree := s.tree.without paths
  store := paths.foldl (fun store path => store.deletePrefix (seedPrefix ++ path)) s.store

/-- Removing paths takes off the objects that they shadow. -/
theorem lookup_remove (paths : List String) (s : Stored Raw) (key : String) :
    (s.remove paths).store.lookup (storeKey key) =
      if ∃ path ∈ paths, Shadows path key then none else s.store.lookup (storeKey key) := by
  show (paths.foldl _ s.store).lookup (storeKey key) = _
  rw [Objects.lookup_foldl_deletePrefix]
  refine if_congr ?_ rfl rfl
  exact exists_congr fun path => and_congr_right fun _ => starts_seedPrefix_iff path key

/-- Removing never adds a key to the store. -/
theorem isSome_of_remove {paths : List String} {s : Stored Raw} {key : String}
    (h : ((s.remove paths).store.lookup key).isSome) : (s.store.lookup key).isSome := by
  have hlookup := Objects.lookup_foldl_deletePrefix (seedPrefix ++ ·) paths key s.store
  change ((paths.foldl (fun store path => store.deletePrefix (seedPrefix ++ path))
    s.store).lookup key).isSome at h
  rw [hlookup] at h
  split at h
  · exact absurd h Bool.false_ne_true
  · exact h

/-- The removed paths are all that goes, where none of them shadows a leaf that stays. -/
theorem Mirrored.remove {s : Stored Raw} (h : Mirrored codec s) {paths : List String}
    (hsafe : ∀ path ∈ paths, ∀ key, (s.tree.get key).isSome → key ∉ paths →
      ¬ Shadows path key) : Mirrored codec (s.remove paths) where
  lookup q := by
    rw [lookup_remove]
    show _ = ((s.tree.without paths).get q).map codec.marshal
    rw [Tree.get_without]
    by_cases hq : q ∈ paths
    -- a path that is removed takes its own object along
    · have hself : Shadows q q := starts_append q ".json"
      rw [if_pos hq, if_pos ⟨q, hq, hself⟩]
      rfl
    · rw [if_neg hq, h.lookup q]
      split
      · rename_i hshadow
        obtain ⟨path, hpath, hs⟩ := hshadow
        -- any other object that goes was the one of no leaf
        have hnone : s.tree.get q = none := by
          rw [← Option.not_isSome_iff_eq_none]
          exact fun hsome => hsafe path hpath q hsome hq hs
        rw [hnone]
        rfl
      · rfl
  keys key hkey := h.keys key (isSome_of_remove hkey)
  clean q hq := by
    change ((s.tree.without paths).get q).isSome at hq
    rw [Tree.get_without] at hq
    split at hq
    · exact absurd hq Bool.false_ne_true
    · exact h.clean q hq

/-- A leaf that stays and is shadowed by a removed path is lost to the store. -/
theorem Mirrored.not_agrees_remove {s : Stored Raw} (h : Mirrored codec s)
    {paths : List String} {path key : String} (hpath : path ∈ paths)
    (hkey : (s.tree.get key).isSome) (hstays : key ∉ paths) (hshadow : Shadows path key) :
    ¬ Agrees codec (s.remove paths) := by
  refine not_agrees_of_lost key ?_ (get_newTree_of_ne fun k hk => ?_)
  · show ((s.tree.without paths).get key).isSome
    rwa [Tree.get_without, if_neg hstays]
  · have hsome := (Objects.mem_list.mp hk).1
    obtain ⟨q, l, rfl, hl⟩ := h.leaf_of_key (isSome_of_remove hsome)
    rw [loadPath_storeKey, trimSuffix_of_not_ends (h.clean q (by rw [hl]; rfl)).2]
    rintro rfl
    rw [lookup_remove, if_pos ⟨path, hpath, hshadow⟩] at hsome
    exact Bool.false_ne_true hsome

/-- Of the tree and store `Predict` only removes what the walk prunes. -/
theorem predict_fst (learn : Learning) (tokens : Cut) (s : Stored Raw) :
    (s.predict learn tokens).1 =
      if tokens.len < learn.minPathLength then s
      else s.remove (s.tree.walk learn tokens).prunes := by
  have htree := Tree.predict_fst learn tokens s.tree
  unfold predict
  rcases hp : s.tree.predict learn tokens with ⟨tree, answer⟩
  rw [hp] at htree
  dsimp only at htree ⊢
  split
  · rfl
  · rename_i hlong
    rw [htree, if_neg hlong]
    rfl

/-! ## The operations -/

/-- A call that writes a leaf writes it to both. -/
theorem insert_eq (learn : Learning) (path : String) (leaf : Leaf) (s : Stored Raw) :
    s.insert codec learn path (some leaf) =
      if path = "" ∨ segments path < learn.minPathLength then s
      else ⟨s.tree.put path leaf, persist codec path leaf s.store⟩ := by
  show (if _ then s else _) = _
  split
  · rfl
  · rename_i hguard
    have hput : s.tree.insert learn path leaf = s.tree.put path leaf := if_neg hguard
    rw [hput]

/-- A path is written unless it is empty or too short. -/
theorem writes_iff {learn : Learning} {path : String} :
    Writes learn path ↔ ¬ (path = "" ∨ segments path < learn.minPathLength) := by
  unfold Writes
  rw [not_or, not_lt]

/-- What an insert of a leaf keeps and breaks. -/
theorem Mirrored.insert {s : Stored Raw} (h : Mirrored codec s) (learn : Learning)
    (path : String) (leaf : Leaf) :
    ((Writes learn path → ¬ Ends ".bin" path) →
      Mirrored codec (s.insert codec learn path (some leaf))) ∧
    (¬ (Writes learn path → ¬ Ends ".bin" path) →
      ¬ Agrees codec (s.insert codec learn path (some leaf))) := by
  rw [insert_eq, writes_iff]
  split
  · rename_i hguard
    exact ⟨fun _ => h, fun hbad => absurd (fun hw => absurd hguard hw) hbad⟩
  · rename_i hguard
    refine ⟨fun hsafe => h.put ?_ (hsafe hguard) leaf, fun hbad => h.not_agrees_put ?_ leaf⟩
    · exact fun hempty => hguard (.inl hempty)
    · rw [Classical.not_imp, not_not] at hbad
      exact hbad.2

/-- A safe operation keeps the store a mirror of the tree. -/
theorem mirrored_next (s : Stored Raw) (op : Op) (h : Mirrored codec s) (hsafe : Safe s op) :
    Mirrored codec (s.next codec op) := by
  cases op with
  | insert learn path decision =>
    cases decision with
    | none => exact h
    | some leaf => exact (h.insert learn path leaf).1 (hsafe rfl)
  -- only a new leaf is written, and that is an insert
  | ensure learn path action =>
    show Mirrored codec (s.ensure codec learn path action)
    unfold ensure
    split
    · exact h
    · rename_i hguard
      split
      · exact h
      · rename_i hnone
        have haction : action ≠ .none := fun heq => hguard (.inr (.inl heq))
        rw [Option.not_isSome_iff_eq_none] at hnone
        exact (h.insert learn path _).1 (hsafe haction hnone)
  | update learn path delta => exact h.update learn path delta
  | delete path =>
    refine h.remove fun p hp key hkey hout => ?_
    rw [List.mem_singleton] at hp hout
    rw [hp]
    exact hsafe key hkey hout
  -- what the walk prunes is deleted, path by path
  | predict learn tokens =>
    show Mirrored codec (s.predict learn tokens).1
    rw [predict_fst]
    split
    · exact h
    · rename_i hlong
      refine h.remove fun path hpath key hkey hout => ?_
      rw [Tree.mem_prunes_iff] at hpath hout
      exact hsafe (not_lt.mp hlong) path hpath key hkey hout

/-- Any other operation loses a leaf. -/
theorem not_agrees_next (s : Stored Raw) (op : Op) (h : Mirrored codec s)
    (hbad : ¬ Safe s op) : ¬ Agrees codec (s.next codec op) := by
  cases op with
  | insert learn path decision =>
    cases decision with
    | none => exact absurd (fun hsome => absurd hsome Bool.false_ne_true) hbad
    | some leaf => exact (h.insert learn path leaf).2 fun hw => hbad fun _ => hw
  | ensure learn path action =>
    -- unsafe: the seed is written, under a path that ends in `.bin`
    have hall : action ≠ .none ∧ s.tree.get path = none ∧ Writes learn path ∧
        Ends ".bin" path := by
      by_contra hnot
      exact hbad fun ha hn hw hb => hnot ⟨ha, hn, hw, hb⟩
    obtain ⟨haction, hnone, hwrites, hbin⟩ := hall
    have hguard := writes_iff.mp hwrites
    have hensure : s.ensure codec learn path action =
        s.insert codec learn path (some ⟨action.string, path, seedResistance⟩) := by
      unfold ensure
      rw [if_neg (by tauto), if_neg (by rw [hnone]; exact Bool.false_ne_true)]
    show ¬ Agrees codec (s.ensure codec learn path action)
    rw [hensure]
    exact (h.insert learn path _).2 fun hw => hw hwrites hbin
  | update learn path delta => exact absurd trivial hbad
  | delete path =>
    have hlost : ∃ key, (s.tree.get key).isSome ∧ key ≠ path ∧ Shadows path key := by
      by_contra hnot
      exact hbad fun key hkey hne hs => hnot ⟨key, hkey, hne, hs⟩
    -- the object of a leaf that stays is taken along
    obtain ⟨key, hkey, hne, hshadow⟩ := hlost
    exact h.not_agrees_remove List.mem_cons_self hkey
      (fun hmem => hne (List.mem_singleton.mp hmem)) hshadow
  | predict learn tokens =>
    have hlost : learn.minPathLength ≤ tokens.len ∧
        ∃ path, s.tree.Condemned learn tokens path ∧ ∃ key, (s.tree.get key).isSome ∧
          ¬ s.tree.Condemned learn tokens key ∧ Shadows path key := by
      by_contra hnot
      exact hbad fun hlen path hp key hkey hk hs =>
        hnot ⟨hlen, path, hp, key, hkey, hk, hs⟩
    obtain ⟨hlen, path, hpath, key, hkey, hstays, hshadow⟩ := hlost
    show ¬ Agrees codec (s.predict learn tokens).1
    rw [predict_fst, if_neg (not_lt.mpr hlen)]
    exact h.not_agrees_remove (Tree.mem_prunes_iff.mpr hpath) hkey
      (fun hmem => hstays (Tree.mem_prunes_iff.mp hmem)) hshadow

/-- Along every run from an empty tree and an empty store, the stored policy is the
policy in memory in every state exactly when every operation is safe where it is
made. -/
theorem agrees_everywhere_iff (codec : Codec Raw) (ops : List Op) :
    Everywhere (next codec) (Agrees codec) empty ops ↔
      Along (next codec) Safe (empty : Stored Raw) ops :=
  everywhere_iff_of_inv mirrored_next (fun _ h => h.agrees) not_agrees_next mirrored_empty ops

instance (s : Stored Raw) : Decidable (Agrees codec s) :=
  inferInstanceAs (Decidable ((newTree codec seedPrefix s.store).decisions = s.tree.decisions))

theorem some_id (leaf : Leaf) : some (id leaf) = some leaf := rfl

/-- Leaves stored as they are. -/
def leafCodec : Codec Leaf := ⟨id, some, some_id⟩

/-- Seven losses make a leaf heavy; then a deeper leaf is settled, and the next
prediction prunes the first one. -/
def prunedParent : List Op :=
  .ensure Cfg.defaults.learning "a/b" .enter ::
    List.replicate 7 (.update Cfg.defaults.learning "a/b" (1 / 20)) ++
    [.ensure Cfg.defaults.learning "a/b/c" .enter,
      .predict Cfg.defaults.learning ⟨"a/b", 2, .finite 1⟩]

/-- The deeper leaf stays in memory and is gone from the store. -/
theorem not_agrees_prunedParent :
    ¬ ∀ ops, Everywhere (next leafCodec) (Agrees leafCodec) empty ops := by
  intro h
  have hlast : Agrees leafCodec (runFrom (next leafCodec) empty prunedParent) :=
    (h prunedParent).last
  revert hlast
  decide +kernel

end Stored

end Symm.Strategy
