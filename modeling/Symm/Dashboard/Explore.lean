import Mathlib.Algebra.Order.Field.Rat
import Mathlib.Data.List.Induction
import Symm.Lib.CodeUnits
import Symm.Lib.Doubles
import Symm.Lib.Js
import Symm.Lib.Objects

/-!
# The explored paths of the dashboard (`hub/s3-prefix-compact.ts`, `collections/cognition.ts`)

A listing of the paths arrives in frames. Each is read into sorted keys and their
thresholds, without the keys above the prune threshold, and the store takes the union
with the keys that it shows.

- `pathsListingFromEnvelope`: what is read from the body of a frame;
- `ingestExploreListPrefix`: what the store makes of it;
- `Cognition.Low`: no recorded threshold of a path is above the prune threshold;
- `applyPathsEnvelope_frame`: one frame of the hub adds its keys, and overlays its
  thresholds.

A record is a list of its own members. The names of `Object.prototype`, which a lookup
finds as well, are left out, except that `__proto__` cannot be set.
-/

namespace Symm.Dashboard

open Symm.Lib

/-! ## Paths that are kept (`components/learning/explore-path.ts`) -/

/-- `EXPLORE_PRUNE_THRESHOLD`. -/
def explorePruneThreshold : ℚ := Floating.eightTenths

/-- `triePrefix`. -/
def triePrefix : String := "model/paths"

/-- `isPathBookKey`. -/
def isPathBookKey (key : String) : Bool := Starts "model/paths" key

/-- `exploreThresholdForKey`. -/
def exploreThresholdForKey (key : String) (thresholds : Objects ℚ) : Option ℚ :=
  if isPathBookKey key then thresholds.lookup key else none

/-- `explorePathKept`. -/
def explorePathKept (key : String) (thresholds : Objects ℚ) : Bool :=
  if isPathBookKey key then
    match exploreThresholdForKey key thresholds with
    | none => true
    | some threshold => threshold ≤ explorePruneThreshold
  else true

/-- `filterExploreKeys`. -/
def filterExploreKeys (keys : List String) (thresholds : Objects ℚ) : List String :=
  keys.filter fun key => explorePathKept key thresholds

/-! ## The body of a frame -/

/-- A member of a decoded document: a finite number, a text or something else. -/
inductive Loose
  | num (value : ℚ)
  | str (text : String)
  | other
  deriving DecidableEq

/-- The body of a `paths` envelope that is an object. -/
structure PathsBody where
  scope : Loose
  epoch : Loose
  /-- `Object.entries` of the member, where it is an object. -/
  thresholds : List (String × Loose)
  /-- The member, where it is an array. -/
  policy_keys : Option (List Loose)
  /-- The member, where it is an array. -/
  policyKeys : Option (List Loose)

/-- `S3ExploreCompact`. -/
structure ExploreCompact where
  scope : String
  epoch : Option String
  policyKeys : List String
  thresholds : Objects ℚ

/-- `asFiniteNumber`. -/
def asFiniteNumber : Loose → Option ℚ
  | .num value => some value
  | _ => none

/-- `typeof value === "string"`. -/
def asText : Loose → Option String
  | .str text => some text
  | _ => none

/-- `thresholds[key] = value`. -/
def setMember (thresholds : Objects ℚ) (key : String) (value : ℚ) : Objects ℚ :=
  if key = "__proto__" then thresholds else thresholds.insert key value

/-- The finite thresholds of a body. -/
def finiteThresholds (entries : List (String × Loose)) : Objects ℚ :=
  entries.foldl (fun thresholds entry =>
    (asFiniteNumber entry.2).elim thresholds (setMember thresholds entry.1)) ∅

/-- The thresholds of the keys that are kept. -/
def thresholdsOf (keys : List String) (thresholds : Objects ℚ) : Objects ℚ :=
  keys.foldl (fun kept key => (thresholds.lookup key).elim kept (setMember kept key)) ∅

/-- The keys that a body lists: `policy_keys`, or else `policyKeys`, or else those of its
thresholds. -/
def listedKeys (body : PathsBody) (thresholds : Objects ℚ) : List Loose :=
  (body.policy_keys <|> body.policyKeys).getD (thresholds.keys.map .str)

/-- `pathsListingFromEnvelope`; a payload that is no object has no body. -/
def pathsListingFromEnvelope (host : Host) (payload : Option PathsBody) : Option ExploreCompact :=
  payload.bind fun body =>
    let scope := (asText body.scope).getD ""
    if scope ≠ "model/paths" ∧ ¬ Starts "model/paths/" scope then none
    else
      let thresholds := finiteThresholds body.thresholds
      let policyKeys :=
        sortTexts (((listedKeys body thresholds).filterMap asText).filter (· ≠ ""))
      let keptKeys := filterExploreKeys policyKeys thresholds
      some
        { scope := "model/paths"
          epoch := match body.epoch with
            | .str text => if text = "" then none else some text
            | .num value => some (host.text (value.num.tdiv value.den))
            | .other => none
          policyKeys := keptKeys
          thresholds := thresholdsOf keptKeys thresholds }

/-! ## The store -/

/-- `CognitionState`, as far as listings reach. -/
structure Cognition where
  epoch : String
  policyKeys : List String
  thresholds : Objects ℚ

/-- The state that `cognitionStore` starts from. -/
def Cognition.initial : Cognition := ⟨"0", [], ∅⟩

/-- `sameThresholds`. -/
def sameThresholds (left right : Objects ℚ) : Bool :=
  left.keys.length = right.keys.length ∧
    ∀ key ∈ left.keys, left.lookup key = right.lookup key

/-- `ingestExploreListPrefix`. -/
def ingestExploreListPrefix (input : ExploreCompact) (state : Cognition) : Cognition :=
  if input.scope ≠ triePrefix then state
  else
    let nextEpoch := input.epoch.getD state.epoch
    let nextThresholds := input.thresholds ∪ state.thresholds
    let nextKeys := filterExploreKeys (sortSet (state.policyKeys ++ input.policyKeys))
      nextThresholds
    if nextEpoch = state.epoch ∧ state.policyKeys = nextKeys ∧
        sameThresholds state.thresholds nextThresholds then state
    else ⟨nextEpoch, nextKeys, nextThresholds⟩

/-- `applyPathsEnvelope`, as it changes the store. -/
def applyPathsEnvelope (host : Host) (payload : Option PathsBody) (state : Cognition) :
    Cognition :=
  match pathsListingFromEnvelope host payload with
  | none => state
  | some compact => ingestExploreListPrefix compact state

/-- The effect of `CognitiveTree` clears the paths before it asks for them again
(`components/learning/cognitive-tree.tsx`). -/
def Cognition.clearPaths (state : Cognition) : Cognition :=
  { state with policyKeys := state.policyKeys.filter fun key => ¬ Starts "model/paths" key }

/-! ## What is recorded -/

/-- No path has a threshold above the prune threshold. -/
def Low (thresholds : Objects ℚ) : Prop :=
  ∀ key value, thresholds.lookup key = some value → isPathBookKey key →
    value ≤ explorePruneThreshold

/-- Where every threshold is low, every path is kept. -/
theorem explorePathKept_of_low {thresholds : Objects ℚ} (h : Low thresholds) (key : String) :
    explorePathKept key thresholds = true := by
  unfold explorePathKept
  split
  · rename_i hbook
    unfold exploreThresholdForKey
    rw [if_pos hbook]
    cases hvalue : thresholds.lookup key with
    | none => rfl
    | some value => exact decide_eq_true (h key value hvalue hbook)
  · rfl

/-- Where no path is above the threshold, the filter keeps every key. -/
theorem filterExploreKeys_of_low {thresholds : Objects ℚ} (h : Low thresholds)
    (keys : List String) : filterExploreKeys keys thresholds = keys :=
  List.filter_eq_self.mpr fun key _ => explorePathKept_of_low h key

/-- Setting a member is an insertion, but for the one name that JavaScript sets otherwise.
-/
theorem lookup_setMember {thresholds : Objects ℚ} {key : String} (hkey : key ≠ "__proto__")
    (value : ℚ) (other : String) :
    (setMember thresholds key value).lookup other =
      if other = key then some value else thresholds.lookup other := by
  unfold setMember
  rw [if_neg hkey]
  split
  · rename_i heq
    rw [heq]
    exact AList.lookup_insert thresholds
  · rename_i hne
    exact AList.lookup_insert_ne hne

/-- The thresholds of keys are the recorded ones. -/
theorem lookup_thresholdsOf {thresholds : Objects ℚ} {key : String} :
    ∀ {keys : List String}, "__proto__" ∉ keys →
      (thresholdsOf keys thresholds).lookup key =
        if key ∈ keys then thresholds.lookup key else none := by
  intro keys
  -- the last key of the list is set last
  induction keys using List.reverseRecOn with
  | nil => exact fun _ => (if_neg List.not_mem_nil).symm
  | append_singleton keys last ih =>
    intro hproto
    have hlast : last ≠ "__proto__" := by
      rintro rfl
      exact hproto (List.mem_append_right _ List.mem_cons_self)
    have hrest := ih fun hmem => hproto (List.mem_append_left _ hmem)
    unfold thresholdsOf at hrest ⊢
    rw [List.foldl_append, List.foldl_cons, List.foldl_nil]
    cases hvalue : thresholds.lookup last with
    | none =>
      rw [Option.elim_none, hrest]
      by_cases hkey : key = last
      · rw [hkey, hvalue, ite_self, ite_self]
      · refine if_congr ?_ rfl rfl
        rw [List.mem_append, List.mem_singleton]
        exact (or_iff_left hkey).symm
    | some value =>
      rw [Option.elim_some, lookup_setMember hlast, hrest]
      by_cases hkey : key = last
      · have hmem : key ∈ keys ++ [last] := by
          rw [hkey]
          exact List.mem_append_right _ List.mem_cons_self
        rw [if_pos hkey, if_pos hmem, hkey, hvalue]
      · rw [if_neg hkey]
        refine if_congr ?_ rfl rfl
        rw [List.mem_append, List.mem_singleton]
        exact (or_iff_left hkey).symm

/-- Records that compare alike have the same members. -/
theorem lookup_of_same {left right : Objects ℚ} (h : sameThresholds left right) (key : String) :
    left.lookup key = right.lookup key := by
  obtain ⟨hlength, hkeys⟩ := of_decide_eq_true h
  by_cases hkey : key ∈ left
  · exact hkeys key (AList.mem_keys.mp hkey)
  · have hsub : left.keys ⊆ right.keys := by
      intro other hother
      rw [← AList.mem_keys, ← AList.lookup_isSome, ← hkeys other hother, AList.lookup_isSome]
      exact AList.mem_keys.mpr hother
    have hperm : left.keys.Perm right.keys :=
      (List.subperm_of_subset left.keys_nodup hsub).perm_of_length_le hlength.ge
    have hkey' : key ∉ right := fun hmem =>
      hkey (AList.mem_keys.mpr (hperm.mem_iff.mpr (AList.mem_keys.mp hmem)))
    rw [AList.lookup_eq_none.mpr hkey, AList.lookup_eq_none.mpr hkey']

/-- The overlay has the members of the record that is laid on top, and the others. -/
theorem lookup_overlay (top below : Objects ℚ) (key : String) :
    (top ∪ below).lookup key = (top.lookup key).or (below.lookup key) := by
  by_cases hkey : key ∈ top
  · obtain ⟨value, hvalue⟩ := Option.isSome_iff_exists.mp (AList.lookup_isSome.mpr hkey)
    rw [AList.lookup_union_left hkey, hvalue]
    rfl
  · rw [AList.lookup_union_right hkey, AList.lookup_eq_none.mpr hkey]
    rfl

/-- Laying low thresholds over low ones leaves them low. -/
theorem Low.overlay {top below : Objects ℚ} (htop : Low top) (hbelow : Low below) :
    Low (top ∪ below) := by
  intro key value hvalue hbook
  rw [lookup_overlay] at hvalue
  rcases Option.or_eq_some_iff.mp hvalue with hvalue | ⟨-, hvalue⟩
  · exact htop key value hvalue hbook
  · exact hbelow key value hvalue hbook

/-! ## One frame of the hub -/

/-- The body of a frame of the hub with these thresholds. -/
def frameBody (chunk : Objects ℚ) : PathsBody where
  scope := .str "model/paths"
  epoch := .other
  thresholds := chunk.entries.map fun entry => (entry.1, .num entry.2)
  policy_keys := none
  policyKeys := none

/-- The keys of a frame are paths that are kept. -/
def Listed (chunk : Objects ℚ) : Prop :=
  ∀ key value, chunk.lookup key = some value → isPathBookKey key ∧ value ≤ explorePruneThreshold

/-- What a listing has are keys of paths. -/
theorem Listed.path {chunk : Objects ℚ} (h : Listed chunk) {key : String} (hkey : key ∈ chunk) :
    isPathBookKey key := by
  obtain ⟨value, hvalue⟩ := Option.isSome_iff_exists.mp (AList.lookup_isSome.mpr hkey)
  exact (h key value hvalue).1

theorem Listed.low {chunk : Objects ℚ} (h : Listed chunk) : Low chunk :=
  fun key value hvalue _ => (h key value hvalue).2

/-- No such key is a name that JavaScript treats in a way of its own. -/
theorem ne_proto {key : String} (h : isPathBookKey key) : key ≠ "__proto__" ∧ key ≠ "" := by
  refine ⟨?_, ?_⟩
  all_goals
    rintro rfl
    exact absurd h (by decide)

/-- Members that are set one after the other. -/
theorem entries_foldl_setMember :
    ∀ {entries : List (Sigma fun _ : String => ℚ)} {thresholds : Objects ℚ},
      (∀ entry ∈ entries, entry.1 ≠ "__proto__") → (entries.map Sigma.fst).Nodup →
      (∀ entry ∈ entries, entry.1 ∉ thresholds) →
      (entries.foldl (fun thresholds entry => setMember thresholds entry.1 entry.2)
        thresholds).entries = entries.reverse ++ thresholds.entries
  | [], _, _, _, _ => rfl
  | entry :: rest, thresholds, hproto, hnodup, hfresh => by
    have hset : setMember thresholds entry.1 entry.2 = thresholds.insert entry.1 entry.2 :=
      if_neg (hproto entry List.mem_cons_self)
    obtain ⟨hentry, hrest⟩ := List.nodup_cons.mp hnodup
    rw [List.foldl_cons, hset, entries_foldl_setMember
      (fun e he => hproto e (List.mem_cons_of_mem _ he)) hrest,
      AList.entries_insert_of_notMem (hfresh entry List.mem_cons_self), List.reverse_cons,
      List.append_assoc, List.singleton_append]
    intro e he hmem
    rcases (AList.mem_insert thresholds).mp hmem with heq | hmem
    · exact hentry (heq ▸ List.mem_map_of_mem he)
    · exact hfresh e (List.mem_cons_of_mem _ he) hmem

/-- The thresholds of a frame are read as they were sent. -/
theorem entries_frameBody {chunk : Objects ℚ} (h : Listed chunk) :
    (finiteThresholds (frameBody chunk).thresholds).entries = chunk.entries.reverse := by
  have hfold := @entries_foldl_setMember chunk.entries ∅
    (fun entry hentry => (ne_proto (h.path (AList.mem_keys.mpr (List.mem_map_of_mem hentry)))).1)
    chunk.nodupKeys fun entry _ => AList.notMem_empty _
  unfold finiteThresholds frameBody
  rw [List.foldl_map]
  exact hfold.trans (List.append_nil _)

/-- The body of a frame has the thresholds of its chunk. -/
theorem lookup_frameBody {chunk : Objects ℚ} (h : Listed chunk) (key : String) :
    (finiteThresholds (frameBody chunk).thresholds).lookup key = chunk.lookup key := by
  refine AList.perm_lookup ?_
  rw [entries_frameBody h]
  exact List.reverse_perm _

/-- What is read from a frame of the hub. -/
theorem pathsListingFromEnvelope_frame (host : Host) {chunk : Objects ℚ} (h : Listed chunk) :
    ∃ thresholds : Objects ℚ, (∀ key, thresholds.lookup key = chunk.lookup key) ∧
      pathsListingFromEnvelope host (some (frameBody chunk)) =
        some ⟨"model/paths", none, sortTexts chunk.keys, thresholds⟩ := by
  have hlookup := lookup_frameBody h
  have hkeys : (finiteThresholds (frameBody chunk).thresholds).keys = chunk.keys.reverse := by
    show (finiteThresholds (frameBody chunk).thresholds).entries.map Sigma.fst = _
    rw [entries_frameBody h, List.map_reverse]
    rfl
  have hlow : Low (finiteThresholds (frameBody chunk).thresholds) := by
    intro key value hvalue hbook
    rw [hlookup] at hvalue
    exact h.low key value hvalue hbook
  have hpath : ∀ key ∈ chunk.keys, isPathBookKey key := fun key hkey =>
    h.path (AList.mem_keys.mpr hkey)
  -- the frame has no list of keys, so those of the thresholds are listed
  have hlisted : sortTexts (((listedKeys (frameBody chunk)
      (finiteThresholds (frameBody chunk).thresholds)).filterMap asText).filter (· ≠ "")) =
      sortTexts chunk.keys := by
    have htexts : ∀ keys : List String, (keys.map Loose.str).filterMap asText = keys := by
      intro keys
      rw [List.filterMap_map]
      exact List.filterMap_some
    have hall : (listedKeys (frameBody chunk) (finiteThresholds (frameBody chunk).thresholds)) =
        chunk.keys.reverse.map Loose.str := by
      show (finiteThresholds (frameBody chunk).thresholds).keys.map Loose.str = _
      rw [hkeys]
    rw [hall, htexts]
    refine (congrArg sortTexts (List.filter_eq_self.mpr fun key hkey => ?_)).trans
      (sortTexts_perm (List.reverse_perm _))
    exact decide_eq_true (ne_proto (hpath key (List.mem_reverse.mp hkey))).2
  have hscope : ¬ ("model/paths" ≠ "model/paths" ∧ ¬ Starts "model/paths/" "model/paths") :=
    fun hne => hne.1 rfl
  refine ⟨thresholdsOf (sortTexts chunk.keys)
    (finiteThresholds (frameBody chunk).thresholds), fun key => ?_, ?_⟩
  · have hproto : "__proto__" ∉ sortTexts chunk.keys := fun hmem =>
      (ne_proto (hpath _ (mem_sortTexts.mp hmem))).1 rfl
    rw [lookup_thresholdsOf hproto, hlookup]
    by_cases hkey : key ∈ chunk
    · exact if_pos (mem_sortTexts.mpr (AList.mem_keys.mp hkey))
    · rw [AList.lookup_eq_none.mpr hkey, ite_self]
  · unfold pathsListingFromEnvelope
    rw [Option.bind_some]
    dsimp only
    show (if "model/paths" ≠ "model/paths" ∧ ¬ Starts "model/paths/" "model/paths" then none
      else _) = _
    rw [if_neg hscope, hlisted, filterExploreKeys_of_low hlow]
    rfl

/-- A frame of the hub adds its keys, and its thresholds are laid over the recorded
ones. -/
theorem applyPathsEnvelope_frame (host : Host) {chunk : Objects ℚ} (h : Listed chunk)
    {state : Cognition} (hlow : Low state.thresholds) :
    (applyPathsEnvelope host (some (frameBody chunk)) state).policyKeys =
        sortSet (state.policyKeys ++ chunk.keys) ∧
      ∀ key, (applyPathsEnvelope host (some (frameBody chunk)) state).thresholds.lookup key =
        (chunk.lookup key).or (state.thresholds.lookup key) := by
  obtain ⟨thresholds, hlookup, hread⟩ := pathsListingFromEnvelope_frame host h
  have hthresholds : Low thresholds := by
    intro key value hvalue hbook
    rw [hlookup] at hvalue
    exact h.low key value hvalue hbook
  -- no key is pruned: neither the new thresholds nor the old ones are above the bound
  have hkept := filterExploreKeys_of_low (hthresholds.overlay hlow)
    (sortSet (state.policyKeys ++ sortTexts chunk.keys))
  have hunion : sortSet (state.policyKeys ++ sortTexts chunk.keys) =
      sortSet (state.policyKeys ++ chunk.keys) := by
    refine sortSet_congr fun text => ?_
    rw [List.mem_append, List.mem_append, mem_sortTexts]
  have hover : ∀ key, (thresholds ∪ state.thresholds).lookup key =
      (chunk.lookup key).or (state.thresholds.lookup key) := by
    intro key
    rw [lookup_overlay, hlookup]
  unfold applyPathsEnvelope
  rw [hread]
  dsimp only
  unfold ingestExploreListPrefix
  rw [if_neg (fun hne : "model/paths" ≠ triePrefix => hne rfl)]
  dsimp only
  rw [hkept, hunion]
  split
  -- where nothing changed the old state is returned, which then reads the same
  · rename_i hsame
    refine ⟨hsame.2.1, fun key => ?_⟩
    rw [← hover]
    exact lookup_of_same hsame.2.2 key
  · exact ⟨rfl, hover⟩

end Symm.Dashboard
