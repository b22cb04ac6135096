import Symm.Dashboard.Explore
import Symm.Lib.Machine
import Symm.Ui.PathChunks
import Symm.Ui.PathsListing

/-!
# The paths between the hub and the dashboard (`ui/hub.go`, `collections/cognition.ts`)

The dashboard asks for the paths with an `s3` command, when its tree is mounted, which
clears the keys it shows, and when it goes online, which does not. The hub answers each
command with the frames of a listing of its store. Frames arrive in the order they were
sent, while the store goes on changing; commands and frames can get lost.

- `Feed`, `step`: the hub's store, what is on its way, and the dashboard's store;
- `Kept`: what is on its way and what is shown comes from listings;
- `shown_was_listed`: along every run, every key shown was a leaf of a store that the hub
  listed, with the threshold it had there;
- `mount_refreshes`: what is shown once everything asked for has arrived.

`Since` is the account of a lossless run from a given state on: the orders and stores of
the listings that were served, the chunks that have arrived, and what is still on its
way. What is shown is then a function of the account, and the two theorems are read off
it.
-/

namespace Symm.Ui.PathFeed

open Symm.Lib Symm.Dashboard

universe u

/-- The two ends and what is on its way between them; `served` are the stores that the
hub listed, the last one at the end. -/
structure Feed (Raw : Type u) where
  store : Objects Raw
  requests : ℕ
  wire : List (Objects ℚ)
  state : Cognition
  served : List (Objects Raw)

inductive Event (Raw : Type u)
  /-- Leaves are written to the store or removed from it. -/
  | write (store : Objects Raw)
  /-- `requestLongtailSources` asks for the paths. -/
  | request
  /-- `CognitiveTree` is mounted, and its command can be sent or not. -/
  | mount (sent : Bool)
  /-- The hub answers a command, and reads the map of thresholds in this order. -/
  | serve (order : List Threshold)
  /-- The dashboard gets a frame. -/
  | deliver
  | loseRequest
  | loseFrame (i : ℕ)

variable {Raw : Type u}

section Step

variable (unmarshal : Raw → Option PathBook) (budget : ℤ) (host : Host)

/-- What the hub lists of a store. -/
def listing (store : Objects Raw) : Objects ℚ := pathsListing unmarshal "model/paths" store

def Feed.initial : Feed Raw := ⟨∅, 0, [], .initial, []⟩

/-- `writePathsListing`, for the command that has waited longest. The answer is taken from
one snapshot: keys and thresholds are read from the same store, which may change as soon
as the frames are on their way. -/
def Feed.serve (feed : Feed Raw) (order : List Threshold) : Feed Raw :=
  if 0 < feed.requests ∧ order.Perm (listing unmarshal feed.store).entries then
    { feed with
      requests := feed.requests - 1
      wire := feed.wire ++ chunkThresholds order budget
      served := feed.served ++ [feed.store] }
  else feed

/-- The frame that was sent first reaches `applyPathsEnvelope`. -/
def Feed.deliver (feed : Feed Raw) : Feed Raw :=
  match feed.wire with
  | [] => feed
  | chunk :: rest =>
    { feed with
      wire := rest
      state := applyPathsEnvelope host (some (frameBody chunk)) feed.state }

def step (feed : Feed Raw) : Event Raw → Feed Raw
  | .write store => { feed with store }
  | .request => { feed with requests := feed.requests + 1 }
  | .mount sent =>
    { feed with
      state := feed.state.clearPaths
      requests := if sent then feed.requests + 1 else feed.requests }
  | .serve order => feed.serve unmarshal budget order
  | .deliver => feed.deliver host
  | .loseRequest => { feed with requests := feed.requests - 1 }
  | .loseFrame i => { feed with wire := feed.wire.eraseIdx i }

end Step

/-! ## What a listing has -/

section Listing

variable {unmarshal : Raw → Option PathBook}

/-- The object of a store that a key of its listing stands for. -/
def Stored (unmarshal : Raw → Option PathBook) (store : Objects Raw) (key : String) (value : ℚ) :
    Prop :=
  ∃ path book, Starts "model/paths" path ∧
    decodePathBook unmarshal (store.lookup path) = some book ∧ book.resistance = value ∧
    value ≤ Floating.eightTenths ∧ key = policyPathKey path book.action

theorem starts_policyPathKey {pre path : String} (h : Starts pre path) (action : String) :
    Starts pre (policyPathKey path action) := by
  unfold policyPathKey
  split
  · exact h
  · split
    · unfold Starts at h ⊢
      rw [String.toList_append, String.toList_append, String.toList_append, List.append_assoc,
        List.append_assoc]
      exact h.trans (List.prefix_append _ _)
    · exact h

theorem stored_listPath {store : Objects Raw} {thresholds : Objects ℚ} {path : String}
    (hpath : Starts "model/paths" path)
    (h : ∀ key value, thresholds.lookup key = some value → Stored unmarshal store key value)
    (key : String) (value : ℚ)
    (hvalue : (listPath unmarshal store thresholds path).lookup key = some value) :
    Stored unmarshal store key value := by
  unfold listPath at hvalue
  cases hbook : decodePathBook unmarshal (store.lookup path) with
  | none =>
    rw [hbook] at hvalue
    exact h key value hvalue
  | some book =>
    rw [hbook] at hvalue
    dsimp only at hvalue
    split at hvalue
    · exact h key value hvalue
    · rename_i hlow
      by_cases hkey : key = policyPathKey path book.action
      · rw [hkey, AList.lookup_insert] at hvalue
        cases hvalue
        exact ⟨path, book, hpath, hbook, rfl, not_lt.mp hlow, hkey⟩
      · rw [AList.lookup_insert_ne hkey] at hvalue
        exact h key value hvalue

/-- Every key of a listing is the key of a stored leaf. -/
theorem stored_of_listing {store : Objects Raw} {key : String} {value : ℚ}
    (h : (listing unmarshal store).lookup key = some value) :
    Stored unmarshal store key value := by
  have hfold : ∀ (paths : List String) (thresholds : Objects ℚ),
      (∀ path ∈ paths, Starts "model/paths" path) →
      (∀ key value, thresholds.lookup key = some value → Stored unmarshal store key value) →
      ∀ key value, (paths.foldl (listPath unmarshal store) thresholds).lookup key = some value →
        Stored unmarshal store key value := by
    intro paths
    induction paths with
    | nil => exact fun _ _ h => h
    | cons path rest ih =>
      intro thresholds hpaths h
      exact ih _ (fun p hp => hpaths p (List.mem_cons_of_mem _ hp))
        (stored_listPath (hpaths path List.mem_cons_self) h)
  refine hfold _ ∅ (fun path hpath => (Objects.mem_list.mp hpath).2) (fun key value hnone => ?_)
    key value h
  rw [AList.lookup_empty] at hnone
  cases hnone

/-- A listing has keys of paths, with thresholds that are not pruned. -/
theorem listed_listing (store : Objects Raw) : Listed (listing unmarshal store) := by
  intro key value hvalue
  obtain ⟨path, book, hpath, -, -, hlow, rfl⟩ := stored_of_listing hvalue
  exact ⟨decide_eq_true (starts_policyPathKey hpath _), hlow⟩

/-- A frame with thresholds of a listing. -/
def PartOf (chunk whole : Objects ℚ) : Prop := ∀ key ∈ chunk, chunk.lookup key = whole.lookup key

/-- A chunk of a sound listing is one. -/
theorem PartOf.listed {chunk whole : Objects ℚ} (h : PartOf chunk whole) (hwhole : Listed whole) :
    Listed chunk := by
  intro key value hvalue
  have hmem : key ∈ chunk := by
    rw [← AList.lookup_isSome, hvalue]
    rfl
  refine hwhole key value ?_
  rw [← h key hmem]
  exact hvalue

end Listing

/-! ## Every run -/

section Runs

variable {unmarshal : Raw → Option PathBook} {budget : ℤ} {host : Host}

/-- What is on its way and what is shown comes from listings that the hub made. -/
structure Kept (unmarshal : Raw → Option PathBook) (feed : Feed Raw) : Prop where
  wire : ∀ chunk ∈ feed.wire, ∃ store ∈ feed.served, PartOf chunk (listing unmarshal store)
  low : Low feed.state.thresholds
  sorted : feed.state.policyKeys = sortSet feed.state.policyKeys
  shown : ∀ key ∈ feed.state.policyKeys, ∃ store ∈ feed.served,
    key ∈ listing unmarshal store ∧
      feed.state.thresholds.lookup key = (listing unmarshal store).lookup key

theorem kept_initial : Kept unmarshal (.initial : Feed Raw) :=
  ⟨nofun, fun _ _ h => (nomatch h), sortSet_nil.symm, nofun⟩

variable {feed : Feed Raw}

theorem Kept.listed (h : Kept unmarshal feed) {chunk : Objects ℚ} (hchunk : chunk ∈ feed.wire) :
    Listed chunk := by
  obtain ⟨store, -, hpart⟩ := h.wire chunk hchunk
  exact hpart.listed (listed_listing store)

/-- Everything shown is a path, so that nothing is left when the tree is mounted. -/
theorem Kept.clearPaths (h : Kept unmarshal feed) : feed.state.clearPaths.policyKeys = [] := by
  refine List.filter_eq_nil_iff.mpr fun key hkey hother => ?_
  obtain ⟨store, -, hmem, -⟩ := h.shown key hkey
  exact of_decide_eq_true hother (of_decide_eq_true ((listed_listing store).path hmem))

/-- An answer puts chunks of the listing of the present store on the wire. -/
theorem kept_serve (hbudget : 0 < budget) (h : Kept unmarshal feed) (order : List Threshold) :
    Kept unmarshal (feed.serve unmarshal budget order) := by
  unfold Feed.serve
  split
  · rename_i hserve
    refine ⟨fun chunk hchunk => ?_, h.low, h.sorted, fun key hkey => ?_⟩
    · rcases List.mem_append.mp hchunk with hchunk | hchunk
      · obtain ⟨store, hstore, hpart⟩ := h.wire chunk hchunk
        exact ⟨store, List.mem_append_left _ hstore, hpart⟩
      · exact ⟨feed.store, List.mem_append_right _ List.mem_cons_self,
          fun key hkey => lookup_chunk hbudget hserve.2 hchunk hkey⟩
    · obtain ⟨store, hstore, hshown⟩ := h.shown key hkey
      exact ⟨store, List.mem_append_left _ hstore, hshown⟩
  · exact h

/-- A delivered chunk adds keys with the thresholds of its listing. -/
theorem kept_deliver (host : Host) (h : Kept unmarshal feed) :
    Kept unmarshal (feed.deliver host) := by
  unfold Feed.deliver
  split
  · exact h
  · rename_i chunk rest hwire
    have hchunk : chunk ∈ feed.wire := by
      rw [hwire]
      exact List.mem_cons_self
    have hlisted := h.listed hchunk
    obtain ⟨hkeys, hlookup⟩ := applyPathsEnvelope_frame host hlisted h.low
    refine ⟨fun c hc => h.wire c ?_, fun key value hvalue hbook => ?_, ?_, fun key hkey => ?_⟩
    · rw [hwire]
      exact List.mem_cons_of_mem _ hc
    · rw [hlookup] at hvalue
      rcases Option.or_eq_some_iff.mp hvalue with hvalue | ⟨-, hvalue⟩
      · exact hlisted.low key value hvalue hbook
      · exact h.low key value hvalue hbook
    · show (applyPathsEnvelope host (some (frameBody chunk)) feed.state).policyKeys =
        sortSet (applyPathsEnvelope host (some (frameBody chunk)) feed.state).policyKeys
      rw [hkeys, sortSet_sortSet]
    · have hunion : key ∈ feed.state.policyKeys ++ chunk.keys := by
        rw [← mem_sortSet, ← hkeys]
        exact hkey
      show ∃ store ∈ feed.served, key ∈ listing unmarshal store ∧
        (applyPathsEnvelope host (some (frameBody chunk)) feed.state).thresholds.lookup key = _
      rw [hlookup]
      by_cases hmem : key ∈ chunk
      · obtain ⟨store, hstore, hpart⟩ := h.wire chunk hchunk
        obtain ⟨value, hvalue⟩ := Option.isSome_iff_exists.mp (AList.lookup_isSome.mpr hmem)
        have hwhole := hpart key hmem
        refine ⟨store, hstore, ?_, ?_⟩
        · rw [← AList.lookup_isSome, ← hwhole, hvalue]
          rfl
        · rw [← hwhole, hvalue]
          rfl
      · -- a key that the frame does not have was shown, and its threshold stays
        have hold := (List.mem_append.mp hunion).resolve_right fun hkeys =>
          hmem (AList.mem_keys.mpr hkeys)
        rw [AList.lookup_eq_none.mpr hmem, Option.none_or]
        exact h.shown key hold

/-- Every event keeps what is shown within what was served. -/
theorem kept_step (hbudget : 0 < budget) (feed : Feed Raw) (e : Event Raw)
    (h : Kept unmarshal feed) : Kept unmarshal (step unmarshal budget host feed e) := by
  cases e with
  | write store => exact ⟨h.wire, h.low, h.sorted, h.shown⟩
  | request => exact ⟨h.wire, h.low, h.sorted, h.shown⟩
  | mount sent =>
    have hnone := h.clearPaths
    refine ⟨h.wire, h.low, ?_, fun key hkey => ?_⟩
    · show feed.state.clearPaths.policyKeys = sortSet feed.state.clearPaths.policyKeys
      rw [hnone, sortSet_nil]
    · have hkey' : key ∈ feed.state.clearPaths.policyKeys := hkey
      rw [hnone] at hkey'
      cases hkey'
  | serve order => exact kept_serve hbudget h order
  | deliver => exact kept_deliver host h
  | loseRequest => exact ⟨h.wire, h.low, h.sorted, h.shown⟩
  | loseFrame i =>
    exact ⟨fun chunk hchunk => h.wire chunk (List.mem_of_mem_eraseIdx hchunk), h.low, h.sorted,
      h.shown⟩

/-- Along every run, the keys shown are sorted, and each of them, with its threshold, is
that of a leaf which a store that the hub listed held below the prune threshold. -/
theorem shown_was_listed (unmarshal : Raw → Option PathBook) {budget : ℤ} (hbudget : 0 < budget)
    (host : Host) (events : List (Event Raw)) :
    Everywhere (step unmarshal budget host)
      (fun feed => feed.state.policyKeys.Nodup ∧
        feed.state.policyKeys.Pairwise (fun a b => units a ≤ units b) ∧
        ∀ key ∈ feed.state.policyKeys, ∃ store ∈ feed.served, ∃ value,
          Stored unmarshal store key value ∧ feed.state.thresholds.lookup key = some value)
      .initial events := by
  refine everywhere_of_always (fun feed e h => kept_step hbudget feed e h) ?_ kept_initial events
  intro feed h
  refine ⟨?_, ?_, fun key hkey => ?_⟩
  · rw [h.sorted]
    exact sortSet_nodup _
  · rw [h.sorted]
    exact sortTexts_sorted _
  · obtain ⟨store, hstore, hmem, hlookup⟩ := h.shown key hkey
    obtain ⟨value, hvalue⟩ := Option.isSome_iff_exists.mp (AList.lookup_isSome.mpr hmem)
    exact ⟨store, hstore, value, stored_of_listing hvalue, hlookup.trans hvalue⟩

end Runs

/-! ## After the tree is mounted -/

/-- The event takes nothing away. -/
def Event.Lossless : Event Raw → Prop
  | .mount _ => False
  | .loseRequest => False
  | .loseFrame _ => False
  | _ => True

/-- The event sends one more command. -/
def Event.asks : Event Raw → Bool
  | .request => true
  | _ => false

/-- The threshold of a key that frames leave, one laid over the other. -/
def overlay (key : String) (frames : List (Objects ℚ)) (below : Option ℚ) : Option ℚ :=
  frames.foldl (fun threshold chunk => (chunk.lookup key).or threshold) below

/-- Where the frames that have a key agree, they leave what they have. -/
theorem overlay_agree {key : String} {value : Option ℚ} :
    ∀ {frames : List (Objects ℚ)}, (∀ chunk ∈ frames, key ∈ chunk → chunk.lookup key = value) →
      (∃ chunk ∈ frames, key ∈ chunk) → ∀ below, overlay key frames below = value := by
  intro frames
  induction frames using List.reverseRecOn with
  | nil => exact fun _ h => absurd h.choose_spec.1 List.not_mem_nil
  | append_singleton frames last ih =>
    intro hagree hsome below
    unfold overlay at ih ⊢
    rw [List.foldl_append, List.foldl_cons, List.foldl_nil]
    by_cases hlast : key ∈ last
    · obtain ⟨v, hv⟩ := Option.isSome_iff_exists.mp (AList.lookup_isSome.mpr hlast)
      rw [← hagree last (List.mem_append_right _ List.mem_cons_self) hlast, hv]
      rfl
    · rw [AList.lookup_eq_none.mpr hlast, Option.none_or]
      obtain ⟨chunk, hchunk, hkey⟩ := hsome
      refine ih (fun c hc => hagree c (List.mem_append_left _ hc)) ⟨chunk, ?_, hkey⟩ below
      refine (List.mem_append.mp hchunk).resolve_right fun heq => hlast ?_
      rwa [List.mem_singleton.mp heq] at hkey

section Mounted

variable {unmarshal : Raw → Option PathBook} {budget : ℤ} (host : Host) {start feed : Feed Raw}
  {orders : List (List Threshold)} {stores : List (Objects Raw)} {done : List (Objects ℚ)}
  {asked : ℕ}

/-- Each answer reads the listing of its store in some order. -/
abbrev Answers (unmarshal : Raw → Option PathBook) :
    List (List Threshold) → List (Objects Raw) → Prop :=
  List.Forall₂ fun order store => order.Perm (listing unmarshal store).entries

/-- The frames that have arrived since the tree was mounted, and those on their way, are
those that were on their way then and the answers given since. -/
structure Since (unmarshal : Raw → Option PathBook) (budget : ℤ) (start : Feed Raw)
    (orders : List (List Threshold)) (stores : List (Objects Raw)) (done : List (Objects ℚ))
    (asked : ℕ) (feed : Feed Raw) : Prop where
  kept : Kept unmarshal feed
  served : feed.served = start.served ++ stores
  answers : Answers unmarshal orders stores
  frames : done ++ feed.wire =
    start.wire ++ orders.flatMap fun order => chunkThresholds order budget
  keys : feed.state.policyKeys = sortSet (done.flatMap (·.keys))
  thresholds : ∀ key, feed.state.thresholds.lookup key =
    overlay key done (start.state.thresholds.lookup key)
  count : stores.length + feed.requests = start.requests + 1 + asked

/-- The tree is mounted. -/
theorem since_mount (budget : ℤ) (h : Kept unmarshal start) :
    Since unmarshal budget start [] [] [] 0
      (step unmarshal budget host start (.mount true)) := by
  have hkeys := h.clearPaths
  refine ⟨⟨h.wire, h.low, ?_, fun key hkey => ?_⟩, (List.append_nil _).symm, .nil,
    (List.append_nil _).symm, ?_, fun _ => rfl, by show 0 + (start.requests + 1) = _; omega⟩
  · show start.state.clearPaths.policyKeys = sortSet start.state.clearPaths.policyKeys
    rw [hkeys, sortSet_nil]
  · have hkey' : key ∈ start.state.clearPaths.policyKeys := hkey
    rw [hkeys] at hkey'
    cases hkey'
  · show start.state.clearPaths.policyKeys = _
    rw [hkeys]
    exact sortSet_nil.symm

/-- A command is answered. -/
theorem Since.serve (hbudget : 0 < budget)
    (h : Since unmarshal budget start orders stores done asked feed) (order : List Threshold) :
    ∃ orders' stores', Since unmarshal budget start orders' stores' done asked
      (feed.serve unmarshal budget order) := by
  have hkept := kept_serve hbudget h.kept order
  unfold Feed.serve at hkept ⊢
  split
  · rename_i hserve
    rw [if_pos hserve] at hkept
    refine ⟨orders ++ [order], stores ++ [feed.store], hkept, ?_, ?_, ?_, h.keys, h.thresholds, ?_⟩
    · show feed.served ++ [feed.store] = _
      rw [h.served, List.append_assoc]
    · exact List.rel_append h.answers (.cons hserve.2 .nil)
    · show done ++ (feed.wire ++ chunkThresholds order budget) = _
      rw [← List.append_assoc, h.frames, List.flatMap_append, List.flatMap_singleton,
        List.append_assoc]
    · show (stores ++ [feed.store]).length + (feed.requests - 1) = _
      have hcount := h.count
      have hpos := hserve.1
      rw [List.length_append, List.length_singleton]
      omega
  · exact ⟨orders, stores, h⟩

/-- A frame arrives. -/
theorem Since.deliver (h : Since unmarshal budget start orders stores done asked feed) :
    ∃ done', Since unmarshal budget start orders stores done' asked (feed.deliver host) := by
  have hkept := kept_deliver host h.kept
  unfold Feed.deliver at hkept ⊢
  cases hwire : feed.wire with
  | nil =>
    rw [hwire] at hkept
    exact ⟨done, h⟩
  | cons chunk rest =>
    rw [hwire] at hkept
    obtain ⟨hkeys, hlookup⟩ := applyPathsEnvelope_frame host
      (h.kept.listed (hwire ▸ List.mem_cons_self)) h.kept.low
    refine ⟨done ++ [chunk], hkept, h.served, h.answers, ?_, ?_, fun key => ?_, h.count⟩
    · show done ++ [chunk] ++ rest = _
      rw [List.append_assoc, List.singleton_append, ← hwire]
      exact h.frames
    · show (applyPathsEnvelope host (some (frameBody chunk)) feed.state).policyKeys = _
      rw [hkeys, h.keys, List.flatMap_append, List.flatMap_singleton]
      refine sortSet_congr fun text => ?_
      rw [List.mem_append, List.mem_append, mem_sortSet]
    · show (applyPathsEnvelope host (some (frameBody chunk)) feed.state).thresholds.lookup key = _
      unfold overlay
      rw [hlookup, h.thresholds, List.foldl_append]
      rfl

/-- A lossless event goes on with the account: an answer adds its order and store, a
delivery moves a chunk over. -/
theorem Since.next (hbudget : 0 < budget)
    (h : Since unmarshal budget start orders stores done asked feed) {e : Event Raw}
    (he : e.Lossless) :
    ∃ orders' stores' done', Since unmarshal budget start orders' stores' done'
      (asked + if e.asks then 1 else 0) (step unmarshal budget host feed e) := by
  cases e with
  | write store =>
    exact ⟨orders, stores, done, kept_step hbudget feed (.write store) h.kept, h.served, h.answers,
      h.frames, h.keys, h.thresholds, h.count⟩
  | request =>
    refine ⟨orders, stores, done, kept_step hbudget feed .request h.kept, h.served, h.answers,
      h.frames, h.keys, h.thresholds, ?_⟩
    have hcount := h.count
    show stores.length + (feed.requests + 1) = start.requests + 1 + (asked + 1)
    omega
  | mount sent => cases he
  | serve order =>
    obtain ⟨orders', stores', hserve⟩ := h.serve hbudget order
    exact ⟨orders', stores', done, hserve⟩
  | deliver =>
    obtain ⟨done', hdeliver⟩ := h.deliver host
    exact ⟨orders, stores, done', hdeliver⟩
  | loseRequest => cases he
  | loseFrame i => cases he

/-- So does every lossless run. -/
theorem Since.run (hbudget : 0 < budget) :
    ∀ {events : List (Event Raw)} {feed : Feed Raw} {orders : List (List Threshold)}
      {stores : List (Objects Raw)} {done : List (Objects ℚ)} {asked : ℕ},
      Since unmarshal budget start orders stores done asked feed →
      (∀ e ∈ events, e.Lossless) →
      ∃ orders' stores' done', Since unmarshal budget start orders' stores' done'
        (asked + events.countP Event.asks) (runFrom (step unmarshal budget host) feed events)
  | [], feed, orders, stores, done, asked, h, _ => ⟨orders, stores, done, h⟩
  | e :: events, feed, orders, stores, done, asked, h, hevents => by
    obtain ⟨orders', stores', done', hstep⟩ :=
      h.next host hbudget (hevents e List.mem_cons_self)
    obtain ⟨orders'', stores'', done'', hrun⟩ :=
      hstep.run hbudget fun e' he' => hevents e' (List.mem_cons_of_mem _ he')
    refine ⟨orders'', stores'', done'', ?_⟩
    have hcount : asked + (e :: events).countP Event.asks =
        asked + (if e.asks then 1 else 0) + events.countP Event.asks := by
      rw [List.countP_cons]
      omega
    rw [hcount]
    exact hrun

/-- The keys of all answers are those of the listings. -/
theorem Answers.mem_keys (hbudget : 0 < budget) (h : Answers unmarshal orders stores)
    (key : String) :
    (∃ chunk ∈ orders.flatMap fun order => chunkThresholds order budget, key ∈ chunk) ↔
      ∃ store ∈ stores, key ∈ listing unmarshal store := by
  induction h with
  | nil => exact ⟨fun h => absurd h.choose_spec.1 List.not_mem_nil,
      fun h => absurd h.choose_spec.1 List.not_mem_nil⟩
  | @cons order store orders stores hperm _ ih =>
    rw [List.exists_mem_cons_iff, ← ih, ← mem_chunks hbudget hperm key, List.flatMap_cons]
    constructor
    · rintro ⟨chunk, hchunk, hkey⟩
      rcases List.mem_append.mp hchunk with hchunk | hchunk
      · exact .inl ⟨chunk, hchunk, hkey⟩
      · exact .inr ⟨chunk, hchunk, hkey⟩
    · rintro (⟨chunk, hchunk, hkey⟩ | ⟨chunk, hchunk, hkey⟩)
      · exact ⟨chunk, List.mem_append_left _ hchunk, hkey⟩
      · exact ⟨chunk, List.mem_append_right _ hchunk, hkey⟩

end Mounted

/-- Once everything that was asked for has arrived, the tree shows the keys of the frames
that were on their way when it was mounted and those of the listings that the hub made
since, one for each command; of the last listing, it shows the thresholds as well. How
the hub cut the listings into frames, and in which order, makes no difference. -/
theorem mount_refreshes (unmarshal : Raw → Option PathBook) {budget : ℤ} (hbudget : 0 < budget)
    (host : Host) (before after : List (Event Raw)) (hafter : ∀ e ∈ after, e.Lossless) :
    let start := runFrom (step unmarshal budget host) .initial before
    let feed := runFrom (step unmarshal budget host) start (.mount true :: after)
    feed.requests = 0 → feed.wire = [] →
    ∃ earlier last, feed.served = start.served ++ earlier ++ [last] ∧
      earlier.length = start.requests + after.countP Event.asks ∧
      feed.state.policyKeys = sortSet (start.wire.flatMap (·.keys) ++
        (earlier ++ [last]).flatMap fun store => (listing unmarshal store).keys) ∧
      ∀ key ∈ listing unmarshal last,
        feed.state.thresholds.lookup key = (listing unmarshal last).lookup key := by
  intro start feed hrequests hwire
  have hstart : Kept unmarshal start :=
    always_runFrom (fun feed e h => kept_step hbudget feed e h) kept_initial before
  obtain ⟨orders, stores, done, h⟩ :=
    (since_mount host budget hstart).run host hbudget hafter
  -- nothing is asked for or on its way any more, so the counts are those of the listings
  have hzero : (runFrom (step unmarshal budget host)
      (step unmarshal budget host start (.mount true)) after).requests = 0 := hrequests
  have hempty : (runFrom (step unmarshal budget host)
      (step unmarshal budget host start (.mount true)) after).wire = [] := hwire
  have hcount := h.count
  have hframes := h.frames
  rw [hzero] at hcount
  rw [hempty, List.append_nil] at hframes
  have hkeys : feed.state.policyKeys = sortSet (start.wire.flatMap (·.keys) ++
      stores.flatMap fun store => (listing unmarshal store).keys) := by
    refine h.keys.trans (sortSet_congr fun key => ?_)
    rw [hframes, List.flatMap_append, List.mem_append, List.mem_append]
    refine or_congr Iff.rfl ?_
    rw [List.mem_flatMap, List.mem_flatMap]
    exact h.answers.mem_keys hbudget key
  -- the mount asks once, so there is a last listing
  cases stores using List.reverseRecOn with
  | nil =>
    rw [List.length_nil] at hcount
    omega
  | append_singleton earlier last =>
    rw [List.length_append, List.length_singleton] at hcount
    refine ⟨earlier, last, ?_, by omega, hkeys, fun key hkey => (h.thresholds key).trans ?_⟩
    · rw [List.append_assoc]
      exact h.served
    · -- the frames of the last answer arrived last
      have hdrop := List.forall₂_drop_append _ _ _ h.answers
      obtain ⟨order, hperm, horder⟩ : ∃ order, order.Perm (listing unmarshal last).entries ∧
          orders.drop earlier.length = [order] := by
        cases hrest : orders.drop earlier.length with
        | nil =>
          rw [hrest] at hdrop
          cases hdrop
        | cons order rest =>
          rw [hrest] at hdrop
          cases hdrop with
          | cons hperm hnil => exact ⟨order, hperm, by rw [List.forall₂_nil_right_iff.mp hnil]⟩
      rw [hframes, ← List.take_append_drop earlier.length orders, horder, List.flatMap_append,
        List.flatMap_singleton, ← List.append_assoc, overlay, List.foldl_append]
      exact overlay_agree (fun chunk hchunk hmem => lookup_chunk hbudget hperm hchunk hmem)
        ((mem_chunks hbudget hperm key).mpr hkey) _

/-! ## One leaf -/

def sampleStore : Objects PathBook := AList.singleton "model/paths/a" ⟨"enter", 1 / 2⟩

/-- The frame of an earlier listing is on its way when the tree is mounted. -/
def sampleBefore : List (Event PathBook) :=
  [.write sampleStore, .request, .serve [⟨"model/paths/a/enter.bin", 1 / 2⟩]]

/-- The leaf is removed before the hub answers the command of the tree. -/
def sampleAfter : List (Event PathBook) :=
  [.write ∅, .deliver, .serve []]

/-- The frame arrives after the leaf is gone: what is shown is the leaf, with the threshold
that it had in the store that was listed. -/
theorem shown_was_listed_sample :
    let feed := runFrom (step some 90 Host.plain) .initial
      (sampleBefore ++ [.write ∅, .deliver])
    feed.store.keys = [] ∧ feed.state.policyKeys = ["model/paths/a/enter.bin"] ∧
      ∃ store ∈ feed.served, ∃ value, Stored some store "model/paths/a/enter.bin" value ∧
        feed.state.thresholds.lookup "model/paths/a/enter.bin" = some value := by
  intro feed
  have hkeys : feed.state.policyKeys = ["model/paths/a/enter.bin"] := by decide +kernel
  obtain ⟨-, -, hshown⟩ := (shown_was_listed some (by decide : (0 : ℤ) < 90) Host.plain
    (sampleBefore ++ [.write ∅, .deliver])).last
  refine ⟨by decide +kernel, hkeys, hshown _ ?_⟩
  show "model/paths/a/enter.bin" ∈ feed.state.policyKeys
  rw [hkeys]
  exact List.mem_cons_self

/-- The frame of the earlier listing arrives after the mount, so its leaf is shown, though
the store that answered the mount has none. -/
theorem mount_refreshes_sample :
    (runFrom (step some 90 Host.plain)
      (runFrom (step some 90 Host.plain) .initial sampleBefore)
      (.mount true :: sampleAfter)).state.policyKeys = sortSet ["model/paths/a/enter.bin"] := by
  have hlossless : ∀ e ∈ sampleAfter, e.Lossless := by simp [sampleAfter, Event.Lossless]
  obtain ⟨earlier, last, hserved, hcount, hkeys, -⟩ :=
    mount_refreshes some (by decide : (0 : ℤ) < 90) Host.plain sampleBefore sampleAfter hlossless
      (by decide +kernel) (by decide +kernel)
  have hnone : earlier.length = 0 := hcount.trans (by decide +kernel)
  have hstores := congrArg (List.map (·.keys)) hserved
  have hserved' : (runFrom (step some 90 Host.plain)
      (runFrom (step some 90 Host.plain) .initial sampleBefore)
      (.mount true :: sampleAfter)).served.map (·.keys) = [["model/paths/a"], []] := by
    decide +kernel
  have hstart : (runFrom (step some 90 Host.plain) .initial sampleBefore).served.map (·.keys) =
      [["model/paths/a"]] := by decide +kernel
  rw [hserved', List.map_append, List.map_append, hstart, List.length_eq_zero_iff.mp hnone]
    at hstores
  have hkeys' : last.entries.map Sigma.fst = [] :=
    (List.singleton_inj.mp (List.cons.inj hstores).2).symm
  have hlast : last = ∅ := AList.ext (List.map_eq_nil_iff.mp hkeys')
  rw [hkeys, List.length_eq_zero_iff.mp hnone, hlast]
  exact congrArg sortSet (by decide +kernel)

end Symm.Ui.PathFeed
