import Symm.Strategy.TreeSpec

/-!
# The verdict of `Tree.Predict`

The verdict the walk is meant to reach is a statement about the set of leaves
under the cut. The walk compares each leaf with the first known action it met:
leaves of unknown action ahead of that one go unnoticed, and a leaf that
disagrees returns before it is weighed, so a heavy one is left in the tree. A
brightness that is no number does not compare as dim, so the leaves answer
although it exceeds nothing.

The mean is the one that float64s give, added up leaf by leaf in the order of the
visits. So a verdict is stated for an order, that of the keys of the tree first
(`predict_eq_predictIn`); what does not depend on the order is which leaves there
are, whether they disagree and which of them go.

- `Verdict`: what `Predict` owes to the leaves under the cut in an order;
- `Noticed`, `NoticedInAnyOrder`: the conditions on their actions;
- `Compared`: the condition on the brightness;
- `verdict_iff`: they are exact, for the order of the keys and for every order.
-/

namespace Symm.Strategy

open Symm.System Symm.Lib

namespace Tree

/-! ## The verdict -/

/-- Two of the leaves name different actions. -/
def Disagree (entries : List (String × Leaf)) : Prop :=
  ∃ a ∈ entries, ∃ b ∈ entries, Action.new a.2.action ≠ Action.new b.2.action

/-- The leaves that count toward the mean. -/
def light (entries : List (String × Leaf)) : List (String × Leaf) :=
  entries.filter fun entry => entry.2.resistance ≤ Floating.eightTenths

/-- The mean resistance of some leaves, added up one after the other. -/
def mean (entries : List (String × Leaf)) : Floating :=
  .average (entries.map fun entry => .finite entry.2.resistance)

/-- The tree and the answer that `Predict` owes to the leaves under the cut, in the
order in which they are visited. -/
structure Verdict (tokens : Cut) (tree : Tree) (entries : List (String × Leaf))
    (result : Tree × (Action × Floating × Bool)) : Prop where
  disagreed : result.2.2.2 = true ↔ Disagree entries
  agreed : result.2.2.2 = false → ∀ entry ∈ light entries,
    (mean (light entries)).lt tokens.lastBrightness = true →
    result.2.1 = Action.new entry.2.action ∧ result.2.2.1 = mean (light entries)
  none : result.2.2.2 = false → light entries = [] ∨
      (mean (light entries)).lt tokens.lastBrightness = false →
    result.2.1 = .none
  pruned : ∀ path,
    ((∃ leaf, (path, leaf) ∈ entries ∧ Floating.eightTenths < leaf.resistance) →
      result.1.get path = .none) ∧
    (¬ (∃ leaf, (path, leaf) ∈ entries ∧ Floating.eightTenths < leaf.resistance) →
      result.1.get path = tree.get path)

/-- The keys under the cut, in the order of the tree. -/
def visited (tokens : Cut) (tree : Tree) : List (String × Leaf) :=
  tree.root.filter fun entry => under tokens.text entry.1

/-- `Predict` when its walk visits the keys under the cut in a given order. -/
def predictIn (learn : Learning) (tokens : Cut) (order : List (String × Leaf)) (tree : Tree) :
    Tree × (Action × Floating × Bool) :=
  let walk := order.foldl (visit learn.minPathLength) .start
  (tree.without walk.prunes, answer tokens walk)

/-- `Predict` visits the leaves under the cut in the order of the tree. -/
theorem predict_eq_predictIn {learn : Learning} {tokens : Cut}
    (hlen : learn.minPathLength ≤ tokens.len) (tree : Tree) :
    tree.predict learn tokens = tree.predictIn learn tokens (tree.visited tokens) := by
  rw [predict_eq, if_neg (not_lt.mpr hlen)]
  rfl

/-! ## What the walk notices -/

/-- The leaf names another action than the first known one before it. -/
def Dissents (entries : List (String × Leaf)) (entry : String × Leaf) : Prop :=
  ∃ before after, entries = before ++ entry :: after ∧
    leading .none before ≠ .none ∧ leading .none before ≠ Action.new entry.2.action

/-- The leaves agree, or the walk notices that they do not and weighs every heavy leaf. -/
def Noticed (entries : List (String × Leaf)) : Prop :=
  ¬ Disagree entries ∨ (∃ entry, Dissents entries entry) ∧
    ∀ entry, Dissents entries entry → entry.2.resistance ≤ Floating.eightTenths

/-- The leaves agree, or two of them name different known actions and none is heavy. -/
def NoticedInAnyOrder (entries : List (String × Leaf)) : Prop :=
  ¬ Disagree entries ∨
    (∃ a ∈ entries, ∃ b ∈ entries, Action.new a.2.action ≠ .none ∧
      Action.new b.2.action ≠ .none ∧ Action.new a.2.action ≠ Action.new b.2.action) ∧
    ∀ entry ∈ entries, entry.2.resistance ≤ Floating.eightTenths

/-- The brightness is a number, or it decides nothing: the leaves disagree, or none
that counts names a known action. -/
def Compared (tokens : Cut) (entries : List (String × Leaf)) : Prop :=
  tokens.lastBrightness ≠ .nan ∨ Disagree entries ∨
    ∀ entry ∈ light entries, Action.new entry.2.action = .none

/-- The leaves of an order that the walk does not step over. -/
def long (learn : Learning) (order : List (String × Leaf)) : List (String × Leaf) :=
  order.filter fun entry => learn.minPathLength ≤ segments entry.1

theorem long_visited (learn : Learning) (tokens : Cut) (tree : Tree) :
    long learn (tree.visited tokens) = tree.seen learn tokens := by
  unfold long visited seen
  rw [List.filter_filter]
  refine List.filter_congr fun entry _ => ?_
  rw [Bool.decide_and, Bool.decide_eq_true, Bool.and_comm]

/-- What leads is named by a leaf met so far, unless it led before. -/
theorem exists_of_leading {entries : List (String × Leaf)} {current : Action}
    (h : leading current entries ≠ current) :
    ∃ entry ∈ entries, leading current entries = Action.new entry.2.action := by
  induction entries generalizing current with
  | nil => exact absurd rfl h
  | cons entry rest ih =>
    unfold leading at h ⊢
    by_cases hcurrent : current = .none
    · rw [if_pos hcurrent] at h ⊢
      by_cases hlead : leading (Action.new entry.2.action) rest = Action.new entry.2.action
      · exact ⟨entry, List.mem_cons_self, hlead⟩
      · obtain ⟨e, he, hnew⟩ := ih hlead
        exact ⟨e, List.mem_cons_of_mem entry he, hnew⟩
    · rw [if_neg hcurrent] at h ⊢
      obtain ⟨e, he, hnew⟩ := ih h
      exact ⟨e, List.mem_cons_of_mem entry he, hnew⟩

/-- The running action goes on from what came before. -/
theorem leading_append (current : Action) (before after : List (String × Leaf)) :
    leading current (before ++ after) = leading (leading current before) after := by
  induction before generalizing current with
  | nil => rfl
  | cons entry rest ih => exact ih _

/-- A known action keeps the lead. -/
theorem leading_known {current : Action} (h : current ≠ .none) (entries : List (String × Leaf)) :
    leading current entries = current := by
  induction entries with
  | nil => rfl
  | cons entry rest ih =>
    unfold leading
    rw [if_neg h, ih]

/-- A leaf that dissents disagrees with one before it. -/
theorem Dissents.disagree {entries : List (String × Leaf)} {entry : String × Leaf}
    (h : Dissents entries entry) : Disagree entries := by
  obtain ⟨before, after, rfl, hknown, hother⟩ := h
  obtain ⟨first, hfirst, hlead⟩ := exists_of_leading hknown
  rw [hlead] at hother
  exact ⟨first, List.mem_append_left _ hfirst, entry,
    List.mem_append_right _ List.mem_cons_self, hother⟩

/-- The walk disagrees once a leaf differs from a running action that is known. -/
theorem disagreed_visit {min : Nat} {walk : Walk} {entry : String × Leaf}
    (h : min ≤ segments entry.1) : (visit min walk entry).disagreed = true ↔
      walk.disagreed = true ∨ walk.current ≠ .none ∧ walk.current ≠ Action.new entry.2.action := by
  unfold visit
  rw [if_neg (not_lt.mpr h)]
  dsimp only
  split
  · rename_i hdissent
    exact iff_of_true rfl (.inr hdissent)
  · rename_i hagree
    rw [or_iff_left hagree]
    split <;> rfl

/-- The flag is set exactly if a leaf dissents. -/
theorem disagreed_foldl (learn : Learning) (order : List (String × Leaf)) (walk : Walk) :
    (order.foldl (visit learn.minPathLength) walk).disagreed = true ↔ walk.disagreed = true ∨
      ∃ before entry after, long learn order = before ++ entry :: after ∧
        leading walk.current before ≠ .none ∧
        leading walk.current before ≠ Action.new entry.2.action := by
  unfold long
  induction order generalizing walk with
  | nil => simp
  | cons entry rest ih =>
    rw [List.foldl_cons, ih]
    -- a leaf that is too short is not looked at
    by_cases hlong : learn.minPathLength ≤ segments entry.1
    · rw [disagreed_visit hlong, current_visit hlong, or_assoc,
        List.filter_cons_of_pos (by simpa using hlong)]
      refine or_congr_right ?_
      constructor
      · rintro (hdissent | ⟨before, e, after, hsplit, hlead⟩)
        · exact ⟨[], entry, _, rfl, hdissent⟩
        · exact ⟨entry :: before, e, after, by rw [hsplit]; rfl, hlead⟩
      · rintro ⟨before, e, after, hsplit, hlead⟩
        cases before with
        | nil =>
          obtain ⟨rfl, -⟩ := List.cons.inj hsplit
          exact .inl hlead
        | cons first before =>
          obtain ⟨rfl, hrest⟩ := List.cons.inj hsplit
          exact .inr ⟨before, e, after, hrest, hlead⟩
    · rw [visit_short hlong, List.filter_cons_of_neg (by simpa using hlong)]

/-- The visit of a long leaf with the action that leads so far, or the first one: no
branch of a contradiction is taken. -/
theorem visit_agreeing {min : Nat} {walk : Walk} {entry : String × Leaf} {action : Action}
    (hlong : min ≤ segments entry.1) (hnew : Action.new entry.2.action = action)
    (hcurrent : walk.current = .none ∨ walk.current = action) :
    visit min walk entry =
      if Floating.eightTenths < entry.2.resistance then
        { walk with current := action, prunes := walk.prunes ++ [entry.1] }
      else { walk with
        current := action
        resistance := walk.resistance.add (.finite entry.2.resistance)
        count := walk.count + 1 } := by
  unfold visit
  rw [if_neg (not_lt.mpr hlong)]
  dsimp only
  rw [hnew, if_neg fun hd => hcurrent.elim hd.1 hd.2]

/-- A walk that no leaf of the order contradicts counts the light ones. -/
theorem counted_foldl (learn : Learning) {action : Action} {order : List (String × Leaf)}
    (hagree : ∀ entry ∈ long learn order, Action.new entry.2.action = action) {walk : Walk}
    (hcurrent : walk.current = .none ∨ walk.current = action) :
    let walk' := order.foldl (visit learn.minPathLength) walk
    walk'.count = walk.count + (light (long learn order)).length ∧
    walk'.resistance = ((light (long learn order)).map fun entry =>
      Floating.finite entry.2.resistance).foldl .add walk.resistance ∧
    (walk'.current = walk.current ∨ walk'.current = action) ∧
    (long learn order ≠ [] → walk'.current = action) := by
  unfold long at hagree ⊢
  induction order generalizing walk with
  | nil => exact ⟨rfl, rfl, .inl rfl, fun h => absurd rfl h⟩
  | cons entry rest ih =>
    rw [List.foldl_cons]
    by_cases hlong : learn.minPathLength ≤ segments entry.1
    · rw [List.filter_cons_of_pos (by simpa using hlong)] at hagree ⊢
      have hvisit := visit_agreeing hlong (hagree entry List.mem_cons_self) hcurrent
      have hcurrent' : (visit learn.minPathLength walk entry).current = action := by
        rw [hvisit]
        split <;> rfl
      obtain ⟨hcount, hresistance, hkept, -⟩ :=
        ih (fun e he => hagree e (List.mem_cons_of_mem entry he)) (.inr hcurrent')
      rw [hcurrent', or_self] at hkept
      refine ⟨?_, ?_, .inr hkept, fun _ => hkept⟩
      · rw [hcount, hvisit]
        unfold light
        by_cases hheavy : Floating.eightTenths < entry.2.resistance
        · rw [if_pos hheavy, List.filter_cons_of_neg (by simpa using hheavy)]
        · rw [if_neg hheavy, List.filter_cons_of_pos (by simpa using hheavy), List.length_cons]
          dsimp only
          omega
      · rw [hresistance, hvisit]
        unfold light
        by_cases hheavy : Floating.eightTenths < entry.2.resistance
        · rw [if_pos hheavy, List.filter_cons_of_neg (by simpa using hheavy)]
        · rw [if_neg hheavy, List.filter_cons_of_pos (by simpa using hheavy), List.map_cons,
            List.foldl_cons]
    · rw [visit_short hlong, List.filter_cons_of_neg (by simpa using hlong)] at *
      exact ih hagree hcurrent

/-- A key is at one place of an order. -/
theorem split_unique {entries before before' after after' : List (String × Leaf)}
    {entry entry' : String × Leaf} (hkeys : (entries.map Prod.fst).Nodup)
    (h : entries = before ++ entry :: after) (h' : entries = before' ++ entry' :: after')
    (hkey : entry.1 = entry'.1) : before = before' ∧ entry = entry' := by
  induction entries generalizing before before' with
  | nil => exact absurd h (by simp)
  | cons first rest ih =>
    rw [List.map_cons, List.nodup_cons] at hkeys
    -- the head of the order is not met again
    have hout : ∀ {b a : List (String × Leaf)} {e : String × Leaf}, rest = b ++ e :: a →
        first.1 ≠ e.1 := by
      rintro b a e rfl heq
      refine hkeys.1 ?_
      rw [heq]
      exact List.mem_map_of_mem (List.mem_append_right b List.mem_cons_self)
    cases before with
    | nil =>
      obtain ⟨rfl, -⟩ := List.cons.inj h
      cases before' with
      | nil => exact ⟨rfl, (List.cons.inj h').1⟩
      | cons head tail => exact absurd hkey (hout (List.cons.inj h').2)
    | cons head tail =>
      obtain ⟨rfl, hrest⟩ := List.cons.inj h
      cases before' with
      | nil =>
        obtain ⟨rfl, -⟩ := List.cons.inj h'
        exact absurd hkey.symm (hout hrest)
      | cons head' tail' =>
        obtain ⟨rfl, hrest'⟩ := List.cons.inj h'
        obtain ⟨htail, hentry⟩ := ih hkeys.2 hrest hrest'
        exact ⟨by rw [htail], hentry⟩

/-- The answer reports what the walk found. -/
theorem answer_disagreed (tokens : Cut) (walk : Walk) :
    (answer tokens walk).2.2 = walk.disagreed := by
  unfold answer
  cases walk.disagreed with
  | true => rfl
  | false =>
    rw [if_neg Bool.false_ne_true]
    split
    · rfl
    · split <;> rfl

/-- Whether leaves disagree does not depend on their order. -/
theorem Disagree.perm {entries entries' : List (String × Leaf)} (h : entries.Perm entries')
    (hd : Disagree entries) : Disagree entries' := by
  obtain ⟨a, ha, b, hb, hne⟩ := hd
  exact ⟨a, h.mem_iff.mp ha, b, h.mem_iff.mp hb, hne⟩

/-- Leaves that agree name one action. -/
theorem exists_action {entries : List (String × Leaf)} (h : ¬ Disagree entries) :
    ∃ action, ∀ entry ∈ entries, Action.new entry.2.action = action := by
  cases entries with
  | nil => exact ⟨.none, fun e he => absurd he List.not_mem_nil⟩
  | cons first rest =>
    refine ⟨Action.new first.2.action, fun e he => ?_⟩
    by_contra hne
    exact h ⟨e, he, first, List.mem_cons_self, hne⟩

theorem light_perm {entries entries' : List (String × Leaf)} (h : entries.Perm entries') :
    (light entries).Perm (light entries') := h.filter _

/-- A mean of leaves is some number. -/
theorem mean_ne_nan {entries : List (String × Leaf)} (h : entries ≠ []) : mean entries ≠ .nan := by
  refine Floating.average_ne_nan (fun hnil => h (List.map_eq_nil_iff.mp hnil)) fun a ha => ?_
  obtain ⟨entry, -, rfl⟩ := List.mem_map.mp ha
  exact ⟨_, rfl⟩

/-- The answer to leaves that agree: their action, where the brightness does not
compare as dim. -/
theorem answer_of_agree {learn : Learning} (tokens : Cut) {order : List (String × Leaf)}
    (h : ¬ Disagree (long learn order)) :
    (∀ entry ∈ light (long learn order),
      tokens.lastBrightness.le (mean (light (long learn order))) = false →
      answer tokens (order.foldl (visit learn.minPathLength) .start) =
        (Action.new entry.2.action, mean (light (long learn order)), false)) ∧
    (light (long learn order) = [] ∨
        tokens.lastBrightness.le (mean (light (long learn order))) = true →
      answer tokens (order.foldl (visit learn.minPathLength) .start) =
        (.none, .finite 0, false)) := by
  obtain ⟨action, haction⟩ := exists_action h
  obtain ⟨hcount, hresistance, -, hcurrent⟩ :=
    @counted_foldl learn action order haction .start (.inl rfl)
  have hflag : ¬ (order.foldl (visit learn.minPathLength) .start).disagreed = true := by
    rw [disagreed_foldl, or_iff_right Bool.false_ne_true]
    rintro ⟨before, entry, after, hdissents⟩
    exact h (Dissents.disagree ⟨before, after, hdissents⟩)
  have hzero : Walk.start.count = 0 := rfl
  rw [hzero, Nat.zero_add] at hcount
  -- the walk has counted and added up the light leaves alone
  have hmean : (order.foldl (visit learn.minPathLength) .start).resistance.div
      (.ofInt (order.foldl (visit learn.minPathLength) .start).count) =
        mean (light (long learn order)) := by
    rw [hcount, hresistance, mean, Floating.average, List.length_map]
    rfl
  constructor
  -- an entry is light, so the walk has counted some
  · intro entry hentry hbright
    have hlong : entry ∈ long learn order := List.mem_of_mem_filter hentry
    unfold answer
    rw [if_neg hflag, hmean, if_neg (Bool.eq_false_iff.mp hbright), if_neg,
      hcurrent (List.ne_nil_of_mem hlong), haction entry hlong]
    rw [hcount]
    exact (List.length_pos_of_mem hentry).ne'
  · intro hnone
    unfold answer
    rw [if_neg hflag, hmean]
    by_cases hempty : light (long learn order) = []
    · rw [if_pos (by rw [hcount, hempty]; rfl)]
    · rw [if_pos (hnone.resolve_left hempty)]
      split <;> rfl

/-- The walk marks the leaf of a path: it is heavy and does not dissent. -/
def Marked (entries : List (String × Leaf)) (path : String) : Prop :=
  ∃ before leaf after, entries = before ++ (path, leaf) :: after ∧
    Floating.eightTenths < leaf.resistance ∧
    (leading .none before = .none ∨ leading .none before = Action.new leaf.action)

/-- The flag of an answer is set exactly if a leaf dissents. -/
theorem disagreed_predictIn (learn : Learning) (tokens : Cut) (order : List (String × Leaf))
    (tree : Tree) : (tree.predictIn learn tokens order).2.2.2 = true ↔
      ∃ entry, Dissents (long learn order) entry := by
  unfold predictIn
  rw [answer_disagreed, disagreed_foldl, or_iff_right Bool.false_ne_true]
  constructor
  · rintro ⟨before, entry, after, hsplit⟩
    exact ⟨entry, before, after, hsplit⟩
  · rintro ⟨entry, before, after, hsplit⟩
    exact ⟨before, entry, after, hsplit⟩

/-- What is marked is gone from the tree that is left, and nothing else is. -/
theorem get_predictIn (learn : Learning) (tokens : Cut) (order : List (String × Leaf))
    (tree : Tree) (path : String) :
    (Marked (long learn order) path ∧ (tree.predictIn learn tokens order).1.get path = none) ∨
      (¬ Marked (long learn order) path ∧
        (tree.predictIn learn tokens order).1.get path = tree.get path) := by
  unfold predictIn
  dsimp only
  rw [get_without]
  have hmem := @mem_prunes_foldl learn.minPathLength order .start path
  rw [or_iff_right List.not_mem_nil] at hmem
  split
  · rename_i hin
    exact .inl ⟨hmem.mp hin, rfl⟩
  · rename_i hout
    exact .inr ⟨fun h => hout (hmem.mpr h), rfl⟩

/-- A leaf that dissents in a walk that notices is not heavy. -/
theorem Noticed.resistance_le {entries : List (String × Leaf)} (h : Noticed entries)
    {entry : String × Leaf} (hdissents : Dissents entries entry) :
    entry.2.resistance ≤ Floating.eightTenths := by
  rcases h with hagree | ⟨-, hlight⟩
  · exact absurd hdissents.disagree hagree
  · exact hlight entry hdissents

/-- What is noticed of an order and not flagged agrees. -/
theorem Noticed.agree {learn : Learning} {tokens : Cut} {tree : Tree}
    {order : List (String × Leaf)} (h : Noticed (long learn order))
    (hflag : (tree.predictIn learn tokens order).2.2.2 = false) : ¬ Disagree (long learn order) := by
  rcases h with hagree | ⟨hdissents, -⟩
  · exact hagree
  · rw [(disagreed_predictIn learn tokens order tree).mpr hdissents] at hflag
    cases hflag

/-- An order whose verdict is reached is noticed: a heavy leaf that dissents would
be left in the tree. -/
theorem noticed_of_verdict {learn : Learning} {tokens : Cut} {tree : Tree}
    {order : List (String × Leaf)} (hkeys : ((long learn order).map Prod.fst).Nodup)
    (hroot : ∀ entry ∈ long learn order, entry ∈ tree.root)
    (h : Verdict tokens tree (long learn order) (tree.predictIn learn tokens order)) :
    Noticed (long learn order) := by
  by_cases hd : Disagree (long learn order)
  · have hflag := h.disagreed.mpr hd
    refine .inr ⟨(disagreed_predictIn learn tokens order tree).mp hflag, fun entry hdissents => ?_⟩
    by_contra hheavy
    rw [not_le] at hheavy
    obtain ⟨before, after, hsplit, hknown, hother⟩ := hdissents
    have hin : entry ∈ long learn order := by
      rw [hsplit]
      exact List.mem_append_right before List.mem_cons_self
    have hgone := (h.pruned entry.1).1 ⟨entry.2, hin, hheavy⟩
    rcases get_predictIn learn tokens order tree entry.1 with
      ⟨⟨before', leaf, after', hsplit', -, hlead⟩, -⟩ | ⟨-, hkept⟩
    · obtain ⟨rfl, heq⟩ := split_unique hkeys hsplit hsplit' rfl
      rw [heq] at hother
      exact hlead.elim hknown hother
    · rw [hkept, get_eq_some.mpr (hroot entry hin)] at hgone
      exact Option.some_ne_none _ hgone
  · exact .inl hd

/-- A brightness that is no number exceeds no mean, and yet leaves that agree answer
with their action. -/
theorem compared_of_verdict {learn : Learning} {tokens : Cut} {tree : Tree}
    {order : List (String × Leaf)}
    (h : Verdict tokens tree (long learn order) (tree.predictIn learn tokens order)) :
    Compared tokens (long learn order) := by
  by_cases hnan : tokens.lastBrightness = .nan
  · by_cases hd : Disagree (long learn order)
    · exact .inr (.inl hd)
    · refine .inr (.inr fun entry hentry => ?_)
      have hflag : (tree.predictIn learn tokens order).2.2.2 = false :=
        Bool.eq_false_iff.mpr fun hflag => hd (h.disagreed.mp hflag)
      have hanswer := (answer_of_agree tokens hd).1 entry hentry (by rw [hnan]; rfl)
      have hnone := h.none hflag (.inr (by rw [hnan, Floating.lt_nan]))
      unfold predictIn at hnone
      dsimp only at hnone
      rwa [hanswer] at hnone
  · exact .inl hnan

/-- An order that is noticed, under a brightness that is compared, reaches the verdict. -/
theorem Noticed.verdict {learn : Learning} {tokens : Cut} {tree : Tree}
    {order : List (String × Leaf)} (h : Noticed (long learn order))
    (hcompared : Compared tokens (long learn order)) :
    Verdict tokens tree (long learn order) (tree.predictIn learn tokens order) where
  disagreed := by
    rw [disagreed_predictIn]
    -- the walk finds a disagreement exactly where a leaf dissents
    rcases h with hagree | ⟨⟨entry, hdissents⟩, hlight⟩
    · exact iff_of_false (fun ⟨entry, he⟩ => hagree he.disagree) hagree
    · exact iff_of_true ⟨entry, hdissents⟩ hdissents.disagree
  agreed := by
    intro hfalse entry hentry hbright
    have hmean := mean_ne_nan (List.ne_nil_of_mem hentry)
    have hnumber : tokens.lastBrightness ≠ .nan := by
      rintro hnan
      rw [hnan, Floating.lt_nan] at hbright
      cases hbright
    have hdim : tokens.lastBrightness.le (mean (light (long learn order))) = false := by
      rw [← Bool.not_eq_true, ← Floating.lt_eq_false_iff hmean hnumber, hbright]
      exact Bool.true_eq_false.mp
    unfold predictIn
    dsimp only
    rw [(answer_of_agree tokens (h.agree hfalse)).1 entry hentry hdim]
    exact ⟨rfl, rfl⟩
  none := by
    intro hfalse hnone
    have hanswer := answer_of_agree tokens (h.agree hfalse)
    unfold predictIn
    dsimp only
    by_cases hempty : light (long learn order) = []
    · rw [hanswer.2 (.inl hempty)]
    · cases hdim : tokens.lastBrightness.le (mean (light (long learn order))) with
      | true => rw [hanswer.2 (.inr hdim)]
      | false =>
        -- neither above nor up to the mean: the brightness is no number
        have hnan : tokens.lastBrightness = .nan := by
          by_contra hnumber
          have hle := (Floating.lt_eq_false_iff (mean_ne_nan hempty) hnumber).mp
            (hnone.resolve_left hempty)
          rw [hdim] at hle
          cases hle
        obtain ⟨entry, hentry⟩ := List.exists_mem_of_ne_nil _ hempty
        rw [hanswer.1 entry hentry hdim]
        rcases hcompared with hnumber | hd | hunknown
        · exact absurd hnan hnumber
        · exact absurd hd (h.agree hfalse)
        · exact hunknown entry hentry
  pruned := by
    intro path
    constructor
    · -- no heavy leaf dissents, so every heavy leaf is marked
      rintro ⟨leaf, hin, hheavy⟩
      rcases get_predictIn learn tokens order tree path with ⟨-, hgone⟩ | ⟨hnot, -⟩
      · exact hgone
      · obtain ⟨before, after, hsplit⟩ := List.append_of_mem hin
        refine absurd ⟨before, leaf, after, hsplit, hheavy, ?_⟩ hnot
        by_contra hlead
        rw [not_or] at hlead
        have hdissents : Dissents (long learn order) (path, leaf) := ⟨before, after, hsplit, hlead⟩
        exact not_le.mpr hheavy (h.resistance_le hdissents)
    · intro hnone
      rcases get_predictIn learn tokens order tree path with
        ⟨⟨before, leaf, after, hsplit, hheavy, -⟩, -⟩ | ⟨-, hkept⟩
      · refine absurd ⟨leaf, ?_, hheavy⟩ hnone
        rw [hsplit]
        exact List.mem_append_right before List.mem_cons_self
      · exact hkept

/-! ## Every order -/

/-- Where no leaf dissents, the known actions are the one that leads. -/
theorem known_eq_leading {entries : List (String × Leaf)}
    (h : ¬ ∃ entry, Dissents entries entry) {entry : String × Leaf} (hentry : entry ∈ entries)
    (hknown : Action.new entry.2.action ≠ .none) :
    Action.new entry.2.action = leading .none entries := by
  obtain ⟨before, after, rfl⟩ := List.append_of_mem hentry
  rw [leading_append]
  show _ = leading (if leading .none before = .none then Action.new entry.2.action
    else leading .none before) after
  split
  · exact (leading_known hknown after).symm
  · rename_i hled
    rw [leading_known hled]
    by_contra hne
    exact h ⟨entry, before, after, rfl, hled, Ne.symm hne⟩

theorem long_perm {learn : Learning} {order visited : List (String × Leaf)}
    (h : order.Perm visited) : (long learn order).Perm (long learn visited) := h.filter _

/-- If a disagreement is noticed with the leaves of unknown action first, it is one
between two known actions. -/
theorem exists_known {learn : Learning} {visited : List (String × Leaf)}
    (hd : Disagree (long learn visited))
    (h : ∀ order : List (String × Leaf), order.Perm visited → Noticed (long learn order)) :
    ∃ a ∈ long learn visited, ∃ b ∈ long learn visited, Action.new a.2.action ≠ .none ∧
      Action.new b.2.action ≠ .none ∧ Action.new a.2.action ≠ Action.new b.2.action := by
  -- put the leaves without a known action first: they cannot lead
  let unknown : String × Leaf → Bool := fun entry => Action.new entry.2.action = .none
  have hperm := List.filter_append_perm unknown visited
  -- in this order too the walk must notice, so a known leaf dissents from a known one
  rcases h _ hperm with hagree | ⟨⟨entry, before, after, hsplit, hled, hother⟩, -⟩
  · exact absurd (hd.perm (long_perm hperm).symm) hagree
  obtain ⟨first, hfirst, hlead⟩ := exists_of_leading hled
  rw [hlead] at hled hother
  refine ⟨first, ?_, entry, ?_, hled, ?_, hother⟩
  · refine (long_perm hperm).mem_iff.mp ?_
    rw [hsplit]
    exact List.mem_append_left _ hfirst
  · refine (long_perm hperm).mem_iff.mp ?_
    rw [hsplit]
    exact List.mem_append_right before List.mem_cons_self
  · intro hnone
    unfold long at hsplit
    rw [List.filter_append] at hsplit
    rcases List.append_eq_append_iff.mp hsplit with ⟨rest, -, hrest⟩ | ⟨rest, hrest, -⟩
    · have hin : entry ∈ rest ++ entry :: after :=
        List.mem_append_right rest List.mem_cons_self
      rw [← hrest] at hin
      have hnot := (List.mem_filter.mp (List.mem_of_mem_filter hin)).2
      exact absurd hnone (by simpa [unknown] using hnot)
    · have hin : first ∈ before ++ rest := List.mem_append_left rest hfirst
      rw [← hrest] at hin
      have hin' := (List.mem_filter.mp (List.mem_of_mem_filter hin)).2
      exact hled (by simpa [unknown] using hin')

/-- A leaf of known action that contradicts another one comes first in some order,
in which that other one dissents. -/
theorem exists_order {learn : Learning} {visited : List (String × Leaf)}
    {x entry : String × Leaf} (hx : x ∈ long learn visited) (hentry : entry ∈ long learn visited)
    (hknown : Action.new x.2.action ≠ .none)
    (hother : Action.new x.2.action ≠ Action.new entry.2.action) :
    ∃ order : List (String × Leaf), order.Perm visited ∧ Dissents (long learn order) entry := by
  have hperm := List.perm_cons_erase (List.mem_of_mem_filter hx)
  have hcons : long learn (x :: visited.erase x) = x :: long learn (visited.erase x) :=
    List.filter_cons_of_pos (List.mem_filter.mp hx).2
  have hentry' : entry ∈ long learn (visited.erase x) := by
    have hin := (long_perm hperm.symm).mem_iff.mpr hentry
    rw [hcons, List.mem_cons] at hin
    exact hin.resolve_left fun h' => hother (by rw [h'])
  obtain ⟨before, after, hsplit⟩ := List.append_of_mem hentry'
  have hlead : leading .none (x :: before) = Action.new x.2.action := by
    unfold leading
    rw [if_pos rfl, leading_known hknown]
  exact ⟨_, hperm.symm, x :: before, after, by rw [hcons, hsplit]; rfl, by rwa [hlead],
    by rwa [hlead]⟩

/-- Every order of some leaves notices a disagreement among them exactly if the
condition on the leaves alone holds. -/
theorem noticed_perm_iff {learn : Learning} {visited : List (String × Leaf)} :
    (∀ order : List (String × Leaf), order.Perm visited → Noticed (long learn order)) ↔
      NoticedInAnyOrder (long learn visited) := by
  constructor
  · intro h
    by_cases hd : Disagree (long learn visited)
    · refine .inr ⟨exists_known hd h, fun entry hentry => ?_⟩
      obtain ⟨a, ha, b, hb, hka, hkb, hne⟩ := exists_known hd h
      -- one of the two contradicts this leaf
      obtain ⟨order, hperm, hdissents⟩ : ∃ order : List (String × Leaf), order.Perm visited ∧
          Dissents (long learn order) entry := by
        by_cases heq : Action.new a.2.action = Action.new entry.2.action
        · exact exists_order hb hentry hkb fun h' => hne (by rw [heq, h'])
        · exact exists_order ha hentry hka heq
      exact (h order hperm).resistance_le hdissents
    · exact .inl hd
  · rintro (hagree | ⟨⟨a, ha, b, hb, hka, hkb, hne⟩, hlight⟩) order hperm
    · exact .inl fun hd => hagree (hd.perm (long_perm hperm))
    · refine .inr ⟨?_, ?_⟩
      · by_contra hno
        refine hne ?_
        rw [known_eq_leading hno ((long_perm hperm).mem_iff.mpr ha) hka,
          known_eq_leading hno ((long_perm hperm).mem_iff.mpr hb) hkb]
      · rintro entry ⟨before, after, hsplit, -⟩
        refine hlight entry ((long_perm hperm).mem_iff.mp ?_)
        rw [hsplit]
        exact List.mem_append_right before List.mem_cons_self

theorem nodup_keys (tree : Tree) : (tree.root.map Prod.fst).Nodup :=
  List.pairwise_map.mpr (tree.ascending.imp fun h => h.ne)

/-- Whether the brightness is compared does not depend on the order. -/
theorem Compared.perm {tokens : Cut} {entries entries' : List (String × Leaf)}
    (h : entries.Perm entries') (hcompared : Compared tokens entries) :
    Compared tokens entries' := by
  rcases hcompared with hnumber | hd | hunknown
  · exact .inl hnumber
  · exact .inr (.inl (hd.perm h))
  · exact .inr (.inr fun entry hentry => hunknown entry ((light_perm h).mem_iff.mpr hentry))

/-- `Predict` reaches the verdict exactly if the leaves under the cut agree, or one
of them dissents and no leaf that dissents is heavy, and the brightness is compared;
and it does so in whatever order the keys are visited exactly if they agree, or two
of them name different known actions and none is heavy, and the brightness is
compared. -/
theorem verdict_iff (learn : Learning) (tokens : Cut) (tree : Tree)
    (hlen : learn.minPathLength ≤ tokens.len) :
    (Verdict tokens tree (tree.seen learn tokens) (tree.predict learn tokens) ↔
      Noticed (tree.seen learn tokens) ∧ Compared tokens (tree.seen learn tokens)) ∧
    ((∀ order : List (String × Leaf), order.Perm (tree.visited tokens) →
        Verdict tokens tree (long learn order) (tree.predictIn learn tokens order)) ↔
      NoticedInAnyOrder (tree.seen learn tokens) ∧
        Compared tokens (tree.seen learn tokens)) := by
  -- for one order of the visits; both parts are this at the order of the tree and at any other
  have hvisited : ∀ order : List (String × Leaf), order.Perm (tree.visited tokens) →
      (Verdict tokens tree (long learn order) (tree.predictIn learn tokens order) ↔
        Noticed (long learn order) ∧ Compared tokens (long learn order)) := by
    intro order hperm
    have hvisits : ((tree.visited tokens).map Prod.fst).Nodup :=
      (List.filter_sublist.map Prod.fst).nodup tree.nodup_keys
    -- no key is visited twice
    have hkeys : ((long learn order).map Prod.fst).Nodup :=
      (List.filter_sublist.map Prod.fst).nodup ((hperm.map Prod.fst).nodup_iff.mpr hvisits)
    have hroot : ∀ entry ∈ long learn order, entry ∈ tree.root := fun entry hentry =>
      List.mem_of_mem_filter (hperm.mem_iff.mp (List.mem_of_mem_filter hentry))
    exact ⟨fun h => ⟨noticed_of_verdict hkeys hroot h, compared_of_verdict h⟩,
      fun h => h.1.verdict h.2⟩
  constructor
  · rw [predict_eq_predictIn hlen, ← long_visited, hvisited _ (List.Perm.refl _)]
  · rw [← long_visited, ← noticed_perm_iff]
    constructor
    · intro h
      exact ⟨fun order hperm => ((hvisited order hperm).mp (h order hperm)).1,
        ((hvisited _ (List.Perm.refl _)).mp (h _ (List.Perm.refl _))).2⟩
    · rintro ⟨hnoticed, hcompared⟩ order hperm
      exact (hvisited order hperm).mpr
        ⟨hnoticed order hperm, hcompared.perm (long_perm hperm).symm⟩

/-- A light leaf and, behind it, a heavy one of another action. -/
def heavyBehind : Tree where
  root := [("a/b", ⟨"enter", "a/b", 1 / 2⟩), ("a/b/c", ⟨"exit", "a/b/c", 9 / 10⟩)]
  ascending := by
    unfold Ascending
    decide +kernel

/-- A heavy leaf and a light one of the same action. -/
def heavyBeside : Tree where
  root := [("a/b", ⟨"enter", "a/b", 9 / 10⟩), ("a/b/c", ⟨"enter", "a/b/c", 1 / 2⟩)]
  ascending := by
    unfold Ascending
    decide +kernel

/-- The leaves agree: the heavy one is pruned and the other gives the answer. -/
theorem verdict_sample : Verdict ⟨"a/b", 2, .finite 1⟩ heavyBeside
    (heavyBeside.seen Cfg.defaults.learning ⟨"a/b", 2, .finite 1⟩)
    (heavyBeside.predict Cfg.defaults.learning ⟨"a/b", 2, .finite 1⟩) := by
  refine (verdict_iff Cfg.defaults.learning ⟨"a/b", 2, .finite 1⟩ heavyBeside
    (by decide)).1.mpr ⟨.inl ?_, .inl nofun⟩
  unfold Disagree
  decide +kernel

/-- The heavy leaf dissents and is left in the tree. -/
theorem heavy_survives : ¬ ∀ (learn : Learning) (tokens : Cut) (tree : Tree),
    learn.minPathLength ≤ tokens.len →
    Verdict tokens tree (tree.seen learn tokens) (tree.predict learn tokens) ∧
      ∀ order : List (String × Leaf), order.Perm (tree.visited tokens) →
        Verdict tokens tree (long learn order) (tree.predictIn learn tokens order) := by
  intro h
  have hpruned := ((h Cfg.defaults.learning ⟨"a/b", 2, .finite 1⟩ heavyBehind
    (by decide)).1.pruned "a/b/c").1 ⟨⟨"exit", "a/b/c", 9 / 10⟩, by decide +kernel, by decide +kernel⟩
  have hkept : ¬ (heavyBehind.predict Cfg.defaults.learning ⟨"a/b", 2, .finite 1⟩).1.get
      "a/b/c" = none := by
    decide +kernel
  exact hkept hpruned

end Tree

end Symm.Strategy
