import Symm.Tokenizer.Sequencer
import Symm.Tokenizer.Views

/-!
# The grammar a restart rebuilds

`restoreGrammar` learns the rules in the order of their ids and puts the root
back symbol by symbol.

- `Learned s k g`: `g` has learnt the rules of `s` up to id `k`;
- `firstAt`, `indexOf`: the digram index a root rebuilt from its symbols has;
- `Standing g l syms r`: the root holds `syms` at `l` over the rules of `g`;
- `Inv.rebuilt`: what becomes of a sound grammar that was published.

The views are in the order of the ids, so a rule is learnt after the rules that its body
refers to, and it gets its own id back: an invariant of the published grammar gives that
no digram is learnt twice (`learn_next`). For the root, `indexOf` describes the index
after any number of symbols: each digram without a rule at its first place. One more
symbol adds one pair, which is looked at last (`indexOf_concat`).

What is rebuilt has the rules and the root symbols of what was published. Its index is
one of its own that fits this root, not the one that was lost, and this is all that the
modules on restarts know of it.
-/

namespace Symm.Tokenizer

open Symm.Lib

namespace Sequitur

/-! ## Learning the rules -/

/-- A rule under the next id is added as it was published. -/
theorem learn_next {r : Sequitur} {id : ℕ} {symbols : List String} {u v : Symbol} (hpos : 0 < id)
    (hnext : r.nextID = id) (h : r.ruleOf id = none) (hsyms : symbols.map parseDisplay = [u, v])
    (count : ℤ) :
    r.learn id count symbols =
      { r.setRule { id := id, count := if count < 2 then 2 else count, body := [u, v] } with
        ruleByDigram := Function.update r.ruleByDigram (u, v) (some id)
        nextID := id + 1 } := by
  have hne : ¬ ((id : ℤ) ≤ 0 ∨ symbols = []) := by
    rintro (hle | rfl)
    · omega
    · cases hsyms
  unfold learn
  rw [if_neg hne, Int.toNat_natCast, h, hsyms]
  dsimp only
  rw [if_pos]
  · rfl
  · exact hnext.le

/-- The rules of `s` with ids up to `k` have been learnt. -/
structure Learned (s : Sequitur) (k : ℕ) (g : Sequitur) : Prop where
  shape : Shape g []
  nextID : g.nextID = k + 1
  taken : ∀ id, (g.ruleOf id).isSome ↔ 0 < id ∧ id ≤ k
  ruled : ∀ d id, g.ruleByDigram d = some id ↔ s.ruleByDigram d = some id ∧ id ≤ k

namespace Learned

variable {ok : String → Prop} {s g : Sequitur} {k : ℕ} {rule : Rule} {view : RuleView}

/-- Before any rule was learnt, nothing has been. -/
theorem new (h : Sound ok s) : Learned s 0 Sequitur.new where
  shape := shape_new
  nextID := rfl
  taken := fun id => iff_of_false Bool.false_ne_true (by omega)
  ruled := by
    intro d id
    refine iff_of_false (Option.some_ne_none id).symm ?_
    rintro ⟨hd, hle⟩
    have := (h.taken_body (h.ruled d id hd)).1
    omega

/-- The next rule is learnt as it was. -/
theorem learn (h : Sound ok s) (hok : ∀ t, ok t → Plain t ∧ displayRuleID t = none)
    (hg : Learned s k g) (hr : rule ∈ s.rules) (hid : rule.id = k + 1)
    (hv : Sound.Shows rule view) : Learned s (k + 1) (g.learn view.id view.count view.symbols) := by
  obtain ⟨u, v, hbody, -, -, hruled⟩ := h.body_of_mem hr
  have hread := hbody ▸ hv.read hok (h.known_body hr)
  have hnone : g.ruleOf (k + 1) = none := by
    rw [← Option.not_isSome_iff_eq_none, hg.taken]
    omega
  rw [hv.1, hid, learn_next (Nat.succ_pos k) hg.nextID hnone hread]
  generalize (if view.count < 2 then 2 else view.count) = count
  refine ⟨hg.shape.of_eq rfl rfl rfl rfl rfl rfl, rfl, fun id => ?_, fun d id => ?_⟩
  · have htaken := ruleOf_setRule_isSome g { id := k + 1, count := count, body := [u, v] } id
    refine Iff.trans htaken ?_
    rw [hg.taken]
    show id = k + 1 ∨ _ ↔ _
    omega
  · show Function.update g.ruleByDigram (u, v) (some (k + 1)) d = some id ↔ _
    rw [hid] at hruled
    by_cases hd : d = (u, v)
    · rw [hd, Function.update_self, hruled]
      constructor
      · intro heq
        exact ⟨heq, (Option.some.inj heq).ge⟩
      · exact And.left
    · rw [Function.update_of_ne hd, hg.ruled]
      refine and_congr_right fun hs => ?_
      -- no other digram has this id
      have hnew : id ≠ k + 1 := by
        rintro rfl
        have hb := h.ruled d _ hs
        rw [h.ruled _ _ hruled, Option.some.injEq] at hb
        injection hb with h1 h2
        injection h2 with h2
        exact hd (Prod.ext h1.symm h2.symm)
      omega

/-- A stretch of the views is learnt one after another. -/
theorem fold (h : Sound ok s) (hok : ∀ t, ok t → Plain t ∧ displayRuleID t = none)
    (hg : Learned s k g) {rules : List Rule} {views : List RuleView} (hsub : rules ⊆ s.rules)
    (hids : rules.map Rule.id = List.range' (k + 1) rules.length)
    (hshows : rules.Forall₂ Sound.Shows views) :
    Learned s (k + rules.length)
      (views.foldl (fun g view => g.learn view.id view.count view.symbols) g) := by
  induction hshows generalizing k g with
  | nil => exact hg
  | @cons rule view rules views hv _ ih =>
    rw [List.map_cons, List.length_cons, List.range'_succ] at hids
    injection hids with hid hrest
    have hstep := hg.learn h hok (hsub List.mem_cons_self) hid hv
    have hlast := ih hstep (fun r hr => hsub (List.mem_cons_of_mem _ hr)) hrest
    rw [List.foldl_cons, List.length_cons]
    rw [show k + (rules.length + 1) = k + 1 + rules.length by omega]
    exact hlast

/-- All rules have been learnt. -/
theorem all (h : Sound ok s) (hok : ∀ t, ok t → Plain t ∧ displayRuleID t = none)
    {views : List RuleView} (hshows : s.rules.Forall₂ Sound.Shows views) :
    Learned s (s.nextID - 1)
      (views.foldl (fun g view => g.learn view.id view.count view.symbols) Sequitur.new) := by
  have hids : s.rules.map Rule.id = List.range' (0 + 1) s.rules.length := by
    rw [h.ids, h.length_rules]
  have hlast := (Learned.new h).fold h hok (List.Subset.refl _) hids hshows
  rwa [Nat.zero_add, h.length_rules] at hlast

/-- With all rules learnt, the digrams have the rules they had. -/
theorem ruleByDigram_eq (h : Sound ok s) (hg : Learned s (s.nextID - 1) g) :
    g.ruleByDigram = s.ruleByDigram := by
  funext d
  refine Option.ext fun id => ?_
  rw [hg.ruled]
  refine and_iff_left_of_imp fun hd => ?_
  have := (h.taken_body (h.ruled d id hd)).2
  omega

theorem isSome_eq (h : Sound ok s) (hg : Learned s (s.nextID - 1) g) (id : ℕ) :
    (s.ruleOf id).isSome = (g.ruleOf id).isSome := by
  have := h.pos
  rw [Bool.eq_iff_iff, h.taken, hg.taken]
  omega

end Learned

/-! ## The index of a rebuilt root -/

/-- The first pair of adjacent nodes that holds the digram. -/
def firstAt (val : Ptr → Symbol) : List Ptr → Digram → Option Ptr
  | p :: q :: rest, d => if (val p, val q) = d then some p else firstAt val (q :: rest) d
  | _, _ => none

/-- The first place of a digram depends on the symbols of the root alone. -/
theorem firstAt_congr {val val' : Ptr → Symbol} {l : List Ptr} (h : ∀ p ∈ l, val p = val' p)
    (d : Digram) : firstAt val l d = firstAt val' l d := by
  induction l with
  | nil => rfl
  | cons p rest ih =>
    cases rest with
    | nil => rfl
    | cons q rest =>
      have htail := ih fun r hr => h r (List.mem_cons_of_mem _ hr)
      rw [firstAt, firstAt, htail, h p (by simp), h q (by simp)]

/-- A node behind the last one adds one pair, looked at last. -/
theorem firstAt_concat (val : Ptr → Symbol) (pre : List Ptr) (m n : Ptr) (d : Digram) :
    firstAt val (pre ++ [m, n]) d =
      (firstAt val (pre ++ [m]) d).or (if (val m, val n) = d then some m else none) := by
  induction pre with
  | nil =>
    show (if (val m, val n) = d then some m else none) = _
    rfl
  | cons p pre ih =>
    -- the pair at the front is the same with and without the last node
    cases pre with
    | nil =>
      show (if (val p, val m) = d then some p else firstAt val [m, n] d) =
        (if (val p, val m) = d then some p else none).or _
      by_cases hd : (val p, val m) = d
      · rw [if_pos hd, if_pos hd, Option.some_or]
      · rw [if_neg hd, if_neg hd, Option.none_or]
        rfl
    | cons q pre =>
      show (if (val p, val q) = d then some p else firstAt val (q :: pre ++ [m, n]) d) =
        (if (val p, val q) = d then some p else firstAt val (q :: pre ++ [m]) d).or _
      by_cases hd : (val p, val q) = d
      · rw [if_pos hd, if_pos hd, Option.some_or]
      · rw [if_neg hd, if_neg hd]
        exact ih

/-- Roots with the same symbols have the digram first at facing nodes. -/
theorem firstAt_facing {val val' : Ptr → Symbol} {l l' : List Ptr}
    (h : l.map val = l'.map val') (d : Digram) :
    Option.Rel (Facing l l') (firstAt val l d) (firstAt val' l' d) := by
  induction l generalizing l' with
  | nil =>
    obtain rfl := List.map_eq_nil_iff.mp h.symm
    exact .none
  | cons p rest ih =>
    obtain ⟨p', rest', rfl, hp, hrest⟩ := List.map_eq_cons_iff.mp h.symm
    have htail := ih hrest.symm
    cases rest with
    | nil =>
      obtain rfl := List.map_eq_nil_iff.mp hrest
      exact .none
    | cons q rest =>
      obtain ⟨q', rest', rfl, hq, -⟩ := List.map_eq_cons_iff.mp hrest
      rw [firstAt, firstAt, hp, hq]
      by_cases hd : (val p, val q) = d
      · rw [if_pos hd, if_pos hd]
        exact .some (facing_head p p')
      · rw [if_neg hd, if_neg hd]
        generalize firstAt val (q :: rest) d = e, firstAt val' (q' :: rest') d = e' at htail
        cases htail with
        | none => exact .none
        | some hfacing => exact .some (hfacing.cons p p')

/-- The index of a root over `l`: each digram without a rule at its first pair. -/
def indexOf (s : Sequitur) (l : List Ptr) (d : Digram) : Option Ptr :=
  if s.ruleByDigram d = none then firstAt s.val l d else none

/-- A node behind the last one adds its pair to the index, unless the digram has
a rule or an earlier place. -/
theorem indexOf_concat (s : Sequitur) (pre : List Ptr) (m n : Ptr) (d : Digram) :
    indexOf s (pre ++ [m, n]) d =
      if s.ruleByDigram d = none ∧ indexOf s (pre ++ [m]) d = none ∧ (s.val m, s.val n) = d
      then some m else indexOf s (pre ++ [m]) d := by
  unfold indexOf
  by_cases hruled : s.ruleByDigram d = none
  · rw [if_pos hruled, if_pos hruled, firstAt_concat]
    cases hfirst : firstAt s.val (pre ++ [m]) d with
    | some first =>
      rw [Option.some_or, if_neg]
      exact fun hall => Option.some_ne_none first hall.2.1
    | none =>
      rw [Option.none_or]
      by_cases hd : (s.val m, s.val n) = d
      · rw [if_pos hd, if_pos ⟨hruled, rfl, hd⟩]
      · rw [if_neg hd, if_neg fun hall => hd hall.2.2]
  · rw [if_neg hruled, if_neg hruled, if_neg fun hall => hruled hall.1]

/-- The first place of a digram is a pair of the list. -/
theorem firstAt_eq_some {val : Ptr → Symbol} {l : List Ptr} {d : Digram} {m : Ptr}
    (h : firstAt val l d = some m) :
    ∃ pre n post, l = pre ++ m :: n :: post ∧ d = (val m, val n) := by
  induction l with
  | nil => cases h
  | cons p rest ih =>
    cases rest with
    | nil => cases h
    | cons q rest =>
      rw [firstAt] at h
      by_cases hd : (val p, val q) = d
      · rw [if_pos hd] at h
        obtain rfl := Option.some.inj h
        exact ⟨[], q, rest, rfl, hd.symm⟩
      · rw [if_neg hd] at h
        obtain ⟨pre, n, post, hl, hkey⟩ := ih h
        exact ⟨p :: pre, n, post, by rw [hl, List.cons_append], hkey⟩

/-- The rebuilt index fits the root it is rebuilt from. -/
theorem Shape.reindexed {s : Sequitur} {l : List Ptr} (h : Shape s l) :
    Shape { s with digrams := indexOf s l } l := by
  refine ⟨h.ring, h.alloc, h.fresh, h.length, h.blank, h.filled, fun d m hm => ?_⟩
  have hfirst : firstAt s.val l d = some m := by
    have hm' : (if s.ruleByDigram d = none then firstAt s.val l d else none) = some m := hm
    split at hm'
    · exact hm'
    · cases hm'
  obtain ⟨pre, n, post, rfl, rfl⟩ := firstAt_eq_some hfirst
  have hnext : s.next m = n := h.ring.next_pair
  refine ⟨by simp, ?_, ?_⟩
  · show s.next m ≠ sentinel
    rw [hnext]
    exact h.ne_sentinel (by simp)
  · show (s.val m, s.val n) = (s.val m, s.val (s.next m))
    rw [hnext]

/-! ## Putting the root back -/

/-- The root of `r.1` holds `syms` at the nodes `l`, over the rules of `g`, and
`r.2` is the last of them. -/
structure Standing (g : Sequitur) (l : List Ptr) (syms : List Symbol) (r : Sequitur × Ptr) :
    Prop where
  shape : Shape r.1 l
  symbols : l.map r.1.val = syms
  last : r.2 = l.getLastD nil
  index : ∀ d, r.1.digrams d = indexOf r.1 l d
  nextID : r.1.nextID = g.nextID
  rules : r.1.rules = g.rules
  ruleByDigram : r.1.ruleByDigram = g.ruleByDigram

/-- The entry `RestoreRoot` writes for the pair that ends at the new node. -/
theorem index_last {t : Sequitur} {l : List Ptr} {n prev : Ptr} (ht : Shape t (l ++ [n]))
    (hlast : prev = l.getLastD nil) (hindex : ∀ d, t.digrams d = indexOf t l d) :
    ∃ D, (if prev ≠ nil ∧ t.ruleByDigram (t.val prev, t.val n) = none ∧
          t.digrams (t.val prev, t.val n) = none then
        { t with digrams := Function.update t.digrams (t.val prev, t.val n) (some prev) }
      else t) = { t with digrams := D } ∧
      Shape { t with digrams := D } (l ++ [n]) ∧ ∀ d, D d = indexOf t (l ++ [n]) d := by
  cases l using List.reverseRecOn with
  | nil =>
    -- the first node ends no pair
    refine ⟨t.digrams, ?_, ht, hindex⟩
    rw [if_neg]
    exact fun hall => hall.1 hlast
  | append_singleton pre m =>
    obtain rfl : prev = m := hlast.trans (by rw [List.getLastD_concat])
    rw [List.append_assoc, List.singleton_append] at ht ⊢
    have hm : prev ∈ pre ++ [prev, n] := by simp
    have hnil : prev ≠ nil := ht.ne_nil (List.mem_cons_of_mem _ hm)
    have hnext : t.next prev = n := ht.ring.next_pair
    have hconcat := indexOf_concat t pre prev n
    by_cases hnew : t.ruleByDigram (t.val prev, t.val n) = none ∧
        t.digrams (t.val prev, t.val n) = none
    · rw [if_pos ⟨hnil, hnew⟩]
      refine ⟨_, rfl, ?_, fun d => ?_⟩
      · have hindexed := ht.indexed hm (by rw [hnext]; exact ht.ne_sentinel (by simp))
        rwa [hnext] at hindexed
      · rw [hconcat]
        by_cases hd : (t.val prev, t.val n) = d
        · subst hd
          rw [Function.update_self, if_pos ⟨hnew.1, (hindex _).symm.trans hnew.2, rfl⟩]
        · rw [Function.update_of_ne (Ne.symm hd), if_neg fun hall => hd hall.2.2]
          exact hindex d
    · rw [if_neg fun hall => hnew hall.2]
      refine ⟨t.digrams, rfl, ht, fun d => ?_⟩
      rw [hconcat, if_neg, hindex]
      rintro ⟨hruled, hfree, rfl⟩
      exact hnew ⟨hruled, (hindex _).trans hfree⟩

namespace Standing

variable {g : Sequitur} {l : List Ptr} {syms : List Symbol} {r : Sequitur × Ptr}

/-- An empty root is where restoring it begins. -/
theorem sentence (h : Shape g l) : Standing g [] [] (g.sentence, nil) where
  shape := h.sentence
  symbols := rfl
  last := rfl
  index := by
    intro d
    show none = if _ then none else none
    rw [ite_self]
  nextID := rfl
  rules := rfl
  ruleByDigram := rfl

/-- The next symbol of the root takes its place behind the last one. -/
theorem restoreNode (h : Standing g l syms r) {sym : Symbol} (hne : sym ≠ "")
    (hshow : display sym ≠ "") (hread : parseDisplay (display sym) = sym) :
    Standing g (l ++ [r.1.fresh]) (syms ++ [sym]) (Sequitur.restoreNode r (display sym)) := by
  have hold : ∀ p ∈ l, (r.1.appendNode sym).val p = r.1.val p := by
    intro p hp
    rw [val_appendNode, Function.update_of_ne (h.shape.alloc p hp).2.ne]
  have hshape : Shape { r.1.appendNode sym with length := (r.1.appendNode sym).length + 1 }
      (l ++ [r.1.fresh]) := (h.shape.append hne).of_eq rfl rfl rfl rfl rfl rfl
  -- the older pairs read as before
  have hindex : ∀ d, r.1.digrams d = indexOf
      { r.1.appendNode sym with length := (r.1.appendNode sym).length + 1 } l d := by
    intro d
    rw [h.index d]
    unfold indexOf
    rw [firstAt_congr (fun p hp => (hold p hp).symm) d]
    rfl
  obtain ⟨D, hD, hshapeD, hindexD⟩ := index_last hshape h.last hindex
  unfold Sequitur.restoreNode
  rw [if_neg hshow, hread]
  dsimp only at hD ⊢
  rw [hD]
  refine ⟨hshapeD, ?_, ?_, hindexD, h.nextID, h.rules, h.ruleByDigram⟩
  · show (l ++ [r.1.fresh]).map (r.1.appendNode sym).val = syms ++ [sym]
    rw [h.shape.map_append, h.symbols]
  · rw [List.getLastD_concat]

/-- A whole root is put back. -/
theorem fold (h : Standing g l syms r) {ok : String → Prop}
    (hok : ∀ t, ok t → t ≠ "" ∧ Plain t ∧ displayRuleID t = none) {n : ℕ} {more : List Symbol}
    (hknown : ∀ sym ∈ more, Known ok n sym) :
    ∃ l', Standing g l' (syms ++ more) ((more.map display).foldl Sequitur.restoreNode r) := by
  induction more generalizing l syms r with
  | nil => exact ⟨l, by rwa [List.append_nil]⟩
  | cons sym more ih =>
    have hsym := hknown sym List.mem_cons_self
    have hstep := h.restoreNode (hsym.ne_empty fun t ht => ⟨(hok t ht).1, (hok t ht).2.1⟩)
      (hsym.display_ne_empty fun t ht => ⟨(hok t ht).1, (hok t ht).2.1⟩)
      (hsym.parseDisplay_display fun t ht => (hok t ht).2)
    obtain ⟨l', hl'⟩ := ih hstep fun s hs => hknown s (List.mem_cons_of_mem _ hs)
    refine ⟨l', ?_⟩
    rw [List.append_assoc, List.singleton_append] at hl'
    exact hl'

end Standing

/-! ## The whole restart -/

/-- `t` has the rules and the root symbols of `s`, and the index that goes with
them. -/
structure Rebuilt (s : Sequitur) (l : List Ptr) (t : Sequitur) (l' : List Ptr) : Prop where
  shape : Shape t l'
  symbols : l'.map t.val = l.map s.val
  index : ∀ d, t.digrams d = indexOf t l' d
  nextID : t.nextID = s.nextID
  rules : ∀ id, (s.ruleOf id).isSome = (t.ruleOf id).isSome
  ruleByDigram : t.ruleByDigram = s.ruleByDigram

/-- A sound grammar can be published, and what was published is rebuilt. -/
theorem Inv.rebuilt {ok : String → Prop} {s : Sequitur} {l : List Ptr} {ts : List String}
    (hok : ∀ t, ok t → t ≠ "" ∧ Plain t ∧ displayRuleID t = none) (h : Inv ok s l ts) :
    ∃ views l', s.ruleViews = some views ∧
      Rebuilt s l (restoreGrammar Sequitur.new s.rootSequence views) l' := by
  obtain ⟨views, hviews, hshows⟩ := h.sound.ruleViews fun t ht => (hok t ht).2.1
  have hall := Learned.all h.sound (fun t ht => (hok t ht).2) hshows
  have hknown : ∀ sym ∈ l.map s.val, Known ok s.nextID sym := by
    intro sym hsym
    obtain ⟨p, hp, rfl⟩ := List.mem_map.mp hsym
    exact h.known p hp
  obtain ⟨l', hl'⟩ := (Standing.sentence hall.shape).fold hok hknown
  rw [List.nil_append] at hl'
  refine ⟨views, l', hviews, ?_⟩
  unfold restoreGrammar restoreRoot
  rw [h.shape.rootSequence]
  refine ⟨hl'.shape, hl'.symbols, hl'.index, ?_, fun id => ?_, ?_⟩
  · have := h.sound.pos
    rw [hl'.nextID, hall.nextID]
    omega
  · rw [hall.isSome_eq h.sound, ruleOf, ruleOf, hl'.rules]
  · rw [hl'.ruleByDigram, hall.ruleByDigram_eq h.sound]

end Sequitur

end Symm.Tokenizer
