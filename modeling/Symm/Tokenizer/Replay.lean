import Symm.Tokenizer.References
import Symm.Tokenizer.Restart

/-!
# Replaying after a restart

A restart copies the rules and the root and rebuilds the digram index from the
root. Nothing else of a grammar matters for what comes after: two grammars whose
nodes correspond and whose indexes correspond make the same rules.

- `Recoverable`: the index is the one a restart rebuilds;
- `Replays`: equal rules and equal kinds, kept by alike grammars;
- `restart_replays`: a recoverable grammar and its restart give the same
  readings for ever.

A restart gives every node of the root a new address, in the order of the root, and
numbers new rules from where the old ones ended. So equal readings for ever is a
simulation: that the grammars are alike holds at first, each call keeps it, and no
reading sees more.
-/

namespace Symm.Tokenizer

open Symm.Lib

namespace Sequitur

/-! ## The rules after a restart -/

/-- The root is put back without touching the rules. -/
theorem rules_restoreRoot (s : Sequitur) (root : List String) :
    (s.restoreRoot root).rules = s.rules := by
  have hnode : ∀ (r : Sequitur × Ptr) (symbol : String),
      (restoreNode r symbol).1.rules = r.1.rules := by
    intro r symbol
    unfold restoreNode
    split
    · rfl
    · dsimp only
      split <;> rfl
  have hloop : ∀ r : Sequitur × Ptr, (root.foldl restoreNode r).1.rules = r.1.rules := by
    induction root with
    | nil => exact fun _ => rfl
    | cons symbol root ih => exact fun r => (ih _).trans (hnode r symbol)
  exact hloop _

namespace Merged

variable {ok : String → Prop} {g r : Sequitur} {k : ℕ}

/-- Learnt into an empty table, the rules stand as they stood. -/
theorem rules_fold (h : Merged ok Sequitur.new g k r) (hg : Sound ok g) (hn : Numbered g)
    (hok : ∀ t, ok t → Plain t ∧ displayRuleID t = none) {rules : List Rule}
    {views : List RuleView} (hsub : rules ⊆ g.rules)
    (hids : rules.map Rule.id = List.range' (k + 1) rules.length)
    (hshows : rules.Forall₂ Sound.Shows views) :
    (views.foldl (fun r view => r.learn view.id view.count view.symbols) r).rules =
      r.rules ++ rules := by
  induction hshows generalizing k r with
  | nil => exact (List.append_nil _).symm
  | @cons rule view rules views hv _ ih =>
    rw [List.map_cons, List.length_cons, List.range'_succ] at hids
    injection hids with hid hrest
    have hr : rule ∈ g.rules := hsub List.mem_cons_self
    have hnext : r.nextID = k + 1 := by
      rw [h.nextID]
      exact Nat.max_eq_right (Nat.succ_le_succ (Nat.zero_le k))
    have hstep := h.learn_new hg (Nat.succ_le_succ (Nat.zero_le k)) hok hr hid hv
    rw [List.foldl_cons, ih hstep (fun r hr => hsub (List.mem_cons_of_mem _ hr)) hrest]
    -- the count is two or more, so it is copied
    obtain ⟨u, v, hbody, -⟩ := hg.body_of_mem hr
    have hread := hbody ▸ hv.read hok (hg.known_body hr)
    obtain ⟨hvid, hvcount, -⟩ := hv
    have hnone : r.ruleOf (k + 1) = none := by
      rw [← Option.not_isSome_iff_eq_none, h.sound.taken]
      omega
    have hcount : ¬ view.count < 2 := by
      have := (hn rule hr).2
      omega
    rw [hvid, hid, learn_next (Nat.succ_pos k) hnext hnone hread, if_neg hcount]
    have hrule : rule = { id := k + 1, count := view.count, body := [u, v] } := by
      rw [← hid, hvcount, ← hbody]
    rw [← hrule]
    show List.filter _ r.rules ++ [rule] ++ rules = _
    have hold : ∀ old ∈ r.rules, old.id ≠ rule.id := by
      intro old hold
      have := (h.numbered old hold).1
      omega
    rw [List.filter_eq_self.mpr (by simpa using hold), List.append_assoc, List.singleton_append]

end Merged

/-- A new grammar that is given the state of another one has its rules. -/
theorem Inv.rules_restored {ok : String → Prop} {g : Sequitur} {l : List Ptr} {ts : List String}
    (hok : ∀ t, ok t → t ≠ "" ∧ Plain t ∧ displayRuleID t = none) (h : Inv ok g l ts)
    (hn : Numbered g) {views : List RuleView} (hviews : g.ruleViews = some views) :
    (restoreGrammar new g.rootSequence views).rules = g.rules := by
  obtain ⟨views', hviews', hshows⟩ := h.sound.ruleViews fun t ht => (hok t ht).2.1
  obtain rfl := Option.some.inj (hviews.symm.trans hviews')
  have hids : g.rules.map Rule.id = List.range' (0 + 1) g.rules.length := by
    rw [h.sound.ids, h.sound.length_rules]
  have hstart : Merged ok new g 0 new := .start (sound_new ok) numbered_new h.sound
  have hrules := hstart.rules_fold h.sound hn (fun t ht => (hok t ht).2) (List.Subset.refl _)
    hids hshows
  rw [restoreGrammar, rules_restoreRoot, hrules]
  rfl

/-! ## Equal rules -/

/-- The rules are the same, and so is what the call did so far. -/
def Replays (s s' : Sequitur) : Prop := s.rules = s'.rules ∧ s.lastKind = s'.lastKind

namespace Replays

variable {s s' : Sequitur} {rule rule' : Rule}

/-- Making a rule of two occurrences is seen alike in both. -/
theorem replaceBoth (h : Replays s s') (hid : s.nextID = s'.nextID) (n n' m m' : Ptr)
    (d : Digram) : Replays (s.replaceBoth n m d) (s'.replaceBoth n' m' d) := by
  refine ⟨?_, ?_⟩
  · show (((s.newRule d).substitute m s.nextID).substitute n s.nextID).rules =
      (((s'.newRule d).substitute m' s'.nextID).substitute n' s'.nextID).rules
    rw [rules_substitute, rules_substitute, rules_substitute, rules_substitute]
    show s.rules.filter (·.id ≠ s.nextID) ++ [_] = s'.rules.filter (·.id ≠ s'.nextID) ++ [_]
    rw [h.1, hid]
  · show (((s.newRule d).substitute m s.nextID).substitute n s.nextID).lastKind =
      (((s'.newRule d).substitute m' s'.nextID).substitute n' s'.nextID).lastKind
    rw [lastKind_substitute, lastKind_substitute, lastKind_substitute, lastKind_substitute]
    rfl

/-- So is reusing one. -/
theorem replaceRuled (h : Replays s s') {d : Digram} (hr : s.ruled d = some rule)
    (hr' : s'.ruled d = some rule') (hid : rule.id = rule'.id) (n n' : Ptr) :
    Replays (s.replaceRuled n rule) (s'.replaceRuled n' rule') := by
  -- the two tables are equal, so the rule of that id is one rule
  have hsame : rule = rule' := by
    obtain ⟨id, -, hfound⟩ := Option.bind_eq_some_iff.mp hr
    obtain ⟨id', -, hfound'⟩ := Option.bind_eq_some_iff.mp hr'
    have heq : id = id' := (ruleOf_id hfound).symm.trans (hid.trans (ruleOf_id hfound'))
    rw [ruleOf, h.1, heq] at hfound
    exact Option.some.inj (hfound.symm.trans hfound')
  subst hsame
  have hrules : ((s.setCount rule.id (rule.count + 1)).substitute n rule.id).rules =
      ((s'.setCount rule.id (rule.count + 1)).substitute n' rule.id).rules := by
    rw [rules_substitute, rules_substitute]
    exact congrArg (List.map _) h.1
  have hkind : ((s.setCount rule.id (rule.count + 1)).substitute n rule.id).lastKind =
      ((s'.setCount rule.id (rule.count + 1)).substitute n' rule.id).lastKind := by
    rw [lastKind_substitute, lastKind_substitute]
    exact h.2
  unfold Sequitur.replaceRuled
  dsimp only
  rw [hkind]
  split
  · exact ⟨hrules, rfl⟩
  · exact ⟨hrules, hkind⟩

end Replays

/-- What is read of rules and kinds follows the grammars in step. -/
theorem mirrored_replays : Alike.Mirrored Replays where
  index := fun _ _ h => h
  replaceBoth := fun n n' m m' d hid h => h.replaceBoth hid n n' m m' d
  replaceRuled := fun n n' _ _ _ hr hr' hid h => h.replaceRuled hr hr' hid n n'
  appendNode := fun _ _ _ _ _ h => h
  pending := fun _ _ h => h

/-- Alike roots are displayed alike. -/
theorem Alike.rootSequence {B : Matching} {s s' : Sequitur} {l l' : List Ptr} (h : Alike B s s')
    (hs : Shape s l) (hs' : Shape s' l') : s.rootSequence = s'.rootSequence := by
  have hall : ∀ {s : Sequitur} {l : List Ptr}, Shape s l → s.tail s.length = s.rootSequence := by
    intro s l hs
    rw [hs.tail, hs.length, Int.toNat_natCast, Nat.sub_self, List.drop_zero]
  rw [← hall hs, ← hall hs', h.tail, h.length]

/-! ## Readings -/

/-- What a client reads after each of some calls of `Analyze`: the root sequence,
the rules and the kind of the call. -/
def replayed (s : Sequitur) : List (List String) → Option (List (List String × List Rule × Kind))
  | [] => some []
  | tokens :: calls => (s.analyze tokens).bind fun r =>
      (replayed r.1 calls).map ((r.1.rootSequence, r.1.rules, r.1.lastKind) :: ·)

/-- Alike grammars with equal rules are read alike, whatever they are fed. -/
theorem Alike.replayed_eq {ok : String → Prop} (hok : ∀ t, ok t → t ≠ "" ∧ Plain t) {B : Matching}
    {s s' : Sequitur} {l l' : List Ptr} {ts ts' : List String} (h : Alike B s s')
    (hrules : s.rules = s'.rules) (hs : Inv ok s l ts) (hs' : Inv ok s' l' ts')
    (calls : List (List String))
    (htokens : ∀ tokens ∈ calls, ∀ token ∈ tokens, token ≠ "" → ok token) :
    ∃ readings, s.replayed calls = some readings ∧ s'.replayed calls = some readings := by
  induction calls generalizing B s s' l l' ts ts' with
  | nil => exact ⟨[], rfl, rfl⟩
  | cons tokens calls ih =>
    have hfed := htokens tokens List.mem_cons_self
    obtain ⟨t, r, m, ht, hinv⟩ := inv_analyze hok hs hfed
    obtain ⟨t', r', m', ht', hinv'⟩ := inv_analyze hok hs' hfed
    obtain ⟨B', hanswers⟩ := h.analyze_in mirrored_replays ⟨hrules, rfl⟩ tokens
    rw [ht, ht'] at hanswers
    cases hanswers with
    | some hab =>
      obtain ⟨⟨halike, hreplays⟩, -⟩ := hab
      obtain ⟨readings, hread, hread'⟩ := ih halike hreplays.1 hinv hinv'
        fun tokens ht => htokens tokens (List.mem_cons_of_mem _ ht)
      refine ⟨(t.rootSequence, t.rules, t.lastKind) :: readings, ?_, ?_⟩
      · rw [replayed, ht, Option.bind_some, hread]
        rfl
      · rw [replayed, ht', Option.bind_some, hread',
          halike.rootSequence hinv.shape hinv'.shape, hreplays.1, hreplays.2]
        rfl

/-! ## Restarts -/

/-- The digram index is the one a restart rebuilds: each digram without a rule
at its first place in the root, and nothing else. -/
def Recoverable (s : Sequitur) : Prop := ∀ d, s.digrams d = s.indexOf s.rootNodes d

/-- Every history leads to a grammar that can be published, and if its index is
recoverable, then the grammar and its restart give the same readings for every
continuation. -/
theorem restart_replays (history : List Op) (calls : List (List String))
    (hhistory : ∀ op ∈ history, ∀ token ∈ op.tokens, Terminal token)
    (hcalls : ∀ tokens ∈ calls, ∀ token ∈ tokens, Terminal token) :
    ∃ s views, history.foldlM perform new = some s ∧ s.ruleViews = some views ∧
      (s.Recoverable → ∃ readings, s.replayed calls = some readings ∧
        (restoreGrammar new s.rootSequence views).replayed calls = some readings) := by
  have hok : ∀ t, Appended t → t ≠ "" ∧ Plain t := fun t ht => ⟨ht.1, ht.2.1⟩
  obtain ⟨s, l, hs, hinv⟩ := inv_run hok (inv_new Appended) history
    fun op hop token ht hne => ⟨hne, hhistory op hop token ht⟩
  have hnumbered : Numbered s := (Grows.run hs numbered_new).1
  obtain ⟨views, l', hviews, hrebuilt⟩ := hinv.rebuilt fun _ h => h
  refine ⟨s, views, hs, hviews, fun hrec => ?_⟩
  obtain ⟨B, hB⟩ := hrebuilt.alike hinv.shape
  have hindex : s.digrams = s.indexOf l := by
    funext d
    rw [hrec d, hinv.shape.rootNodes]
  rw [← hindex] at hB
  have hagree : Agree new s := fun id body body' h _ => by cases h
  obtain ⟨⟨l'', hinv'⟩, -, -, -⟩ :=
    Inv.restored (fun _ h => h) (inv_new Appended) numbered_new hinv hagree hviews
  have hrules := hinv.rules_restored (fun _ h => h) hnumbered hviews
  exact Alike.replayed_eq hok hB hrules.symm hinv hinv' calls
    fun tokens hm token ht hne => ⟨hne, hcalls tokens hm token ht⟩

/-- The index holds pairs of the root alone, so only those have to be looked at. -/
theorem Shape.recoverable {s : Sequitur} {l : List Ptr} (h : Shape s l)
    (hpairs : ∀ p ∈ s.rootNodes, s.digrams (s.val p, s.val (s.next p)) =
      s.indexOf s.rootNodes (s.val p, s.val (s.next p))) : s.Recoverable := by
  intro d
  by_cases hd : ∃ p ∈ s.rootNodes, (s.val p, s.val (s.next p)) = d
  · obtain ⟨p, hp, rfl⟩ := hd
    exact hpairs p hp
  · have hlive : s.digrams d = none := by
      by_contra hne
      obtain ⟨m, hm⟩ := Option.ne_none_iff_exists'.mp hne
      obtain ⟨hmem, -, rfl⟩ := h.index d m hm
      exact hd ⟨m, h.rootNodes.symm ▸ hmem, rfl⟩
    have hbuilt : firstAt s.val s.rootNodes d = none := by
      by_contra hne
      obtain ⟨m, hm⟩ := Option.ne_none_iff_exists'.mp hne
      obtain ⟨pre, n, post, hsplit, rfl⟩ := firstAt_eq_some hm
      have hring := h.ring
      rw [← h.rootNodes, hsplit] at hring
      refine hd ⟨m, ?_, by rw [hring.next_pair]⟩
      rw [hsplit]
      exact List.mem_append_right pre List.mem_cons_self
    rw [hlive, indexOf, hbuilt, ite_self]

/-- A grammar with a rule, restarted over the root `M1 M1 c`. The continuation makes
`M1 c` a rule, which takes the index. -/
theorem restart_replays_sample : ∃ s views,
    [Op.analyze ["a", "b", "a", "b", "c"]].foldlM perform new = some s ∧
    s.ruleViews = some views ∧ s.rootSequence = ["M1", "M1", "c"] ∧
    ∃ readings, s.replayed [["a", "b"], ["c"]] = some readings ∧
      (restoreGrammar new s.rootSequence views).replayed [["a", "b"], ["c"]] = some readings := by
  have hfed : ∀ op ∈ [Op.analyze ["a", "b", "a", "b", "c"]], ∀ token ∈ op.tokens,
      Terminal token := by decide
  obtain ⟨s, views, hs, hviews, hmain⟩ := restart_replays [.analyze ["a", "b", "a", "b", "c"]]
    [["a", "b"], ["c"]] hfed (by decide)
  obtain ⟨s', l, hs', hinv⟩ := inv_run (fun t (ht : Appended t) => ⟨ht.1, ht.2.1⟩)
    (inv_new Appended) [.analyze ["a", "b", "a", "b", "c"]]
    fun op hop token ht hne => ⟨hne, hfed op hop token ht⟩
  rw [hs] at hs'
  obtain rfl := Option.some.inj hs'
  have hrun : ∀ t ∈ [Op.analyze ["a", "b", "a", "b", "c"]].foldlM perform new,
      t.rootSequence = ["M1", "M1", "c"] ∧
      ∀ p ∈ t.rootNodes, t.digrams (t.val p, t.val (t.next p)) =
        t.indexOf t.rootNodes (t.val p, t.val (t.next p)) := by
    decide +kernel
  obtain ⟨hroot, hpairs⟩ := hrun s hs
  exact ⟨s, views, hs, hviews, hroot, hmain (hinv.shape.recoverable hpairs)⟩

/-- The live index has lost the pair `a a`, the rebuilt one has it: only the
restarted grammar makes a rule of the next one. -/
theorem lost_entry_replayed : ¬ ∀ (history : List Op) (calls : List (List String)),
    (∀ op ∈ history, ∀ token ∈ op.tokens, displayRuleID token = none) →
    (∀ tokens ∈ calls, ∀ token ∈ tokens, displayRuleID token = none) →
    ∀ s views, history.foldlM perform new = some s → s.ruleViews = some views →
      (restoreGrammar new s.rootSequence views).replayed calls = s.replayed calls := by
  intro hall
  have hrun : (([Op.analyze ["x", "a", "a", "a", "x", "a"]].foldlM perform new).bind fun s =>
      s.ruleViews.map fun views =>
        (((restoreGrammar new s.rootSequence views).replayed [["z", "a", "a"]]).map (·.map Prod.fst),
          (s.replayed [["z", "a", "a"]]).map (·.map Prod.fst))) =
      some (some [["M1", "M2", "M1", "z", "M2"]], some [["M1", "a", "a", "M1", "z", "a", "a"]]) := by
    decide +kernel
  obtain ⟨s, hs, hrun⟩ := Option.bind_eq_some_iff.mp hrun
  obtain ⟨views, hviews, hpair⟩ := Option.map_eq_some_iff.mp hrun
  rw [Prod.mk.injEq] at hpair
  have hsame := hall [.analyze ["x", "a", "a", "a", "x", "a"]] [["z", "a", "a"]] (by decide)
    (by decide) s views hs hviews
  rw [hsame, hpair.2] at hpair
  exact absurd hpair.1 (by decide)

end Sequitur

end Symm.Tokenizer
