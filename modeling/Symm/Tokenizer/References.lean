import Symm.Tokenizer.Growth
import Symm.Tokenizer.Promotion
import Symm.Tokenizer.Rebuilt

/-!
# Rule references

A rule reference is a number, kept in the bodies of newer rules, in the root and
outside the grammar as a displayed symbol. It means something because rules are
only ever added, under the next free id and over symbols that exist already, and
because a restore copies the rules under their old ids.

- `Agree`: two tables give no id two bodies;
- `Merged`, `Inv.restored`: what a restore makes of two agreeing tables;
- `Reachable`, `Later`: the grammars a client can reach, and those it reaches
  from a given one;
- `references_keep_meaning`: references name older rules and keep their meaning.

A restore learns the rules of a saved state on top of those that the receiving grammar
has. Where the two tables agree the result has the rules of both, with their bodies;
where they do not, an id that is taken keeps its old body, and the saved root is read by
the wrong rule. `Reachable` therefore restores only what `fits`.

`Later` is the client's view: a grammar that comes from another by calls and restores,
its own state restored elsewhere included. It extends the first one, so a displayed
reference expands there as it did when it was displayed.
-/

namespace Symm.Tokenizer

open Symm.Lib

namespace Sequitur

/-! ## Learning on top of another table -/

/-- No id has one body here and another one there. -/
def Agree (t g : Sequitur) : Prop :=
  ∀ id body body', t.bodyOf id = some body → g.bodyOf id = some body' → body = body'

/-- A rule that is there already has its count raised at most. -/
theorem learn_taken {r : Sequitur} {id : ℕ} {existing : Rule} (h : r.ruleOf id = some existing)
    (count : ℤ) (symbols : List String) :
    r.learn id count symbols = r ∨
      existing.count < count ∧ r.learn id count symbols = r.setCount id count := by
  unfold learn
  split
  · exact .inl rfl
  · rw [Int.toNat_natCast, h]
    dsimp only
    split
    · next hlt => exact .inr ⟨hlt, rfl⟩
    · exact .inl rfl

/-- A table is read by its rules alone. -/
theorem bodyOf_congr {s t : Sequitur} (h : s.rules = t.rules) : s.bodyOf = t.bodyOf := by
  funext id
  rw [bodyOf, bodyOf, ruleOf, ruleOf, h]

/-- A rule set under the next id is a new rule with a count of its own. -/
theorem Sound.rules_setRule {ok : String → Prop} {r : Sequitur} (h : Sound ok r) (d : Digram)
    (count : ℤ) : (r.setRule { id := r.nextID, count := count, body := [d.1, d.2] }).rules =
      ((r.newRule d).setCount r.nextID count).rules := by
  have hne : ∀ rule ∈ r.rules, rule.id ≠ r.nextID := fun rule hr => (h.id_lt hr).2.ne
  have hsame : r.rules.map (fun rule =>
      if rule.id = r.nextID then { rule with count := count } else rule) = r.rules := by
    refine (List.map_congr_left fun rule hr => ?_).trans (List.map_id _)
    exact if_neg (hne rule hr)
  show List.filter _ r.rules ++ [_] = (r.newRule d).rules.map _
  rw [h.rules_newRule, List.map_append, List.filter_eq_self.mpr (by simpa using hne), hsame,
    List.map_singleton, if_pos rfl]

/-- `r` has the rules of `t` and those of `g` up to id `k`. -/
structure Merged (ok : String → Prop) (t g : Sequitur) (k : ℕ) (r : Sequitur) : Prop where
  sound : Sound ok r
  numbered : Numbered r
  nextID : r.nextID = max t.nextID (k + 1)
  older : Extends t r
  learnt : ∀ id body, id ≤ k → g.bodyOf id = some body → r.bodyOf id = some body

namespace Merged

variable {ok : String → Prop} {t g r : Sequitur} {k : ℕ} {rule : Rule} {view : RuleView}

/-- Merging begins with the grammar there is. -/
theorem start (ht : Sound ok t) (hn : Numbered t) (hg : Sound ok g) : Merged ok t g 0 t where
  sound := ht
  numbered := hn
  nextID := by
    have := ht.pos
    omega
  older := .refl t
  learnt := by
    intro id body hid hb
    have := (hg.taken_body hb).1
    omega

/-- A rule both tables have. -/
theorem learn_both (h : Merged ok t g k r) (hagree : Agree t g) (hlt : k + 1 < t.nextID)
    (ht : Sound ok t) (count : ℤ) (symbols : List String) :
    Merged ok t g (k + 1) (r.learn (k + 1 : ℕ) count symbols) := by
  obtain ⟨body, hbody⟩ := ht.exists_body (Nat.succ_pos k) hlt
  have hmerged : Merged ok t g (k + 1) r := by
    refine ⟨h.sound, h.numbered, ?_, h.older, fun id b hid hb => ?_⟩
    · have := h.nextID
      omega
    · rcases Nat.lt_or_eq_of_le hid with hlt | rfl
      · exact h.learnt id b (by omega) hb
      · rw [← hagree _ _ _ hbody hb]
        exact h.older _ _ hbody
  obtain ⟨existing, hex⟩ := Option.isSome_iff_exists.mp
    (h.sound.taken.mpr ⟨Nat.succ_pos k, by rw [h.nextID]; omega⟩)
  rcases learn_taken hex count symbols with heq | ⟨hcount, heq⟩
  · rw [heq]
    exact hmerged
  · have htwo := (h.numbered existing (ruleOf_mem hex)).2
    have hgrows : Grows r (r.setCount (k + 1) count) := Grows.setCount (by omega)
    obtain ⟨hnumbered, hext⟩ := hgrows h.numbered
    rw [heq]
    exact ⟨h.sound.of_eq rfl (ids_setCount ..) (bodyOf_setCount ..) rfl, hnumbered,
      hmerged.nextID, h.older.trans hext, fun id b hid hb => hext _ _ (hmerged.learnt id b hid hb)⟩

/-- A rule that only the learnt table has. -/
theorem learn_new (h : Merged ok t g k r) (hg : Sound ok g) (hle : t.nextID ≤ k + 1)
    (hok : ∀ t, ok t → Plain t ∧ displayRuleID t = none) (hr : rule ∈ g.rules)
    (hid : rule.id = k + 1) (hv : Sound.Shows rule view) :
    Merged ok t g (k + 1) (r.learn view.id view.count view.symbols) := by
  obtain ⟨u, v, hbody, hu, hv', hruled⟩ := hg.body_of_mem hr
  have hread := hbody ▸ hv.read hok (hg.known_body hr)
  have hnext : r.nextID = k + 1 := by
    rw [h.nextID]
    omega
  have hnone : r.ruleOf (k + 1) = none := by
    rw [← Option.not_isSome_iff_eq_none, h.sound.taken]
    omega
  -- an older rule of `r` is one of `g`, and there the digram belongs to the next id
  have hfree : r.ruleByDigram (u, v) = none := by
    by_contra hne
    obtain ⟨id, hd⟩ := Option.ne_none_iff_exists'.mp hne
    have hb := h.sound.ruled _ _ hd
    have hlt := h.sound.taken_body hb
    have hpos := hg.id_lt hr
    obtain ⟨b, hgb⟩ := hg.exists_body hlt.1 (by omega)
    have heq := (h.learnt id b (by omega) hgb).symm.trans hb
    rw [Option.some.inj heq] at hgb
    obtain ⟨u', v', hpair, -, -, hd'⟩ := hg.body id _ hgb
    obtain ⟨rfl, rfl⟩ : u = u' ∧ v = v' := by simpa using hpair
    rw [hruled, Option.some.injEq] at hd'
    omega
  have hsound := h.sound.newRule (d := (u, v)) hfree (by rw [hnext, ← hid]; exact hu)
    (by rw [hnext, ← hid]; exact hv')
  rw [hv.1, hid, learn_next (Nat.succ_pos k) hnext hnone hread]
  have htwo : 2 ≤ if view.count < 2 then 2 else view.count := by
    split
    · exact le_refl 2
    · omega
  generalize (if view.count < 2 then 2 else view.count) = count at htwo
  generalize hL : ({ r.setRule { id := k + 1, count := count, body := [u, v] } with
    ruleByDigram := Function.update r.ruleByDigram (u, v) (some (k + 1))
    nextID := k + 1 + 1 } : Sequitur) = L
  -- it is the rule `reduce` would have made, with another count
  have hrules : L.rules = ((r.newRule (u, v)).setCount (k + 1) count).rules := by
    rw [← hL, ← hnext]
    exact h.sound.rules_setRule (u, v) count
  have hnextL : L.nextID = (r.newRule (u, v)).nextID := by
    rw [← hL]
    exact congrArg (· + 1) hnext.symm
  have hruledL : L.ruleByDigram = (r.newRule (u, v)).ruleByDigram := by
    rw [← hL, ← hnext]
    rfl
  have hbodyL : L.bodyOf = (r.newRule (u, v)).bodyOf := by
    rw [bodyOf_congr hrules, bodyOf_setCount]
  have hidsL : L.rules.map Rule.id = (r.newRule (u, v)).rules.map Rule.id := by
    rw [hrules, ids_setCount]
  have hgrows : Grows r L :=
    ((Grows.newRule r (u, v)).trans (Grows.setCount htwo)).trans (Grows.of_rules hrules hnextL)
  obtain ⟨hnumbered, hext⟩ := hgrows h.numbered
  refine ⟨hsound.of_eq hnextL hidsL hbodyL hruledL, hnumbered, ?_, h.older.trans hext,
    fun id body hle' hb => ?_⟩
  · have hL' : L.nextID = r.nextID + 1 := hnextL
    omega
  · rcases Nat.lt_or_eq_of_le hle' with hlt | rfl
    · exact hext _ _ (h.learnt id body (by omega) hb)
    · rw [hbodyL, h.sound.bodyOf_newRule, if_pos hnext.symm, ← hb, ← hid]
      exact hbody ▸ (congrArg (Option.map Rule.body) (hg.ruleOf_of_mem hr)).symm

/-- A stretch of the views is learnt one after another. -/
theorem fold (h : Merged ok t g k r) (ht : Sound ok t) (hg : Sound ok g) (hagree : Agree t g)
    (hok : ∀ t, ok t → Plain t ∧ displayRuleID t = none) {rules : List Rule}
    {views : List RuleView} (hsub : rules ⊆ g.rules)
    (hids : rules.map Rule.id = List.range' (k + 1) rules.length)
    (hshows : rules.Forall₂ Sound.Shows views) :
    Merged ok t g (k + rules.length)
      (views.foldl (fun r view => r.learn view.id view.count view.symbols) r) := by
  induction hshows generalizing k r with
  | nil => exact h
  | @cons rule view rules views hv _ ih =>
    rw [List.map_cons, List.length_cons, List.range'_succ] at hids
    injection hids with hid hrest
    have hstep : Merged ok t g (k + 1) (r.learn view.id view.count view.symbols) := by
      by_cases hlt : k + 1 < t.nextID
      · rw [hv.1, hid]
        exact h.learn_both hagree hlt ht view.count view.symbols
      · exact h.learn_new hg (by omega) hok (hsub List.mem_cons_self) hid hv
    have hlast := ih hstep (fun r hr => hsub (List.mem_cons_of_mem _ hr)) hrest
    rw [List.foldl_cons, List.length_cons, show k + (rules.length + 1) = k + 1 + rules.length by omega]
    exact hlast

/-- All rules of `g` have been learnt. -/
theorem all (ht : Sound ok t) (hn : Numbered t) (hg : Sound ok g) (hagree : Agree t g)
    (hok : ∀ t, ok t → Plain t ∧ displayRuleID t = none) {views : List RuleView}
    (hshows : g.rules.Forall₂ Sound.Shows views) :
    Merged ok t g (g.nextID - 1)
      (views.foldl (fun r view => r.learn view.id view.count view.symbols) t) := by
  have hids : g.rules.map Rule.id = List.range' (0 + 1) g.rules.length := by
    rw [hg.ids, hg.length_rules]
  have hlast := (Merged.start ht hn hg).fold ht hg hagree hok (List.Subset.refl _) hids hshows
  rwa [Nat.zero_add, hg.length_rules] at hlast

/-- With all rules learnt, the rules of the other grammar are all there. -/
theorem extends_learnt (h : Merged ok t g (g.nextID - 1) r) (hg : Sound ok g) : Extends g r := by
  intro id body hb
  have := (hg.taken_body hb).2
  exact h.learnt id body (by omega) hb

end Merged

/-- Learning writes the tables and leaves the root alone. -/
theorem learn_root (r : Sequitur) (id count : ℤ) (symbols : List String) :
    ∃ rules ruled next, r.learn id count symbols =
      { r with rules := rules, ruleByDigram := ruled, nextID := next } := by
  unfold learn
  split
  · exact ⟨_, _, _, rfl⟩
  split
  · split
    · exact ⟨_, _, _, rfl⟩
    · exact ⟨_, _, _, rfl⟩
  · dsimp only
    generalize (if count < 2 then 2 else count) = count
    split
    · split
      · exact ⟨_, _, _, rfl⟩
      · exact ⟨_, _, _, rfl⟩
    · split
      · exact ⟨_, _, _, rfl⟩
      · exact ⟨_, _, _, rfl⟩

/-- Learning a rule leaves the root. -/
theorem Shape.learn {r : Sequitur} {l : List Ptr} (h : Shape r l) (id count : ℤ)
    (symbols : List String) : Shape (r.learn id count symbols) l := by
  obtain ⟨rules, ruled, next, heq⟩ := learn_root r id count symbols
  rw [heq]
  exact h.of_eq rfl rfl rfl rfl rfl rfl

/-- A restore puts the saved root over both tables, and the rules of both keep
their bodies. -/
theorem Inv.restored {ok : String → Prop} {t g : Sequitur} {l l' : List Ptr} {us ts : List String}
    (hok : ∀ t, ok t → t ≠ "" ∧ Plain t ∧ displayRuleID t = none) (ht : Inv ok t l us)
    (hn : Numbered t) (hg : Inv ok g l' ts) (hagree : Agree t g) {views : List RuleView}
    (hviews : g.ruleViews = some views) :
    (∃ l'', Inv ok (restoreGrammar t g.rootSequence views) l'' ts) ∧
      Numbered (restoreGrammar t g.rootSequence views) ∧
      Extends t (restoreGrammar t g.rootSequence views) ∧
      Extends g (restoreGrammar t g.rootSequence views) := by
  obtain ⟨views', hviews', hshows⟩ := hg.sound.ruleViews fun t ht => (hok t ht).2.1
  obtain rfl := Option.some.inj (hviews.symm.trans hviews')
  have hall := Merged.all ht.sound hn hg.sound hagree (fun t ht => (hok t ht).2) hshows
  -- the rules are learnt before the root is written, and leave its nodes alone
  have hshape : Shape
      (views.foldl (fun r view => r.learn view.id view.count view.symbols) t) l := by
    generalize hinit : t = r
    have hr : Shape r l := hinit ▸ ht.shape
    clear hshows hall hviews' hviews hinit
    induction views generalizing r with
    | nil => exact hr
    | cons view views ih => exact ih _ (hr.learn view.id view.count view.symbols)
  have hextg := hall.extends_learnt hg.sound
  have hknown : ∀ sym ∈ l'.map g.val, Known ok g.nextID sym := by
    intro sym hsym
    obtain ⟨p, hp, rfl⟩ := List.mem_map.mp hsym
    exact hg.known p hp
  -- the root is written symbol by symbol
  obtain ⟨l'', hl''⟩ := (Standing.sentence hshape).fold hok hknown
  rw [List.nil_append] at hl''
  unfold restoreGrammar restoreRoot
  rw [hg.shape.rootSequence]
  have hbody := bodyOf_congr hl''.rules
  refine ⟨⟨l'', hl''.shape, ?_, ?_, ?_⟩, ?_, ?_, ?_⟩
  · exact hall.sound.of_eq hl''.nextID (congrArg (List.map Rule.id) hl''.rules) hbody
      hl''.ruleByDigram
  · intro p hp
    have hsym := hknown _ (hl''.symbols ▸ List.mem_map_of_mem hp)
    rw [hl''.nextID, hall.nextID]
    exact hsym.mono (by omega)
  · rw [hl''.symbols, hbody]
    exact hg.spells.mono hextg
  · unfold Numbered
    rw [hl''.rules, hl''.nextID]
    exact hall.numbered
  · intro id body hb
    rw [hbody]
    exact hall.older id body hb
  · intro id body hb
    rw [hbody]
    exact hextg id body hb

/-! ## Clients -/

/-- The grammars a client can reach: it feeds tokens that are `ok`, ends
sentences, polls, and restores the state of one grammar into another that `fits`
it. -/
inductive Reachable (ok : String → Prop) (fits : Sequitur → Sequitur → Prop) : Sequitur → Prop
  | new : Reachable ok fits new
  | call {s s' : Sequitur} {op : Op} : Reachable ok fits s → (∀ token ∈ op.tokens, ok token) →
      s.perform op = some s' → Reachable ok fits s'
  | restore {t g : Sequitur} {views : List RuleView} : Reachable ok fits t → Reachable ok fits g →
      fits t g → g.ruleViews = some views →
      Reachable ok fits (restoreGrammar t g.rootSequence views)

/-- The grammars a client makes of `s`: by a call, by restoring a state into it,
or by restoring its state elsewhere. -/
inductive Later (ok : String → Prop) (fits : Sequitur → Sequitur → Prop) (s : Sequitur) :
    Sequitur → Prop
  | refl : Later ok fits s s
  | call {t t' : Sequitur} {op : Op} : Later ok fits s t → (∀ token ∈ op.tokens, ok token) →
      t.perform op = some t' → Later ok fits s t'
  | onto {t g : Sequitur} {views : List RuleView} : Later ok fits s t → Reachable ok fits g →
      fits t g → g.ruleViews = some views →
      Later ok fits s (restoreGrammar t g.rootSequence views)
  | into {t g : Sequitur} {views : List RuleView} : Later ok fits s g → Reachable ok fits t →
      fits t g → g.ruleViews = some views →
      Later ok fits s (restoreGrammar t g.rootSequence views)

/-- References name older rules, the recursions over them end, and no two rules
have one body. -/
structure WellReferenced (s : Sequitur) : Prop where
  body : ∀ rule ∈ s.rules, ∀ sym ∈ rule.body, ∀ id, ruleID sym = some id →
    id < rule.id ∧ (s.ruleOf id).isSome
  root : ∀ sym ∈ s.rootSymbols, ∀ id, ruleID sym = some id → (s.ruleOf id).isSome
  names : ∀ rule ∈ s.rules, (s.terminalNames rule).isSome
  depth : ∀ rule ∈ s.rules, (s.ruleDepth (s.rules.length + 1) rule.id []).isSome
  distinct : ∀ rule ∈ s.rules, ∀ rule' ∈ s.rules, rule.body = rule'.body → rule = rule'

/-- A token that reads as no reference, neither in the grammar nor displayed. -/
def Terminal (t : String) : Prop := Plain t ∧ displayRuleID t = none

instance : DecidablePred Terminal := fun t =>
  inferInstanceAs (Decidable (Plain t ∧ displayRuleID t = none))

/-- What is appended: the empty string never is. -/
def Appended (t : String) : Prop := t ≠ "" ∧ Terminal t

/-- Every grammar that is reached spells something, with its rules numbered. -/
theorem Reachable.inv {s : Sequitur} (h : Reachable Terminal Agree s) :
    Numbered s ∧ ∃ l ts, Inv Appended s l ts := by
  induction h with
  | new => exact ⟨numbered_new, [], [], inv_new Appended⟩
  | @call s s' op _ htokens hop ih =>
    obtain ⟨hn, l, ts, hinv⟩ := ih
    obtain ⟨s1, l1, h1, hinv1⟩ := inv_perform (fun t ht => ⟨ht.1, ht.2.1⟩) hinv
      fun token ht hne => ⟨hne, htokens token ht⟩
    obtain rfl := Option.some.inj (hop.symm.trans h1)
    exact ⟨(Grows.perform hop hn).1, l1, _, hinv1⟩
  | @restore t g views _ _ hagree hviews iht ihg =>
    obtain ⟨hnt, l, us, ht⟩ := iht
    obtain ⟨-, l', ts, hg⟩ := ihg
    obtain ⟨⟨l'', hinv⟩, hn, -, -⟩ := Inv.restored (fun _ h => h) ht hnt hg hagree hviews
    exact ⟨hn, l'', ts, hinv⟩

/-- What is made of a grammar keeps its rules. -/
theorem Later.extends {s s' : Sequitur} (hs : Reachable Terminal Agree s)
    (h : Later Terminal Agree s s') : Reachable Terminal Agree s' ∧ Extends s s' := by
  induction h with
  | refl => exact ⟨hs, .refl s⟩
  | @call t t' op _ htokens hop ih =>
    obtain ⟨ht, hext⟩ := ih
    exact ⟨ht.call htokens hop, hext.trans (Grows.perform hop ht.inv.1).2⟩
  | @onto t g views _ hg hagree hviews ih =>
    obtain ⟨ht, hext⟩ := ih
    obtain ⟨hnt, l, us, hinvt⟩ := ht.inv
    obtain ⟨-, l', ts, hinvg⟩ := hg.inv
    obtain ⟨-, -, hextt, -⟩ := Inv.restored (fun _ h => h) hinvt hnt hinvg hagree hviews
    exact ⟨.restore ht hg hagree hviews, hext.trans hextt⟩
  | @into t g views _ ht hagree hviews ih =>
    obtain ⟨hg, hext⟩ := ih
    obtain ⟨hnt, l, us, hinvt⟩ := ht.inv
    obtain ⟨-, l', ts, hinvg⟩ := hg.inv
    obtain ⟨-, -, -, hextg⟩ := Inv.restored (fun _ h => h) hinvt hnt hinvg hagree hviews
    exact ⟨.restore ht hg hagree hviews, hext.trans hextg⟩

namespace Inv

variable {ok : String → Prop} {s s' : Sequitur} {l l' : List Ptr} {ts ts' : List String}

/-- A known symbol that is a reference names a rule below the bound. -/
theorem taken_of_known (h : Inv ok s l ts) (hok : ∀ t, ok t → Plain t) {bound id : ℕ}
    {sym : Symbol} (hb : bound ≤ s.nextID) (hk : Known ok bound sym) (hid : ruleID sym = some id) :
    id < bound ∧ (s.ruleOf id).isSome := by
  rcases hk with hterm | ⟨j, hpos, hlt, rfl⟩
  · rw [ruleID_plain (hok sym hterm)] at hid
    cases hid
  · rw [ruleID_ruleSymbol hpos] at hid
    obtain rfl := Option.some.inj hid
    exact ⟨hlt, h.sound.taken.mpr ⟨hpos, hlt.trans_le hb⟩⟩

/-- References are of rules that are there, and of earlier ones in a body. -/
theorem wellReferenced (h : Inv ok s l ts) (hok : ∀ t, ok t → Plain t) : WellReferenced s where
  body := fun _ hr sym hsym _ hid =>
    h.taken_of_known hok (h.sound.id_lt hr).2.le (h.sound.known_body hr sym hsym) hid
  root := by
    intro sym hsym id hid
    rw [h.shape.rootSymbols] at hsym
    obtain ⟨p, hp, rfl⟩ := List.mem_map.mp hsym
    exact (h.taken_of_known hok le_rfl (h.known p hp) hid).2
  names := fun _ hr => Option.isSome_iff_exists.mpr (h.sound.terminalNames_isSome hok hr)
  depth := by
    intro rule hr
    have hlt := h.sound.id_lt hr
    refine Option.isSome_iff_exists.mpr (h.sound.ruleDepth_isSome hok ?_ [])
    rw [h.sound.length_rules]
    omega
  distinct := by
    intro rule hr rule' hr' hbody
    obtain ⟨u, v, heq, -, -, hd⟩ := h.sound.body_of_mem hr
    obtain ⟨u', v', heq', -, -, hd'⟩ := h.sound.body_of_mem hr'
    obtain ⟨rfl, rfl⟩ : u = u' ∧ v = v' := by simpa [heq, heq'] using hbody
    have hid : rule.id = rule'.id := Option.some.inj (hd.symm.trans hd')
    have hfound := h.sound.ruleOf_of_mem hr
    rw [hid, h.sound.ruleOf_of_mem hr'] at hfound
    exact (Option.some.inj hfound).symm

/-- A rule that is kept expands as before. -/
theorem terminalNames_kept (h : Inv ok s l ts) (h' : Inv ok s' l' ts') (hext : Extends s s')
    (hok : ∀ t, ok t → Plain t) {id : ℕ} {rule : Rule} (hr : s.ruleOf id = some rule) :
    ∃ rule', s'.ruleOf id = some rule' ∧ s'.terminalNames rule' = s.terminalNames rule := by
  have hmem := ruleOf_mem hr
  obtain ⟨us, hus⟩ := h.sound.exists_spells hok (h.sound.id_lt hmem).2.le (h.sound.known_body hmem)
  have hbody : s.bodyOf id = some rule.body := congrArg (Option.map Rule.body) hr
  obtain ⟨rule', hr', hsame⟩ := Option.map_eq_some_iff.mp (hext id _ hbody)
  refine ⟨rule', hr', ?_⟩
  have hus' : Spells s'.bodyOf rule'.body us := hsame ▸ hus.mono hext
  rw [h.sound.terminalNames_eq hok hmem hus, h'.sound.terminalNames_eq hok (ruleOf_mem hr') hus']

end Inv

/-- Every reachable grammar goes on and can be published, its references name
older rules that exist, and whatever is made of it later, by calls and by
restoring states of agreeing grammars, each of its rules expands as it did. -/
theorem references_keep_meaning {s : Sequitur} (h : Reachable Terminal Agree s) :
    (∀ op : Op, (∀ token ∈ op.tokens, Terminal token) → (s.perform op).isSome) ∧
    s.ruleViews.isSome ∧ WellReferenced s ∧
    ∀ s', Later Terminal Agree s s' → WellReferenced s' ∧ ∀ id rule, s.ruleOf id = some rule →
      ∃ rule', s'.ruleOf id = some rule' ∧ s'.terminalNames rule' = s.terminalNames rule := by
  obtain ⟨-, l, ts, hinv⟩ := h.inv
  have hplain : ∀ t, Appended t → Plain t := fun t ht => ht.2.1
  refine ⟨fun op htokens => ?_, ?_, hinv.wellReferenced hplain, fun s' hlater => ?_⟩
  · obtain ⟨s', -, hs', -⟩ := inv_perform (fun t ht => ⟨ht.1, ht.2.1⟩) hinv
      fun token ht hne => ⟨hne, htokens token ht⟩
    rw [hs']
    rfl
  · obtain ⟨views, hviews, -⟩ := hinv.sound.ruleViews hplain
    rw [hviews]
    rfl
  · obtain ⟨hreach, hext⟩ := hlater.extends h
    obtain ⟨-, l', ts', hinv'⟩ := hreach.inv
    exact ⟨hinv'.wellReferenced hplain,
      fun id rule hr => hinv.terminalNames_kept hinv' hext hplain hr⟩

/-- A grammar with a nested rule, restored into a new one and fed on. -/
theorem references_keep_meaning_sample : ∃ s,
    new.perform (.analyze ["a", "b", "c", "a", "b", "c"]) = some s ∧ WellReferenced s ∧
    ∃ views s', s.ruleViews = some views ∧
      (restoreGrammar new s.rootSequence views).perform (.analyze ["d", "a", "b"]) = some s' ∧
      ∀ id rule, s.ruleOf id = some rule →
        ∃ rule', s'.ruleOf id = some rule' ∧ s'.terminalNames rule' = s.terminalNames rule := by
  obtain ⟨s, hs⟩ := Option.isSome_iff_exists.mp
    ((references_keep_meaning .new).1 (.analyze ["a", "b", "c", "a", "b", "c"]) (by decide))
  have hreach : Reachable Terminal Agree s := .call .new (by decide) hs
  have hmain := references_keep_meaning hreach
  obtain ⟨views, hviews⟩ := Option.isSome_iff_exists.mp hmain.2.1
  have hagree : Agree new s := fun id body body' h _ => by cases h
  have hrestored := references_keep_meaning (.restore .new hreach hagree hviews)
  obtain ⟨s', hs'⟩ := Option.isSome_iff_exists.mp (hrestored.1 (.analyze ["d", "a", "b"]) (by decide))
  have hlater : Later Terminal Agree s s' :=
    .call (.into .refl .new hagree hviews) (by decide) hs'
  exact ⟨s, hs, hmain.2.2.1, views, s', hviews, hs', (hmain.2.2.2 s' hlater).2⟩

/-- A token with the reserved prefix is a reference to no rule, and a state
restored over the rules of another grammar can repeat a body. -/
theorem references_astray :
    (¬ ∀ s, Reachable (fun t => displayRuleID t = none) Agree s → WellReferenced s) ∧
    ¬ ∀ s, Reachable Terminal (fun _ _ => True) s → WellReferenced s := by
  constructor
  · intro hall
    -- a token with the reserved prefix is taken for a rule that is not there
    have hroot : (new.perform (.analyze ["\x00rule:5"])).map
        (fun s => (s.rootSymbols, (s.ruleOf 5).isSome)) = some (["\x00rule:5"], false) := by
      decide +kernel
    obtain ⟨s, hs, hroot⟩ := Option.map_eq_some_iff.mp hroot
    rw [Prod.mk.injEq] at hroot
    have htaken := (hall s (.call .new (by decide) hs)).root "\x00rule:5"
      (by rw [hroot.1]; exact List.mem_singleton_self _) 5 (by decide +kernel)
    rw [hroot.2] at htaken
    cases htaken
  · intro hall
    -- a body that is learned twice has two rules
    have hrestore : ((new.perform (.analyze ["a", "b", "a", "b"])).bind fun t =>
        (new.perform (.analyze ["c", "d", "c", "d", "a", "b", "a", "b"])).bind fun g =>
          g.ruleViews.map fun views => (restoreGrammar t g.rootSequence views).rules) =
        some [⟨1, 2, ["a", "b"]⟩, ⟨2, 2, ["a", "b"]⟩] := by
      decide +kernel
    obtain ⟨t, ht, hrestore⟩ := Option.bind_eq_some_iff.mp hrestore
    obtain ⟨g, hg, hrestore⟩ := Option.bind_eq_some_iff.mp hrestore
    obtain ⟨views, hviews, hrules⟩ := Option.map_eq_some_iff.mp hrestore
    have hreach : Reachable Terminal (fun _ _ => True) (restoreGrammar t g.rootSequence views) :=
      .restore (.call .new (by decide) ht) (.call .new (by decide) hg) trivial hviews
    have hsame := (hall _ hreach).distinct ⟨1, 2, ["a", "b"]⟩ (by simp [hrules])
      ⟨2, 2, ["a", "b"]⟩ (by simp [hrules]) rfl
    cases hsame

end Sequitur

end Symm.Tokenizer
