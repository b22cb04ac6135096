import Symm.Tokenizer.Meaning

/-!
# What a sound grammar publishes

Every body of a sound grammar spells something, and its nesting ends below its
own id. So the recursions over the rule table come to an end, and the views of
the rules can be read.

- `Sound.exists_spells`: known symbols spell something;
- `Sound.ruleDepth_isSome`, `Sound.terminalNames_isSome`: the two recursions end;
- `Sound.terminalsForRef_isSome`: every displayed symbol can be expanded;
- `Sound.ruleViews`: the views, one for each rule, in the order of the ids;
- `Known.parseDisplay_display`: a displayed symbol is read back.

The measure of both recursions is the id. A body refers to earlier rules only, so the
code's own bound, one level for each rule, is never the reason for which a rule cannot
be shown; and what a rule spells is found by the same induction.

Displaying is where a grammar meets its clients. A known symbol that is displayed can be
read back, as the terminals are plain, and this is what restarts use: they learn the
rules from the views and have nothing else to go by.
-/

namespace Symm.Tokenizer

open Symm.Lib

/-- A mapping that succeeds on every member succeeds on the list. -/
theorem mapM_forall₂ {α β : Type} {R : α → β → Prop} {f : α → Option β} {l : List α}
    (h : ∀ a ∈ l, ∃ b, f a = some b ∧ R a b) : ∃ bs, l.mapM f = some bs ∧ l.Forall₂ R bs := by
  induction l with
  | nil => exact ⟨[], rfl, .nil⟩
  | cons a l ih =>
    obtain ⟨b, hb, hab⟩ := h a List.mem_cons_self
    obtain ⟨bs, hbs, hrel⟩ := ih fun x hx => h x (List.mem_cons_of_mem _ hx)
    refine ⟨b :: bs, ?_, .cons hab hrel⟩
    rw [List.mapM_cons, hb, hbs]
    rfl

/-- A displayed symbol is read back. -/
theorem Known.parseDisplay_display {ok : String → Prop}
    (hok : ∀ t, ok t → Plain t ∧ displayRuleID t = none) {n : ℕ} {sym : Symbol}
    (h : Known ok n sym) : parseDisplay (display sym) = sym := by
  rcases h with h | ⟨id, hpos, -, rfl⟩
  · rw [display_plain (hok sym h).1, parseDisplay_plain (hok sym h).2]
  · rw [display_ruleSymbol hpos, parseDisplay_ruleRef hpos]

/-- No known symbol is empty. -/
theorem Known.ne_empty {ok : String → Prop} (hok : ∀ t, ok t → t ≠ "" ∧ Plain t) {n : ℕ}
    {sym : Symbol} (h : Known ok n sym) : sym ≠ "" := by
  rcases h with h | ⟨id, -, -, rfl⟩
  · exact (hok sym h).1
  · exact ruleSymbol_ne_empty id

theorem Known.display_ne_empty {ok : String → Prop} (hok : ∀ t, ok t → t ≠ "" ∧ Plain t) {n : ℕ}
    {sym : Symbol} (h : Known ok n sym) : display sym ≠ "" := by
  rcases h with h | ⟨id, hpos, -, rfl⟩
  · rw [display_plain (hok sym h).2]
    exact (hok sym h).1
  · rw [display_ruleSymbol hpos]
    exact RuleRef_ne_empty id

/-- Only a rule reference means something else in another grammar. -/
theorem Sequitur.terminalsForRef_eq {ref : String} (h : displayRuleID ref = none)
    (s t : Sequitur) : s.terminalsForRef ref = t.terminalsForRef ref := by
  unfold displayRuleID at h
  unfold terminalsForRef
  split
  · rfl
  · next digits hdigits =>
    rw [hdigits] at h
    have hid : positiveID digits = none := h
    rw [hid]
  · rfl

namespace Sequitur.Sound

variable {ok : String → Prop} {s : Sequitur}

/-- The body of a taken id. -/
theorem exists_body (h : Sound ok s) {id : ℕ} (hpos : 0 < id) (hlt : id < s.nextID) :
    ∃ body, s.bodyOf id = some body := by
  obtain ⟨rule, hr⟩ := Option.isSome_iff_exists.mp (h.taken.mpr ⟨hpos, hlt⟩)
  exact ⟨rule.body, congrArg (Option.map Rule.body) hr⟩

/-- Known symbols spell something. -/
theorem exists_spells (h : Sound ok s) (hok : ∀ t, ok t → Plain t) {bound : ℕ}
    (hb : bound ≤ s.nextID) {syms : List Symbol} (hk : ∀ sym ∈ syms, Known ok bound sym) :
    ∃ ts, Spells s.bodyOf syms ts := by
  -- the nesting goes down with the bound, the sequence with the list
  induction bound using Nat.strongRecOn generalizing syms with
  | ind bound ih =>
    induction syms with
    | nil => exact ⟨[], .nil⟩
    | cons sym syms ihsyms =>
      obtain ⟨ts, hts⟩ := ihsyms fun s' hs' => hk s' (List.mem_cons_of_mem _ hs')
      rcases hk sym List.mem_cons_self with hterm | ⟨id, hpos, hlt, rfl⟩
      · exact ⟨sym :: ts, .terminal (hok sym hterm) hts⟩
      · obtain ⟨body, hbody⟩ := h.exists_body hpos (hlt.trans_le hb)
        obtain ⟨u, v, rfl, hu, hv, -⟩ := h.body id body hbody
        have hknown : ∀ sym ∈ [u, v], Known ok id sym := by
          intro sym hm
          rcases List.mem_cons.mp hm with rfl | hm
          · exact hu
          · rw [List.mem_singleton.mp hm]
            exact hv
        obtain ⟨us, hus⟩ := ih id hlt (hlt.le.trans hb) hknown
        exact ⟨us ++ ts, .rule hpos hbody hus hts⟩

/-- The ids are distinct, so each rule is found under its own. -/
theorem ruleOf_of_mem (h : Sound ok s) {rule : Rule} (hr : rule ∈ s.rules) :
    s.ruleOf rule.id = some rule := by
  obtain ⟨taken, htaken⟩ := Option.isSome_iff_exists.mp (h.taken.mpr (h.id_lt hr))
  have hids : (s.rules.map Rule.id).Nodup := by
    rw [h.ids]
    exact List.nodup_range'
  have heq := List.inj_on_of_nodup_map hids (ruleOf_mem htaken) hr (ruleOf_id htaken)
  rw [htaken, heq]

theorem body_of_mem (h : Sound ok s) {rule : Rule} (hr : rule ∈ s.rules) :
    ∃ u v, rule.body = [u, v] ∧ Known ok rule.id u ∧ Known ok rule.id v ∧
      s.ruleByDigram (u, v) = some rule.id :=
  h.body rule.id rule.body (congrArg (Option.map Rule.body) (h.ruleOf_of_mem hr))

theorem known_body (h : Sound ok s) {rule : Rule} (hr : rule ∈ s.rules) :
    ∀ sym ∈ rule.body, Known ok rule.id sym := by
  obtain ⟨u, v, hbody, hu, hv, -⟩ := h.body_of_mem hr
  intro sym hsym
  rw [hbody] at hsym
  rcases List.mem_cons.mp hsym with rfl | hsym
  · exact hu
  · rw [List.mem_singleton.mp hsym]
    exact hv

/-- The depth of a rule is found with one level for each older rule. -/
theorem ruleDepth_isSome (h : Sound ok s) (hok : ∀ t, ok t → Plain t) {fuel id : ℕ}
    (hlt : id < fuel) (stack : List ℕ) : ∃ depth, s.ruleDepth fuel id stack = some depth := by
  induction fuel generalizing id stack with
  | zero => exact absurd hlt (Nat.not_lt_zero id)
  | succ fuel ih =>
    rw [ruleDepth]
    by_cases hmem : id ∈ stack
    · rw [if_pos hmem]
      exact ⟨1, rfl⟩
    rw [if_neg hmem]
    cases hr : s.ruleOf id with
    | none => exact ⟨1, rfl⟩
    | some rule =>
      dsimp only
      -- a body names older rules only
      have hchild : ∀ child ∈ rule.body.filterMap ruleID, child < fuel := by
        intro child hc
        obtain ⟨sym, hsym, hid⟩ := List.mem_filterMap.mp hc
        have hknown := h.known_body (ruleOf_mem hr) sym hsym
        rw [ruleOf_id hr] at hknown
        rcases hknown with hterm | ⟨j, hpos, hj, rfl⟩
        · rw [ruleID_plain (hok sym hterm)] at hid
          cases hid
        · rw [ruleID_ruleSymbol hpos] at hid
          obtain rfl := Option.some.inj hid
          omega
      revert hchild
      generalize rule.body.filterMap ruleID = children
      intro hchild
      have hloop : ∀ depth : ℕ, ∃ last, children.foldlM (fun depth child =>
          (s.ruleDepth fuel child (id :: stack)).map fun nested => max depth (1 + nested))
          depth = some last := by
        induction children with
        | nil => exact fun depth => ⟨depth, rfl⟩
        | cons child children ihc =>
          intro depth
          obtain ⟨nested, hn⟩ := ih (hchild child List.mem_cons_self) (id :: stack)
          obtain ⟨last, hlast⟩ := ihc (fun c hc => hchild c (List.mem_cons_of_mem _ hc))
            (max depth (1 + nested))
          refine ⟨last, ?_⟩
          rw [List.foldlM_cons, hn]
          exact hlast
      exact hloop 1

/-- The terminals of a rule are what its body spells. -/
theorem terminalNames_eq (h : Sound ok s) (hok : ∀ t, ok t → Plain t) {rule : Rule}
    (hr : rule ∈ s.rules) {ts : List String} (hts : Spells s.bodyOf rule.body ts) :
    s.terminalNames rule = some ts := by
  have hlt := h.id_lt hr
  obtain ⟨k, hk⟩ : ∃ k, s.nextID = k + 1 := ⟨s.nextID - 1, by omega⟩
  rw [terminalNames, hk]
  -- one level down, the expansion of the body
  exact expand_of_spells h hok hts fun sym hsym => (h.known_body hr sym hsym).mono (by omega)

/-- Every rule can be expanded: references lead to earlier rules. -/
theorem terminalNames_isSome (h : Sound ok s) (hok : ∀ t, ok t → Plain t) {rule : Rule}
    (hr : rule ∈ s.rules) : ∃ ts, s.terminalNames rule = some ts := by
  obtain ⟨ts, hts⟩ := h.exists_spells hok (h.id_lt hr).2.le (h.known_body hr)
  exact ⟨ts, h.terminalNames_eq hok hr hts⟩

/-- A displayed symbol can be expanded, whatever it is. -/
theorem terminalsForRef_isSome (h : Sound ok s) (hok : ∀ t, ok t → Plain t) (ref : String) :
    ∃ ts, s.terminalsForRef ref = some ts := by
  unfold terminalsForRef
  split
  · exact ⟨[], rfl⟩
  · split
    · exact ⟨[], rfl⟩
    · split
      · exact ⟨[], rfl⟩
      · next rule hrule => exact h.terminalNames_isSome hok (ruleOf_mem hrule)
  · exact ⟨[ref], rfl⟩

/-- There are as many rules as ids were given out. -/
theorem length_rules (h : Sound ok s) : s.rules.length = s.nextID - 1 := by
  have hids := congrArg List.length h.ids
  rwa [List.length_map, List.length_range'] at hids

/-- The view of a rule: its id, its count and its displayed body. -/
def Shows (rule : Rule) (view : RuleView) : Prop :=
  view.id = rule.id ∧ view.count = rule.count ∧ view.symbols = rule.body.map display

/-- The displayed symbols are read back as the body. -/
theorem Shows.read {rule : Rule} {view : RuleView}
    (hok : ∀ t, ok t → Plain t ∧ displayRuleID t = none)
    (hknown : ∀ sym ∈ rule.body, Known ok rule.id sym) (h : Shows rule view) :
    view.symbols.map parseDisplay = rule.body := by
  rw [h.2.2, List.map_map]
  exact (List.map_congr_left fun sym hsym => (hknown sym hsym).parseDisplay_display hok).trans
    (List.map_id _)

/-- Every rule can be shown. -/
theorem ruleView_isSome (h : Sound ok s) (hok : ∀ t, ok t → Plain t) {rule : Rule}
    (hr : rule ∈ s.rules) : ∃ view, s.ruleView rule = some view ∧ Shows rule view := by
  have hlt : rule.id < s.rules.length + 1 := by
    have := h.id_lt hr
    rw [h.length_rules]
    omega
  obtain ⟨ts, hts⟩ := h.terminalNames_isSome hok hr
  obtain ⟨depth, hdepth⟩ := h.ruleDepth_isSome hok hlt []
  refine ⟨⟨rule.id, rule.count, depth, rule.body.map display, ts⟩, ?_, rfl, rfl, rfl⟩
  rw [ruleView, hts, hdepth]
  rfl

/-- The views of a sound grammar: one for each rule, in the order of the ids. -/
theorem ruleViews (h : Sound ok s) (hok : ∀ t, ok t → Plain t) :
    ∃ views, s.ruleViews = some views ∧ s.rules.Forall₂ Shows views := by
  obtain ⟨views, hviews, hshows⟩ := mapM_forall₂ fun rule hr => h.ruleView_isSome hok hr
  have hids : views.map RuleView.id = s.rules.map Rule.id := by
    clear hviews
    generalize s.rules = rules at hshows
    induction hshows with
    | nil => rfl
    | cons hv _ ih => rw [List.map_cons, List.map_cons, ih, hv.1]
  have hsorted : views.Pairwise fun a b => a.id ≤ b.id := by
    refine List.pairwise_map.mp ?_
    rw [hids, h.ids]
    exact (List.pairwise_lt_range' ..).imp Nat.le_of_lt
  refine ⟨views, ?_, hshows⟩
  rw [Sequitur.ruleViews, hviews, Option.map_some]
  exact congrArg some hsorted.insertionSort_eq

end Sequitur.Sound

end Symm.Tokenizer
