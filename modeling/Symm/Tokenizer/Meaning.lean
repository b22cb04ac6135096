import Symm.Tokenizer.SequiturSpec

/-!
# What a grammar spells

A rule table gives every sequence of symbols a meaning: terminals stand for
themselves, a rule reference for what the body of its rule spells.

- `Spells bodies syms ts`: the symbols `syms` spell the terminals `ts`;
- `Sound ok s`: the rules are numbered 1, 2, …, each body is a pair of symbols
  below its own id, and `ruleByDigram` finds exactly these bodies;
- `Inv ok s l ts`: a sound grammar whose root nodes `l` spell `ts`;
- `Inv.substitute`, `Inv.newRule`, `Inv.append`: what the primitives keep of it;
- `expand_of_spells`: the source's own expansion reads exactly what is spelled.

`ok` is what is known of the terminals fed so far.

The source has no notion of what a grammar means; it expands references when it is asked
to. `Spells` is that notion, as a relation, so that a reference to a rule that is not
there spells nothing and a cyclic table spells nothing that ends. Over a sound table it
is a function, and the one that the source computes.
-/

namespace Symm.Tokenizer

open Symm.Lib

/-! ## Spelling -/

/-- The symbols spell the terminals, under the rule bodies. -/
inductive Spells (bodies : ℕ → Option (List Symbol)) : List Symbol → List String → Prop
  | nil : Spells bodies [] []
  | terminal {token : String} {syms : List Symbol} {ts : List String} :
      Plain token → Spells bodies syms ts → Spells bodies (token :: syms) (token :: ts)
  | rule {id : ℕ} {body syms : List Symbol} {us ts : List String} :
      0 < id → bodies id = some body → Spells bodies body us → Spells bodies syms ts →
      Spells bodies (ruleSymbol id :: syms) (us ++ ts)

namespace Spells

variable {bodies bodies' : ℕ → Option (List Symbol)} {a b : List Symbol} {ts us : List String}

/-- Two parts spell what they spell one after the other. -/
theorem append (ha : Spells bodies a ts) (hb : Spells bodies b us) :
    Spells bodies (a ++ b) (ts ++ us) := by
  induction ha with
  | nil => exact hb
  | terminal ht _ ih => exact .terminal ht ih
  | rule hpos hbody hin _ _ ih =>
    rw [List.append_assoc]
    exact .rule hpos hbody hin ih

/-- What a prefix of the symbols spells is a prefix of the terminals. -/
theorem split (h : Spells bodies (a ++ b) ts) :
    ∃ t1 t2, ts = t1 ++ t2 ∧ Spells bodies a t1 ∧ Spells bodies b t2 := by
  induction a generalizing ts with
  | nil => exact ⟨[], ts, rfl, .nil, h⟩
  | cons sym a ih =>
    rw [List.cons_append] at h
    cases h with
    | terminal ht hrest =>
      obtain ⟨t1, t2, rfl, h1, h2⟩ := ih hrest
      exact ⟨_ :: t1, t2, rfl, .terminal ht h1, h2⟩
    | rule hpos hbody hin hrest =>
      obtain ⟨t1, t2, rfl, h1, h2⟩ := ih hrest
      exact ⟨_ ++ t1, t2, (List.append_assoc ..).symm, .rule hpos hbody hin h1, h2⟩

/-- New rules leave old spellings alone. -/
theorem mono (h : Spells bodies a ts)
    (hb : ∀ id body, bodies id = some body → bodies' id = some body) : Spells bodies' a ts := by
  induction h with
  | nil => exact .nil
  | terminal ht _ ih => exact .terminal ht ih
  | rule hpos hbody _ _ ihin ih => exact .rule hpos (hb _ _ hbody) ihin ih

/-- A rule reference in place of its body. -/
theorem fold {pre post : List Symbol} {u v : Symbol} {id : ℕ}
    (h : Spells bodies (pre ++ u :: v :: post) ts) (hpos : 0 < id)
    (hbody : bodies id = some [u, v]) : Spells bodies (pre ++ ruleSymbol id :: post) ts := by
  obtain ⟨t1, t2, rfl, hpre, hrest⟩ := h.split
  obtain ⟨t3, t4, rfl, hin, hpost⟩ := split (a := [u, v]) (b := post) hrest
  exact hpre.append (.rule hpos hbody hin hpost)

end Spells

/-- A terminal that was fed, or a reference to a rule below `bound`. -/
def Known (ok : String → Prop) (bound : ℕ) (sym : Symbol) : Prop :=
  ok sym ∨ ∃ id, 0 < id ∧ id < bound ∧ sym = ruleSymbol id

/-- What is known stays so as rules are added. -/
theorem Known.mono {ok : String → Prop} {m n : ℕ} {sym : Symbol} (h : Known ok m sym)
    (hmn : m ≤ n) : Known ok n sym := by
  rcases h with h | ⟨id, hpos, hlt, rfl⟩
  · exact Or.inl h
  · exact Or.inr ⟨id, hpos, hlt.trans_le hmn, rfl⟩

/-- The reference to a rule that does not exist yet is no known symbol. -/
theorem Known.ne_ruleSymbol {ok : String → Prop} (hok : ∀ t, ok t → t ≠ "" ∧ Plain t) {n : ℕ}
    {sym : Symbol} (h : Known ok n sym) : sym ≠ ruleSymbol n := by
  rcases h with h | ⟨id, _, hlt, rfl⟩
  · exact (hok sym h).2.ne_ruleSymbol n
  · exact fun heq => hlt.ne (ruleSymbol_injective heq)

namespace Sequitur

/-! ## The rule table -/

/-- The body of rule `id`. -/
def bodyOf (s : Sequitur) (id : ℕ) : Option (List Symbol) := (s.ruleOf id).map Rule.body

theorem ruleOf_id {s : Sequitur} {id : ℕ} {rule : Rule} (h : s.ruleOf id = some rule) :
    rule.id = id := by
  simpa using List.find?_some h

theorem ruleOf_mem {s : Sequitur} {id : ℕ} {rule : Rule} (h : s.ruleOf id = some rule) :
    rule ∈ s.rules :=
  List.mem_of_find?_eq_some h

/-- An id is taken exactly when some rule carries it. -/
theorem ruleOf_isSome {s : Sequitur} {id : ℕ} :
    (s.ruleOf id).isSome ↔ id ∈ s.rules.map Rule.id := by
  simp [ruleOf]

/-- Writing a rule takes its id and leaves the other ids as they were. -/
theorem ruleOf_setRule_isSome (s : Sequitur) (rule : Rule) (id : ℕ) :
    ((s.setRule rule).ruleOf id).isSome ↔ id = rule.id ∨ (s.ruleOf id).isSome := by
  rw [ruleOf_isSome, ruleOf_isSome]
  show id ∈ (s.rules.filter (·.id ≠ rule.id) ++ [rule]).map Rule.id ↔ _
  rw [List.map_append, List.mem_append, List.map_singleton, List.mem_singleton, or_comm]
  by_cases hid : id = rule.id
  · exact iff_of_true (.inl hid) (.inl hid)
  · rw [or_iff_right hid, or_iff_right hid, List.mem_map, List.mem_map]
    refine exists_congr fun r => ?_
    rw [List.mem_filter, decide_eq_true_iff]
    constructor
    · exact fun hr => ⟨hr.1.1, hr.2⟩
    · exact fun hr => ⟨⟨hr.1, fun heq => hid (hr.2.symm.trans heq)⟩, hr.2⟩

/-- Raising a count moves no rule and changes no body. -/
theorem ruleOf_setCount (s : Sequitur) (id j : ℕ) (count : ℤ) :
    (s.setCount id count).ruleOf j =
      (s.ruleOf j).map fun r => if r.id = id then { r with count := count } else r := by
  have hid : ∀ r : Rule, (if r.id = id then { r with count := count } else r).id = r.id := by
    intro r
    split <;> rfl
  simp only [ruleOf, setCount, List.find?_map, Function.comp_def, hid]

/-- Counting a use changes no body. -/
theorem bodyOf_setCount (s : Sequitur) (id : ℕ) (count : ℤ) :
    (s.setCount id count).bodyOf = s.bodyOf := by
  funext j
  rw [bodyOf, ruleOf_setCount, Option.map_map, bodyOf]
  congr 1
  funext r
  simp only [Function.comp_apply]
  split <;> rfl

theorem ids_setCount (s : Sequitur) (id : ℕ) (count : ℤ) :
    (s.setCount id count).rules.map Rule.id = s.rules.map Rule.id := by
  simp only [setCount, List.map_map]
  refine List.map_congr_left fun r _ => ?_
  by_cases hr : r.id = id
  · simp [hr]
  · simp [hr]

/-- The rules are numbered from 1, their bodies are pairs of older symbols, and
`ruleByDigram` finds exactly these bodies. -/
structure Sound (ok : String → Prop) (s : Sequitur) : Prop where
  pos : 0 < s.nextID
  ids : s.rules.map Rule.id = List.range' 1 (s.nextID - 1)
  body : ∀ id body, s.bodyOf id = some body → ∃ u v, body = [u, v] ∧
    Known ok id u ∧ Known ok id v ∧ s.ruleByDigram (u, v) = some id
  ruled : ∀ d id, s.ruleByDigram d = some id → s.bodyOf id = some [d.1, d.2]

namespace Sound

variable {ok : String → Prop} {s t : Sequitur}

/-- Soundness speaks of bodies, ids and digrams, and of nothing else. -/
theorem of_eq (h : Sound ok s) (hnext : t.nextID = s.nextID)
    (hids : t.rules.map Rule.id = s.rules.map Rule.id) (hbody : t.bodyOf = s.bodyOf)
    (hruled : t.ruleByDigram = s.ruleByDigram) : Sound ok t where
  pos := by
    rw [hnext]
    exact h.pos
  ids := by
    rw [hids, hnext]
    exact h.ids
  body := by
    rw [hbody, hruled]
    exact h.body
  ruled := by
    rw [hbody, hruled]
    exact h.ruled

/-- The taken ids are those from 1 up to the next one. -/
theorem taken (h : Sound ok s) {id : ℕ} :
    (s.ruleOf id).isSome ↔ 0 < id ∧ id < s.nextID := by
  have := h.pos
  rw [ruleOf_isSome, h.ids, List.mem_range'_1]
  omega

/-- A rule with a body has an id that was given out. -/
theorem taken_body (h : Sound ok s) {id : ℕ} {body : List Symbol}
    (hb : s.bodyOf id = some body) : 0 < id ∧ id < s.nextID := by
  obtain ⟨rule, hr, -⟩ := Option.map_eq_some_iff.mp hb
  exact h.taken.mp (by rw [hr]; rfl)

/-- A digram with a rule is the body of that rule. -/
theorem ruled_some (h : Sound ok s) {d : Digram} {rule : Rule} (hr : s.ruled d = some rule) :
    s.bodyOf rule.id = some [d.1, d.2] := by
  obtain ⟨id, hid, hrule⟩ := Option.bind_eq_some_iff.mp hr
  rw [ruleOf_id hrule]
  exact h.ruled d id hid

/-- A digram without a rule is not in the table either. -/
theorem ruled_none (h : Sound ok s) {d : Digram} (hr : s.ruled d = none) :
    s.ruleByDigram d = none := by
  by_contra hne
  obtain ⟨id, hid⟩ := Option.ne_none_iff_exists'.mp hne
  obtain ⟨rule, hrule, -⟩ := Option.map_eq_some_iff.mp (h.ruled d id hid)
  rw [Sequitur.ruled, hid, Option.bind_some, hrule] at hr
  cases hr

/-- The body of a rule is made of symbols below the next id. -/
theorem known_of_ruled (h : Sound ok s) {d : Digram} {id : ℕ}
    (hr : s.ruleByDigram d = some id) : Known ok s.nextID d.1 ∧ Known ok s.nextID d.2 := by
  have hb := h.ruled d id hr
  obtain ⟨u, v, heq, hu, hv, -⟩ := h.body id _ hb
  obtain ⟨rfl, rfl⟩ : d.1 = u ∧ d.2 = v := by simpa using heq
  exact ⟨hu.mono (h.taken_body hb).2.le, hv.mono (h.taken_body hb).2.le⟩

/-- Every symbol spells at least one terminal. -/
theorem length_le_of_spells (h : Sound ok s) {syms : List Symbol} {ts : List String}
    (hs : Spells s.bodyOf syms ts) : syms.length ≤ ts.length := by
  induction hs with
  | nil => exact Nat.le_refl 0
  | terminal _ _ ih =>
    rw [List.length_cons, List.length_cons]
    exact Nat.succ_le_succ ih
  | rule hpos hbody _ _ ihin ih =>
    obtain ⟨u, v, rfl, -⟩ := h.body _ _ hbody
    rw [List.length_cons, List.length_cons, List.length_nil] at ihin
    rw [List.length_cons, List.length_append]
    omega

/-- A single symbol that spells more than itself is a rule reference. -/
theorem singleton_of_spells (h : Sound ok s) {sym : Symbol} {ts : List String}
    (hs : Spells s.bodyOf [sym] ts) :
    ts = [sym] ∨ ∃ id, 0 < id ∧ sym = ruleSymbol id ∧ 2 ≤ ts.length := by
  cases hs with
  | terminal _ hrest =>
    cases hrest
    exact .inl rfl
  | rule hpos hbody hin hrest =>
    obtain ⟨u, v, rfl, -⟩ := h.body _ _ hbody
    have hlen := h.length_le_of_spells hin
    cases hrest
    rw [List.length_cons, List.length_cons, List.length_nil] at hlen
    exact .inr ⟨_, hpos, rfl, by rw [List.append_nil]; exact hlen⟩

end Sound

/-- A grammar without rules is sound. -/
theorem sound_new (ok : String → Prop) : Sound ok new where
  pos := Nat.one_pos
  ids := rfl
  body := by
    intro id body h
    cases h
  ruled := by
    intro d id h
    cases h

/-! ## The invariant -/

/-- A sound grammar whose root nodes `l` spell `ts`. -/
structure Inv (ok : String → Prop) (s : Sequitur) (l : List Ptr) (ts : List String) : Prop where
  shape : Shape s l
  sound : Sound ok s
  known : ∀ p ∈ l, Known ok s.nextID (s.val p)
  spells : Spells s.bodyOf (l.map s.val) ts

namespace Inv

variable {ok : String → Prop} {s : Sequitur} {l pre post : List Ptr} {ts : List String}
  {n v : Ptr} {id : ℕ}

/-- Another index over the same heap and the same rules. -/
theorem digrams {D : Digram → Option Ptr} (h : Inv ok s l ts)
    (hs : Shape { s with digrams := D } l) : Inv ok { s with digrams := D } l ts :=
  ⟨hs, h.sound.of_eq rfl rfl rfl rfl, h.known, h.spells⟩

/-- What the last token was plays no part in it. -/
theorem lastKind {kind : Kind} (h : Inv ok s l ts) : Inv ok { s with lastKind := kind } l ts :=
  ⟨h.shape.of_eq rfl rfl rfl rfl rfl rfl, h.sound.of_eq rfl rfl rfl rfl, h.known, h.spells⟩

theorem setCount {count : ℤ} (h : Inv ok s l ts) : Inv ok (s.setCount id count) l ts where
  shape := h.shape.of_eq rfl rfl rfl rfl rfl rfl
  sound := h.sound.of_eq rfl (ids_setCount s id count) (bodyOf_setCount s id count) rfl
  known := h.known
  spells := by
    rw [bodyOf_setCount]
    exact h.spells

/-- A rule reference takes the place of a pair of root nodes that is its body. -/
theorem substitute (h : Inv ok s (pre ++ n :: v :: post) ts)
    (hb : s.bodyOf id = some [s.val n, s.val v]) :
    Inv ok (s.substitute n id) (pre ++ n :: post) ts where
  shape := h.shape.substitute
  sound := h.sound.of_eq nextID_substitute (by rw [rules_substitute])
    (by funext j; simp only [bodyOf, ruleOf, rules_substitute]) ruleByDigram_substitute
  known := by
    intro p hp
    rw [nextID_substitute, val_substitute h.shape.pair]
    by_cases hpn : p = n
    · subst hpn
      rw [Function.update_self]
      obtain ⟨hpos, hlt⟩ := h.sound.taken_body hb
      exact Or.inr ⟨id, hpos, hlt, rfl⟩
    · rw [Function.update_of_ne hpn]
      refine h.known p ?_
      simp only [List.mem_append, List.mem_cons] at hp ⊢
      tauto
  spells := by
    have hbody : (s.substitute n id).bodyOf = s.bodyOf := by
      funext j
      simp only [bodyOf, ruleOf, rules_substitute]
    rw [h.shape.map_substitute, hbody]
    have hsp := h.spells
    simp only [List.map_append, List.map_cons] at hsp
    exact hsp.fold (h.sound.taken_body hb).1 hb

/-- The same, told of the node it starts at. -/
theorem spliced (h : Inv ok s l ts) (hn : n ∈ l) (hv : s.next n ≠ sentinel)
    (hb : s.bodyOf id = some [s.val n, s.val (s.next n)]) :
    ∃ l', Inv ok (s.substitute n id) l' ts ∧ Spliced s l n id l' := by
  obtain ⟨pre, post, hl, hsp⟩ := h.shape.spliced hn hv id
  rw [hl] at h
  exact ⟨pre ++ n :: post, h.substitute hb, hsp⟩

end Inv

/-! ## Minting a rule -/

section NewRule

variable {ok : String → Prop} {s : Sequitur} {l : List Ptr} {ts : List String} {d : Digram}

/-- Every id was given out before the next one. -/
theorem Sound.id_lt (h : Sound ok s) {rule : Rule} (hr : rule ∈ s.rules) :
    0 < rule.id ∧ rule.id < s.nextID := by
  rw [← h.taken, ruleOf_isSome]
  exact List.mem_map_of_mem hr

/-- The new rule takes an id no rule has, so the map write adds a rule. -/
theorem Sound.rules_newRule (h : Sound ok s) (d : Digram) :
    (s.newRule d).rules = s.rules ++ [{ id := s.nextID, count := 2, body := [d.1, d.2] }] := by
  show List.filter _ s.rules ++ [_] = _
  rw [List.filter_eq_self.mpr]
  intro r hr
  simpa using (h.id_lt hr).2.ne

/-- A new rule is found under the next id, and the others where they were. -/
theorem Sound.ruleOf_newRule (h : Sound ok s) (d : Digram) (j : ℕ) :
    (s.newRule d).ruleOf j =
      if j = s.nextID then some { id := s.nextID, count := 2, body := [d.1, d.2] }
      else s.ruleOf j := by
  rw [ruleOf, h.rules_newRule, List.find?_append]
  by_cases hj : j = s.nextID
  · subst hj
    have hnone : s.rules.find? (fun r => decide (r.id = s.nextID)) = none :=
      List.find?_eq_none.mpr fun r hr => by simpa using (h.id_lt hr).2.ne
    simp [hnone]
  · have hj' : ¬ s.nextID = j := fun heq => hj heq.symm
    simp [ruleOf, hj, hj']

theorem Sound.bodyOf_newRule (h : Sound ok s) (d : Digram) (j : ℕ) :
    (s.newRule d).bodyOf j = if j = s.nextID then some [d.1, d.2] else s.bodyOf j := by
  rw [bodyOf, h.ruleOf_newRule]
  split <;> rfl

/-- A rule over known symbols keeps the grammar sound. -/
theorem Sound.newRule (h : Sound ok s) (hd : s.ruleByDigram d = none)
    (h1 : Known ok s.nextID d.1) (h2 : Known ok s.nextID d.2) : Sound ok (s.newRule d) where
  pos := Nat.succ_pos _
  ids := by
    have hpos := h.pos
    show (s.newRule d).rules.map Rule.id = List.range' 1 (s.nextID + 1 - 1)
    rw [h.rules_newRule, List.map_append, h.ids]
    obtain ⟨k, hk⟩ : ∃ k, s.nextID = k + 1 := ⟨s.nextID - 1, by omega⟩
    rw [hk, Nat.add_sub_cancel, Nat.add_sub_cancel, List.range'_concat]
    simp [Nat.add_comm]
  body := by
    intro id body hb
    rw [h.bodyOf_newRule] at hb
    split at hb
    case isTrue hid =>
      obtain rfl : [d.1, d.2] = body := Option.some.inj hb
      refine ⟨d.1, d.2, rfl, hid ▸ h1, hid ▸ h2, ?_⟩
      rw [hid]
      exact Function.update_self ..
    case isFalse hid =>
      obtain ⟨u, v, rfl, hu, hv, hr⟩ := h.body id body hb
      refine ⟨u, v, rfl, hu, hv, ?_⟩
      refine (Function.update_of_ne ?_ _ _).trans hr
      rintro rfl
      rw [hd] at hr
      cases hr
  ruled := by
    intro d' id hr
    rw [h.bodyOf_newRule]
    by_cases hdd : d' = d
    · subst hdd
      have hid : s.nextID = id := by
        have : (s.newRule d').ruleByDigram d' = some s.nextID := Function.update_self ..
        exact Option.some.inj (this.symm.trans hr)
      rw [if_pos hid.symm]
    · -- an older digram has an older rule
      have hold : s.ruleByDigram d' = some id := (Function.update_of_ne hdd _ _).symm.trans hr
      have hb := h.ruled d' id hold
      rw [if_neg (h.taken_body hb).2.ne]
      exact hb

/-- And it changes nothing of what the root spells. -/
theorem Inv.newRule (h : Inv ok s l ts) (hd : s.ruleByDigram d = none)
    (h1 : Known ok s.nextID d.1) (h2 : Known ok s.nextID d.2) : Inv ok (s.newRule d) l ts where
  shape := h.shape.of_eq rfl rfl rfl rfl rfl rfl
  sound := h.sound.newRule hd h1 h2
  known := fun p hp => (h.known p hp).mono (Nat.le_succ _)
  spells := by
    refine h.spells.mono fun id body hb => ?_
    rw [h.sound.bodyOf_newRule, if_neg (h.sound.taken_body hb).2.ne]
    exact hb

end NewRule

/-! ## Feeding and clearing -/

section Feed

variable {ok : String → Prop} {s : Sequitur} {l : List Ptr} {ts : List String}

/-- Appending a token adds it to what is spelt. -/
theorem Inv.append (h : Inv ok s l ts) {token : String} (ht : ok token) (hne : token ≠ "")
    (hplain : Plain token) :
    Inv ok { s.appendNode token with length := s.length + 1, pendingLen := s.pendingLen + 1 }
      (l ++ [s.fresh]) (ts ++ [token]) where
  shape := h.shape.append hne
  sound := h.sound.of_eq rfl rfl rfl rfl
  known := by
    intro p hp
    have hmem := List.mem_map_of_mem (f := (s.appendNode token).val) hp
    rw [h.shape.map_append, List.mem_append, List.mem_singleton] at hmem
    rcases hmem with hmem | hmem
    · obtain ⟨q, hq, heq⟩ := List.mem_map.mp hmem
      show Known ok s.nextID ((s.appendNode token).val p)
      rw [← heq]
      exact h.known q hq
    · show Known ok s.nextID ((s.appendNode token).val p)
      rw [hmem]
      exact Or.inl ht
  spells := by
    show Spells s.bodyOf ((l ++ [s.fresh]).map (s.appendNode token).val) (ts ++ [token])
    rw [h.shape.map_append]
    exact h.spells.append (.terminal hplain .nil)

/-- A new sentence spells nothing. -/
theorem Inv.sentence (h : Inv ok s l ts) : Inv ok s.sentence [] [] where
  shape := h.shape.sentence
  sound := h.sound.of_eq rfl rfl rfl rfl
  known := by
    intro p hp
    cases hp
  spells := .nil

theorem Inv.pendingLen {n : ℕ} (h : Inv ok s l ts) : Inv ok { s with pendingLen := n } l ts :=
  ⟨h.shape.of_eq rfl rfl rfl rfl rfl rfl, h.sound.of_eq rfl rfl rfl rfl, h.known, h.spells⟩

/-- A new grammar spells nothing. -/
theorem inv_new (ok : String → Prop) : Inv ok new [] [] where
  shape := shape_new
  sound := sound_new ok
  known := by
    intro p hp
    cases hp
  spells := .nil

end Feed

/-! ## Expanding -/

section Expand

variable {ok : String → Prop} {s : Sequitur}

/-- The expansion of a sequence of symbols, with `fuel` levels of nesting. -/
def expand (s : Sequitur) (fuel : ℕ) (syms : List Symbol) : Option (List String) :=
  (syms.mapM (s.namesOf (s.collectTerminalNames fuel))).map List.flatten

/-- A body is expanded symbol by symbol. -/
theorem expand_cons {fuel : ℕ} {sym : Symbol} {syms : List Symbol} {us ts : List String}
    (hsym : s.namesOf (s.collectTerminalNames fuel) sym = some us)
    (hrest : s.expand fuel syms = some ts) : s.expand fuel (sym :: syms) = some (us ++ ts) := by
  obtain ⟨parts, hparts, rfl⟩ := Option.map_eq_some_iff.mp hrest
  simp [expand, hsym, hparts]

/-- The source's expansion reads what is spelled, as soon as the nesting it may
use reaches the newest rule mentioned. -/
theorem expand_of_spells (h : Sound ok s) (hok : ∀ t, ok t → Plain t) {syms : List Symbol}
    {ts : List String} (hs : Spells s.bodyOf syms ts) {fuel : ℕ}
    (hk : ∀ sym ∈ syms, Known ok (fuel + 1) sym) : s.expand fuel syms = some ts := by
  induction hs generalizing fuel with
  | nil => rfl
  | @terminal token syms ts ht _ ih =>
    have hsym : s.namesOf (s.collectTerminalNames fuel) token = some [token] := by
      rw [namesOf, ruleID_plain ht]
    exact expand_cons hsym (ih fun sym hm => hk sym (List.mem_cons_of_mem _ hm))
  | @rule id body syms us ts hpos hbody hin hrest ihin ih =>
    refine expand_cons ?_ (ih fun sym hm => hk sym (List.mem_cons_of_mem _ hm))
    obtain ⟨rule, hrule, rfl⟩ := Option.map_eq_some_iff.mp hbody
    have hlt : id < fuel + 1 := by
      rcases hk _ List.mem_cons_self with hterm | ⟨j, _, hj, heq⟩
      · exact absurd (prefix_ruleSymbol id) (hok _ hterm)
      · exact ruleSymbol_injective heq ▸ hj
    obtain ⟨k, rfl⟩ : ∃ k, fuel = k + 1 := ⟨fuel - 1, by omega⟩
    obtain ⟨u, v, huv, hu, hv, -⟩ := h.body id _ hbody
    rw [namesOf, ruleID_ruleSymbol hpos]
    simp only [hrule]
    refine ihin fun sym hm => ?_
    rw [huv] at hm
    rcases List.mem_cons.mp hm with rfl | hm
    · exact hu.mono (by omega)
    · rw [List.mem_singleton.mp hm]
      exact hv.mono (by omega)

end Expand

end Sequitur

end Symm.Tokenizer
