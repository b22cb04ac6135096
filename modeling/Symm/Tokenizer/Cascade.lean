import Symm.Tokenizer.Meaning

/-!
# The replacement cascade

One appended token can start a chain of replacements. The chain has two phases.

- At the tail: `check` looks at the last pair of the root. An older rule takes
  its place and the new last pair is looked at, until no rule applies.
- After a rule is minted: its symbol occurs at exactly two nodes and in no rule
  body, so the four neighbouring pairs can only be indexed or mint one further
  rule, again with exactly two occurrences.

In both phases the two occurrences `reduce` replaces are disjoint, though
`check` tests only two of the three ways to overlap: at the tail the third way
runs past the end, after minting it takes three occurrences of the new symbol.

- `minted_cascade`, `tail_cascade`: the two phases end and keep the meaning;
- `inv_analyze`: `Analyze` appends exactly the tokens it is fed.

The measure is the length of the root. Each replacement makes it one shorter, so the
depth that `Analyze` grants, a level for each node, is enough; and where the cascade of
a minted rule mints another one, the root has lost two nodes to the first.

A cascade changes the rules and the root, and it keeps the text that they spell
(`Kept`).
-/

namespace Symm.Tokenizer.Sequitur

open Symm.Lib

variable {ok : String → Prop} {s s' : Sequitur} {l : List Ptr} {ts : List String} {n a b : Ptr}
  {x : Symbol} {f : ℕ}

/-! ## One call of check -/

theorem check_of_sentinel (h : isSentinel n ∨ isSentinel (s.next n)) :
    check (f + 1) s n = some (s, none) := by
  rw [check, if_pos h]

/-- What `check` does with a pair of root nodes: a rule replaces it, or it is
indexed, or left alone for an overlap, or it makes a rule. -/
theorem check_pair (h : Shape s l) (hn : n ∈ l) (hv : s.next n ≠ sentinel) (f : ℕ) :
    (∃ rule, s.ruled (s.val n, s.val (s.next n)) = some rule ∧
      check (f + 1) s n = (checkAdjacencies (check f) (s.replaceRuled n rule) n n).map
        fun t => (t, some rule.id)) ∨
    (s.ruled (s.val n, s.val (s.next n)) = none ∧
      s.digrams (s.val n, s.val (s.next n)) = none ∧
      check (f + 1) s n = some ({ s with
        digrams := Function.update s.digrams (s.val n, s.val (s.next n)) (some n) }, none)) ∨
    (s.ruled (s.val n, s.val (s.next n)) = none ∧
      ∃ m, s.digrams (s.val n, s.val (s.next n)) = some m ∧ (m = n ∨ s.next m = n) ∧
        check (f + 1) s n = some (s, none)) ∨
    (s.ruled (s.val n, s.val (s.next n)) = none ∧
      ∃ m, s.digrams (s.val n, s.val (s.next n)) = some m ∧ m ≠ n ∧ s.next m ≠ n ∧
        check (f + 1) s n = reduce (check f) s n m (s.val n, s.val (s.next n))) := by
  have hn' : n ∈ sentinel :: l := List.mem_cons_of_mem _ hn
  -- neither node of the pair is the sentinel, so the check goes on
  have hguard : ¬ (isSentinel n ∨ isSentinel (s.next n)) := by
    rw [h.isSentinel_next hn']
    rintro (h1 | h1)
    · exact h.not_isSentinel hn h1
    · exact hv h1
  simp only [check, if_neg hguard]
  cases hr : s.ruled (s.val n, s.val (s.next n)) with
  | some rule => exact .inl ⟨rule, rfl, rfl⟩
  | none =>
    refine .inr ?_
    cases hd : s.digrams (s.val n, s.val (s.next n)) with
    | none => exact .inl ⟨by trivial, by trivial, rfl⟩
    | some m =>
      obtain ⟨hm, -, hkey⟩ := h.index _ m hd
      simp only [Prod.mk.injEq] at hkey
      -- an entry of the index is alive and shows its pair
      have hlive : s.next m ≠ nil ∧ s.val m = s.val n ∧ s.val (s.next m) = s.val (s.next n) :=
        ⟨h.next_ne_nil (List.mem_cons_of_mem _ hm), hkey.1.symm, hkey.2.symm⟩
      simp only [if_pos hlive]
      by_cases hov : m = n ∨ s.next m = n ∨ s.next m = s.next n
      · rw [if_pos hov]
        refine .inr (.inl ⟨by trivial, m, rfl, ?_, rfl⟩)
        rcases hov with heq | heq | heq
        · exact .inl heq
        · exact .inr heq
        · exact .inl (h.ring.next_inj (List.mem_cons_of_mem _ hm) hn' heq)
      · rw [if_neg hov]
        rw [not_or, not_or] at hov
        exact .inr (.inr ⟨by trivial, m, rfl, hov.1, hov.2.1, rfl⟩)

/-- The same, with the two ways to make no rule taken together. -/
theorem check_cases (h : Shape s l) (hn : n ∈ l) (hv : s.next n ≠ sentinel) (f : ℕ) :
    (∃ rule, s.ruled (s.val n, s.val (s.next n)) = some rule ∧
      check (f + 1) s n = (checkAdjacencies (check f) (s.replaceRuled n rule) n n).map
        fun t => (t, some rule.id)) ∨
    (s.ruled (s.val n, s.val (s.next n)) = none ∧
      ∃ D, check (f + 1) s n = some ({ s with digrams := D }, none) ∧
        Shape { s with digrams := D } l ∧
        (s.digrams (s.val n, s.val (s.next n)) = none →
          D = Function.update s.digrams (s.val n, s.val (s.next n)) (some n))) ∨
    (s.ruled (s.val n, s.val (s.next n)) = none ∧
      ∃ m, s.digrams (s.val n, s.val (s.next n)) = some m ∧ m ≠ n ∧ s.next m ≠ n ∧
        check (f + 1) s n = reduce (check f) s n m (s.val n, s.val (s.next n))) := by
  rcases check_pair h hn hv f with hrule | ⟨hr, -, hc⟩ | ⟨hr, m, hm, -, hc⟩ | hmint
  · exact .inl hrule
  · exact .inr (.inl ⟨hr, _, hc, h.indexed hn hv, fun _ => rfl⟩)
  · refine .inr (.inl ⟨hr, s.digrams, hc, h, fun hnone => ?_⟩)
    rw [hm] at hnone
    cases hnone
  · exact .inr (.inr hmint)

/-! ## What a cascade keeps -/

/-- The grammar still spells `ts`, and what was out of the root stays out. -/
structure Kept (ok : String → Prop) (s : Sequitur) (ts : List String) (s' : Sequitur) : Prop where
  inv : ∃ l', Inv ok s' l' ts
  detached : ∀ p, Detached s p → Detached s' p

theorem Kept.refl (h : Inv ok s l ts) : Kept ok s ts s := ⟨⟨l, h⟩, fun _ hp => hp⟩

theorem Kept.trans {t : Sequitur} (h : Kept ok s ts t) (h' : Kept ok t ts s') :
    Kept ok s ts s' :=
  ⟨h'.inv, fun p hp => h'.detached p (h.detached p hp)⟩

/-- A symbol just minted: two root nodes hold it, and no rule body does. -/
structure Minted (s : Sequitur) (l : List Ptr) (x : Symbol) (a b : Ptr) : Prop where
  mem_a : a ∈ l
  mem_b : b ∈ l
  ne : a ≠ b
  val_a : s.val a = x
  val_b : s.val b = x
  only : ∀ p ∈ l, s.val p = x → p = a ∨ p = b
  unruled : ∀ d : Digram, d.1 = x ∨ d.2 = x → s.ruleByDigram d = none

/-- The minted symbol has not been indexed. -/
def Unindexed (s : Sequitur) (x : Symbol) : Prop :=
  ∀ d : Digram, d.1 = x ∨ d.2 = x → s.digrams d = none

theorem Minted.digrams {D : Digram → Option Ptr} (h : Minted s l x a b) :
    Minted { s with digrams := D } l x a b :=
  ⟨h.mem_a, h.mem_b, h.ne, h.val_a, h.val_b, h.only, h.unruled⟩

/-- No pair with the symbol of a new rule has a rule yet. -/
theorem Minted.ruled (h : Minted s l x a b) {d : Digram} (hd : d.1 = x ∨ d.2 = x) :
    s.ruled d = none := by
  rw [Sequitur.ruled, h.unruled d hd]
  rfl

/-! ## Minting at two disjoint pairs -/

/-- The two splices of `replaceBoth`, from the state with the new rule. -/
theorem Inv.splice_both (h : Inv ok s l ts) {m : Ptr} {d : Digram} (hn : n ∈ l)
    (hv : s.next n ≠ sentinel) (hd : d = (s.val n, s.val (s.next n)))
    (hm : s.digrams d = some m) (hr : s.ruleByDigram d = none)
    (hmn : m ≠ n) (hback : s.next m ≠ n) (hfront : s.next n ≠ m) :
    ∃ l1 l2, Spliced (s.newRule d) l m s.nextID l1 ∧
      Spliced ((s.newRule d).substitute m s.nextID) l1 n s.nextID l2 ∧
      ((s.newRule d).substitute m s.nextID).next n = s.next n ∧
      Inv ok (((s.newRule d).substitute m s.nextID).substitute n s.nextID) l2 ts := by
  obtain ⟨hml, hmv, hkey⟩ := h.shape.index _ m hm
  have hpair : s.val n = s.val m ∧ s.val (s.next n) = s.val (s.next m) := by
    rw [hd, Prod.mk.injEq] at hkey
    exact hkey
  have hvl : s.next n ∈ l := h.shape.next_mem hn hv
  have h0 : Inv ok (s.newRule d) l ts :=
    h.newRule hr (by rw [hd]; exact h.known n hn) (by rw [hd]; exact h.known _ hvl)
  have hbody : (s.newRule d).bodyOf s.nextID = some [s.val n, s.val (s.next n)] := by
    rw [h.sound.bodyOf_newRule, if_pos rfl, hd]
  have hb0 : (s.newRule d).bodyOf s.nextID =
      some [(s.newRule d).val m, (s.newRule d).val ((s.newRule d).next m)] := by
    rw [hbody, hpair.1, hpair.2]
    rfl
  obtain ⟨l1, h1, hsp1⟩ := h0.spliced hml hmv hb0
  -- the second occurrence is where it was
  have hvm : s.next n ≠ s.next m := fun heq =>
    hmn (h.shape.ring.next_inj (List.mem_cons_of_mem _ hml) (List.mem_cons_of_mem _ hn) heq.symm)
  have hnext1 : ((s.newRule d).substitute m s.nextID).next n = s.next n :=
    hsp1.next n hmn.symm hback.symm
  have hn1 : n ∈ l1 := (hsp1.mem n).mpr ⟨hn, hback.symm⟩
  have hb1 : ((s.newRule d).substitute m s.nextID).bodyOf s.nextID =
      some [((s.newRule d).substitute m s.nextID).val n,
        ((s.newRule d).substitute m s.nextID).val
          (((s.newRule d).substitute m s.nextID).next n)] := by
    rw [hnext1, hsp1.val, Function.update_of_ne hmn.symm, Function.update_of_ne hfront]
    simp only [bodyOf, ruleOf, rules_substitute]
    exact hbody
  obtain ⟨l2, h2, hsp2⟩ := h1.spliced hn1 (by rw [hnext1]; exact hv) hb1
  exact ⟨l1, l2, hsp1, hsp2, hnext1, h2⟩

/-- Both nodes hold the symbol of the new rule. -/
theorem val_replaceBoth {m : Ptr} {d : Digram} {l1 l2 : List Ptr}
    (hsp1 : Spliced (s.newRule d) l m s.nextID l1)
    (hsp2 : Spliced ((s.newRule d).substitute m s.nextID) l1 n s.nextID l2) :
    (s.replaceBoth n m d).val =
      Function.update (Function.update s.val m (ruleSymbol s.nextID)) n
        (ruleSymbol s.nextID) := by
  show (((s.newRule d).substitute m s.nextID).substitute n s.nextID).val = _
  rw [hsp2.val, hsp1.val]
  rfl

/-- The entries that are left were left by the two splices. -/
theorem digrams_replaceBoth {m p : Ptr} {d d' : Digram}
    (h : (s.replaceBoth n m d).digrams d' = some p) :
    (((s.newRule d).substitute m s.nextID).substitute n s.nextID).digrams d' = some p := by
  have hwrite : (s.replaceBoth n m d).digrams = Function.update
    (((s.newRule d).substitute m s.nextID).substitute n s.nextID).digrams d none := rfl
  rw [hwrite] at h
  by_cases hdd : d' = d
  · rw [hdd, Function.update_self] at h
    cases h
  · rwa [Function.update_of_ne hdd] at h

/-- Replacing two disjoint occurrences of a digram without a rule. -/
theorem Inv.replaceBoth (hok : ∀ t, ok t → t ≠ "" ∧ Plain t) (h : Inv ok s l ts) {m : Ptr}
    {d : Digram} (hn : n ∈ l) (hv : s.next n ≠ sentinel) (hd : d = (s.val n, s.val (s.next n)))
    (hm : s.digrams d = some m) (hr : s.ruleByDigram d = none)
    (hmn : m ≠ n) (hback : s.next m ≠ n) (hfront : s.next n ≠ m) :
    ∃ l', Inv ok (s.replaceBoth n m d) l' ts ∧ l'.length + 2 = l.length ∧
      Minted (s.replaceBoth n m d) l' (ruleSymbol s.nextID) m n ∧
      Unindexed (s.replaceBoth n m d) (ruleSymbol s.nextID) ∧
      (∀ p, Detached s p → Detached (s.replaceBoth n m d) p) ∧
      Detached (s.replaceBoth n m d) (s.next n) := by
  obtain ⟨l1, l2, hsp1, hsp2, hnext1, h2⟩ := h.splice_both hn hv hd hm hr hmn hback hfront
  obtain ⟨hml, -, -⟩ := h.shape.index _ m hm
  -- the name of the new rule is on no node yet
  have hold : ∀ p ∈ l, s.val p ≠ ruleSymbol s.nextID := fun p hp =>
    (h.known p hp).ne_ruleSymbol hok
  -- both nodes outlive the splices, which take out what follows them
  have hm2 : m ∈ l2 := by
    rw [hsp2.mem, hsp1.mem, hnext1]
    exact ⟨⟨hml, (h.shape.ring.next_ne_self hml).symm⟩, hfront.symm⟩
  have hn2 : n ∈ l2 := by
    rw [hsp2.mem, hsp1.mem, hnext1]
    exact ⟨⟨hn, hback.symm⟩, (h.shape.ring.next_ne_self hn).symm⟩
  have hval := val_replaceBoth hsp1 hsp2
  have hdigrams : ∀ d' p, (s.replaceBoth n m d).digrams d' = some p →
      s.digrams d' = some p := fun d' p hp =>
    hsp1.digrams d' p (hsp2.digrams d' p (digrams_replaceBoth hp))
  refine ⟨l2, h2.digrams (h2.shape.shrink fun d' p hp => digrams_replaceBoth hp), ?_,
    ⟨hm2, hn2, hmn, ?_, ?_, ?_, ?_⟩, ?_, ?_, ?_⟩
  · have := hsp1.length
    have := hsp2.length
    omega
  · rw [hval, Function.update_of_ne hmn, Function.update_self]
  · rw [hval, Function.update_self]
  · -- no third node carries the new symbol
    intro p hp hx
    by_contra hne
    rw [not_or] at hne
    rw [hval, Function.update_of_ne hne.2, Function.update_of_ne hne.1] at hx
    exact hold p ((hsp1.mem p).mp ((hsp2.mem p).mp hp).1).1 hx
  · -- every body is made of symbols that existed before the rule
    intro d' hx
    have hrules : (s.replaceBoth n m d).ruleByDigram =
        Function.update s.ruleByDigram d (some s.nextID) := by
      show (((s.newRule d).substitute m s.nextID).substitute n s.nextID).ruleByDigram = _
      rw [ruleByDigram_substitute, ruleByDigram_substitute]
      rfl
    rw [hrules]
    by_cases hdd : d' = d
    · exfalso
      rw [hdd, hd] at hx
      rcases hx with hx | hx
      · exact hold n hn hx
      · exact hold _ (h.shape.next_mem hn hv) hx
    · rw [Function.update_of_ne hdd]
      by_contra hne
      obtain ⟨id, hid⟩ := Option.ne_none_iff_exists'.mp hne
      obtain ⟨h1, h2⟩ := h.sound.known_of_ruled hid
      rcases hx with hx | hx
      · exact h1.ne_ruleSymbol hok hx
      · exact h2.ne_ruleSymbol hok hx
  · -- an indexed digram was indexed before, and none of those has the new symbol
    intro d' hx
    by_contra hne
    obtain ⟨p, hp⟩ := Option.ne_none_iff_exists'.mp hne
    obtain ⟨hpl, hpv, rfl⟩ := h.shape.index d' p (hdigrams d' p hp)
    rcases hx with hx | hx
    · exact hold p hpl hx
    · exact hold _ (h.shape.next_mem hpl hpv) hx
  · intro p hp
    exact hsp2.detached p (hsp1.detached p hp)
  · have := hsp2.victim
    rw [hnext1] at this
    exact this

/-! ## After a rule is minted -/

/-- The cascade after minting ends and keeps the meaning, for roots of at most
`f` nodes. -/
def MintedEnds (ok : String → Prop) (f : ℕ) : Prop :=
  ∀ s l ts x a b, Inv ok s l ts → Minted s l x a b → Unindexed s x → l.length ≤ f →
    ∃ s', checkAdjacencies (check f) s a b = some s' ∧ Kept ok s ts s'

/-- A digram that is neither ruled nor indexed is indexed. -/
theorem check_new_digram (h : Shape s l) (hn : n ∈ l) (hv : s.next n ≠ sentinel)
    (hr : s.ruled (s.val n, s.val (s.next n)) = none)
    (hd : s.digrams (s.val n, s.val (s.next n)) = none) (f : ℕ) :
    check (f + 1) s n = some ({ s with
      digrams := Function.update s.digrams (s.val n, s.val (s.next n)) (some n) }, none) := by
  rcases check_cases h hn hv f with ⟨rule, hrule, -⟩ | ⟨-, D, hD, -, hnew⟩ | ⟨-, m, hm, -⟩
  · rw [hr] at hrule
    cases hrule
  · rw [hD, hnew hd]
  · rw [hd] at hm
    cases hm

/-- A pair that holds the minted symbol is indexed or minted in turn. -/
theorem check_minted (hok : ∀ t, ok t → t ≠ "" ∧ Plain t) (hends : MintedEnds ok f)
    (h : Inv ok s l ts) (hx : Minted s l x a b) (hn : n ∈ l) (hv : s.next n ≠ sentinel)
    (hd : s.val n = x ∨ s.val (s.next n) = x) (hf : l.length ≤ f + 1) :
    (∃ D, check (f + 1) s n = some ({ s with digrams := D }, none) ∧
      Inv ok { s with digrams := D } l ts) ∨
    (∃ s' r, check (f + 1) s n = some (s', r) ∧ Kept ok s ts s' ∧ Detached s' (s.next n)) := by
  have hr : s.ruled (s.val n, s.val (s.next n)) = none := hx.ruled hd
  rcases check_cases h.shape hn hv f with ⟨rule, hrule, -⟩ | ⟨-, D, hD, hs, -⟩ |
    ⟨-, m, hm, hmn, hback, hred⟩
  · rw [hr] at hrule
    cases hrule
  · exact Or.inl ⟨D, hD, h.digrams hs⟩
  · obtain ⟨hml, hmv, hkey⟩ := h.shape.index _ m hm
    -- overlapping the other way would take three nodes that hold `x`
    have hfront : s.next n ≠ m := by
      rintro heq
      rw [Prod.mk.injEq, heq] at hkey
      have hxn : s.val n = x := by
        rcases hd with hd | hd
        · exact hd
        · rw [hkey.1, ← heq]
          exact hd
      have hxm : s.val m = x := hkey.1.symm.trans hxn
      have hxv : s.val (s.next m) = x := hkey.2.symm.trans hxm
      have h1 := hx.only n hn hxn
      have h2 := hx.only m hml hxm
      have h3 := hx.only _ (h.shape.next_mem hml hmv) hxv
      have h4 := h.shape.ring.next_ne_self hml
      rcases h1 with rfl | rfl <;> rcases h2 with rfl | rfl <;> tauto
    obtain ⟨l', hinv, hlen, hx', hun, hdet, hvic⟩ :=
      h.replaceBoth hok hn hv rfl hm (h.sound.ruled_none hr) hmn hback hfront
    obtain ⟨s', hs', hkept⟩ := hends _ l' ts _ m n hinv hx' hun (by omega)
    refine Or.inr ⟨s', some s.nextID, ?_, ⟨hkept.inv, ?_⟩, hkept.detached _ hvic⟩
    · rw [hred, reduce, hs']
      rfl
    · exact fun p hp => hkept.detached p (hdet p hp)

/-- The pairs around the first occurrence are new, so they are only indexed. -/
theorem first_occurrence (h : Inv ok s l ts) (hx : Minted s l x a b) (hun : Unindexed s x)
    (f : ℕ) :
    ∃ D, ((checkIf (check (f + 1)) s (¬ isSentinel a ∧ ¬ isSentinel (s.prev a))
        (s.prev a)).bind fun t => checkIf (check (f + 1)) t (¬ isSentinel a) a) =
        some { s with digrams := D } ∧ Inv ok { s with digrams := D } l ts := by
  have ha := h.shape.not_isSentinel hx.mem_a
  have ha' : a ∈ sentinel :: l := List.mem_cons_of_mem _ hx.mem_a
  -- before the first occurrence
  obtain ⟨D, hD, hinv, hclean⟩ : ∃ D, checkIf (check (f + 1)) s
      (¬ isSentinel a ∧ ¬ isSentinel (s.prev a)) (s.prev a) = some { s with digrams := D } ∧
      Inv ok { s with digrams := D } l ts ∧
      ∀ y, y ≠ x ∨ s.val (s.prev a) ≠ x → D (x, y) = none := by
    by_cases hp : s.prev a = sentinel
    · refine ⟨s.digrams, ?_, h, fun y _ => hun _ (Or.inl rfl)⟩
      rw [checkIf, if_neg]
      rintro ⟨-, h2⟩
      exact h2 (Or.inr hp)
    · have hpl := h.shape.prev_mem hx.mem_a hp
      have hnext : s.next (s.prev a) = a := h.shape.ring.next_prev ha'
      have hv : s.next (s.prev a) ≠ sentinel := by
        rw [hnext]
        exact h.shape.ne_sentinel hx.mem_a
      have hd : s.val (s.prev a) = x ∨ s.val (s.next (s.prev a)) = x := by
        rw [hnext]
        exact Or.inr hx.val_a
      refine ⟨_, ?_, h.digrams (h.shape.indexed hpl hv), ?_⟩
      · rw [checkIf, if_pos ⟨ha, h.shape.not_isSentinel hpl⟩,
          check_new_digram h.shape hpl hv (hx.ruled hd) (hun _ hd)]
        rfl
      · intro y hy
        rw [hnext, hx.val_a, Function.update_of_ne]
        · exact hun _ (Or.inl rfl)
        · intro heq
          rw [Prod.mk.injEq] at heq
          rcases hy with hy | hy
          · exact hy heq.2
          · exact hy heq.1.symm
  rw [hD]
  -- behind it
  show ∃ D', checkIf (check (f + 1)) { s with digrams := D } (¬ isSentinel a) a = _ ∧ _
  rw [checkIf, if_pos ha]
  by_cases hv : s.next a = sentinel
  · have hcheck : check (f + 1) { s with digrams := D } a = _ :=
      check_of_sentinel (Or.inr (Or.inr hv))
    rw [hcheck]
    exact ⟨D, rfl, hinv⟩
  · have hvl := h.shape.next_mem hx.mem_a hv
    have hy : s.val (s.next a) ≠ x ∨ s.val (s.prev a) ≠ x := by
      by_contra hne
      rw [not_or, not_not, not_not] at hne
      have hpl : s.prev a ∈ l := h.shape.prev_mem hx.mem_a fun hs => by
        rw [hs, h.shape.blank] at hne
        exact h.shape.filled a hx.mem_a (hx.val_a.trans hne.2.symm)
      have hnext : s.next (s.prev a) = a := h.shape.ring.next_prev ha'
      have h1 := (hx.only _ hvl hne.1).resolve_left (h.shape.ring.next_ne_self hx.mem_a)
      have h2 := (hx.only _ hpl hne.2).resolve_left fun heq =>
        h.shape.ring.next_ne_self hx.mem_a (by rw [heq] at hnext; exact hnext)
      exact h.shape.ring.prev_ne_next hx.mem_a hv (h2.trans h1.symm)
    have hd : s.val a = x ∨ s.val (s.next a) = x := Or.inl hx.val_a
    have hnone : D (s.val a, s.val (s.next a)) = none := by
      rw [hx.val_a]
      exact hclean _ hy
    have hrule : ({ s with digrams := D } : Sequitur).ruled (s.val a, s.val (s.next a)) = none :=
      hx.ruled hd
    have hcheck := check_new_digram hinv.shape hx.mem_a hv hrule hnone f
    rw [hcheck]
    exact ⟨_, rfl, hinv.digrams (hinv.shape.indexed hx.mem_a hv)⟩

/-- The pairs around the second occurrence are indexed or mint one more rule. -/
theorem second_occurrence (hok : ∀ t, ok t → t ≠ "" ∧ Plain t) (hends : MintedEnds ok f)
    (h : Inv ok s l ts) (hx : Minted s l x a b) (hf : l.length ≤ f + 1) :
    ∃ s', ((checkIf (check (f + 1)) s (¬ isSentinel b ∧ b ≠ a ∧ ¬ isSentinel (s.prev b))
        (s.prev b)).bind fun t => checkIf (check (f + 1)) t (¬ isSentinel b ∧ b ≠ a) b) =
        some s' ∧ Kept ok s ts s' := by
  have hb := h.shape.not_isSentinel hx.mem_b
  -- behind it, when the pair before was left alone
  have hbehind : ∀ D, Inv ok { s with digrams := D } l ts →
      ∃ s', checkIf (check (f + 1)) { s with digrams := D } (¬ isSentinel b ∧ b ≠ a) b =
        some s' ∧ Kept ok s ts s' := by
    intro D hinv
    have hxD : Minted { s with digrams := D } l x a b := hx.digrams
    rw [checkIf, if_pos ⟨hb, hx.ne.symm⟩]
    by_cases hv : s.next b = sentinel
    · have hcheck : check (f + 1) { s with digrams := D } b = _ :=
        check_of_sentinel (Or.inr (Or.inr hv))
      rw [hcheck]
      exact ⟨_, rfl, ⟨l, hinv⟩, fun _ hp => hp⟩
    · rcases check_minted hok hends hinv hxD hxD.mem_b hv (Or.inl hxD.val_b) hf with
        ⟨D', hD', hinv'⟩ | ⟨s', r, hs', hkept, -⟩
      · rw [hD']
        exact ⟨_, rfl, ⟨l, hinv'⟩, fun _ hp => hp⟩
      · rw [hs']
        exact ⟨s', rfl, hkept.inv, hkept.detached⟩
  by_cases hp : s.prev b = sentinel
  · rw [checkIf, if_neg fun hg => hg.2.2 (Or.inr hp)]
    exact hbehind s.digrams h
  · have hpl := h.shape.prev_mem hx.mem_b hp
    have hnext : s.next (s.prev b) = b :=
      h.shape.ring.next_prev (List.mem_cons_of_mem _ hx.mem_b)
    have hv : s.next (s.prev b) ≠ sentinel := by
      rw [hnext]
      exact h.shape.ne_sentinel hx.mem_b
    have hd : s.val (s.prev b) = x ∨ s.val (s.next (s.prev b)) = x := by
      rw [hnext]
      exact Or.inr hx.val_b
    rw [checkIf, if_pos ⟨hb, hx.ne.symm, h.shape.not_isSentinel hpl⟩]
    rcases check_minted hok hends h hx hpl hv hd hf with ⟨D, hD, hinv⟩ | ⟨s', r, hs', hkept, hdet⟩
    · rw [hD]
      exact hbehind D hinv
    · -- a rule took the second occurrence out of the root
      rw [hnext] at hdet
      refine ⟨s', ?_, hkept⟩
      rw [hs']
      show checkIf (check (f + 1)) s' (¬ isSentinel b ∧ b ≠ a) b = some s'
      rw [checkIf, if_pos ⟨hb, hx.ne.symm⟩, check_of_sentinel (Or.inr (Or.inl hdet))]
      rfl

/-- The pairs that a replacement made are checked from left to right, each on what the one
before it left. -/
theorem checkAdjacencies_eq
    (check : Sequitur → Ptr → Option (Sequitur × Option ℕ)) (s : Sequitur) (a b : Ptr) :
    checkAdjacencies check s a b =
      ((checkIf check s (¬ isSentinel a ∧ ¬ isSentinel (s.prev a)) (s.prev a)).bind fun t =>
        checkIf check t (¬ isSentinel a) a).bind fun t =>
      (checkIf check t (¬ isSentinel b ∧ b ≠ a ∧ ¬ isSentinel (t.prev b)) (t.prev b)).bind fun t =>
        checkIf check t (¬ isSentinel b ∧ b ≠ a) b := by
  rw [Option.bind_assoc]
  rfl

/-- The cascade after minting ends: it takes nodes away each time it recurses. -/
theorem minted_cascade (hok : ∀ t, ok t → t ≠ "" ∧ Plain t) (f : ℕ) : MintedEnds ok f := by
  induction f with
  | zero =>
    intro s l ts x a b _ hx _ hf
    have := List.length_pos_of_mem hx.mem_a
    omega
  | succ f ih =>
    intro s l ts x a b h hx hun hf
    obtain ⟨D, hfirst, hinv⟩ := first_occurrence h hx hun f
    obtain ⟨s', hsecond, hkept⟩ := second_occurrence hok ih hinv hx.digrams hf
    refine ⟨s', ?_, hkept.inv, hkept.detached⟩
    rw [checkAdjacencies_eq, hfirst]
    exact hsecond

/-! ## At the tail -/

/-- An older rule takes the place of a pair that is its body. -/
theorem Inv.replaceRuled {pre : List Ptr} {t : Ptr} {rule : Rule}
    (h : Inv ok s (pre ++ [n, t]) ts) (hr : s.ruled (s.val n, s.val t) = some rule) :
    Inv ok (s.replaceRuled n rule) (pre ++ [n]) ts ∧
      Kept ok s ts (s.replaceRuled n rule) ∧ Detached (s.replaceRuled n rule) t := by
  have hb := h.sound.ruled_some hr
  have h1 : Inv ok (s.setCount rule.id (rule.count + 1)) (pre ++ [n, t]) ts := h.setCount
  have hb1 : (s.setCount rule.id (rule.count + 1)).bodyOf rule.id = some [s.val n, s.val t] := by
    rw [bodyOf_setCount]
    exact hb
  have h2 := h1.substitute hb1
  have hvic : Detached ((s.setCount rule.id (rule.count + 1)).substitute n rule.id) t :=
    h1.shape.detached_victim
  have hdet : ∀ p, Detached s p →
      Detached ((s.setCount rule.id (rule.count + 1)).substitute n rule.id) p :=
    fun p hp => h1.shape.detached_substitute hp
  simp only [Sequitur.replaceRuled]
  split
  · exact ⟨h2.lastKind, ⟨⟨_, h2.lastKind⟩, hdet⟩, hvic⟩
  · exact ⟨h2, ⟨⟨_, h2⟩, hdet⟩, hvic⟩

/-- Around a single node only the pairs before and behind it are looked at. -/
theorem checkAdjacencies_self
    (check : Sequitur → Ptr → Option (Sequitur × Option ℕ)) (s : Sequitur) (a : Ptr) :
    checkAdjacencies check s a a =
      (checkIf check s (¬ isSentinel a ∧ ¬ isSentinel (s.prev a)) (s.prev a)).bind fun t =>
        checkIf check t (¬ isSentinel a) a := by
  rw [checkAdjacencies_eq]
  have hskip : ∀ t, ((checkIf check t (¬ isSentinel a ∧ a ≠ a ∧ ¬ isSentinel (t.prev a))
      (t.prev a)).bind fun t => checkIf check t (¬ isSentinel a ∧ a ≠ a) a) = some t := by
    intro t
    rw [checkIf, if_neg fun hg => hg.2.1 rfl, Option.bind_some, checkIf,
      if_neg fun hg => hg.2 rfl]
  simp only [hskip, Option.bind_fun_some]

/-- The cascade at the tail ends, keeps the meaning, and leaves nothing behind
the node it started before. -/
theorem tail_cascade (hok : ∀ t, ok t → t ≠ "" ∧ Plain t) (f : ℕ) :
    ∀ s pre n t ts, Inv ok s (pre ++ [n, t]) ts → (pre ++ [n, t]).length ≤ f →
      ∃ s' r, check f s n = some (s', r) ∧ Kept ok s ts s' ∧ isSentinel (s'.next t) := by
  induction f with
  | zero =>
    intro s pre n t ts _ hf
    simp at hf
  | succ f ih =>
    intro s pre n t ts h hf
    have hn : n ∈ pre ++ [n, t] := by simp
    have hnext : s.next n = t := h.shape.ring.next_pair
    have hend : s.next t = sentinel := by
      have := h.shape.ring.next_snd
      simpa using this
    have hv : s.next n ≠ sentinel := by
      rw [hnext]
      exact h.shape.ne_sentinel (by simp)
    rcases check_cases h.shape hn hv f with ⟨rule, hrule, hcheck⟩ | ⟨-, D, hD, hs, -⟩ |
      ⟨hr, m, hm, hmn, hback, hred⟩
    · -- an older rule: go on with the pair before
      rw [hnext] at hrule
      obtain ⟨h1, hkept, hdet⟩ := h.replaceRuled hrule
      have hn1 := h1.shape.not_isSentinel (n := n) (by simp)
      have hend1 : (s.replaceRuled n rule).next n = sentinel := h1.shape.ring.around.1
      -- whatever happens before `n`, nothing is behind it
      obtain ⟨k, rfl⟩ : ∃ k, f = k + 1 := ⟨f - 1, by simp at hf; omega⟩
      obtain ⟨s2, hs2, hkept2, hend2⟩ : ∃ s2, checkIf (check (k + 1)) (s.replaceRuled n rule)
          (¬ isSentinel n ∧ ¬ isSentinel ((s.replaceRuled n rule).prev n))
          ((s.replaceRuled n rule).prev n) = some s2 ∧
          Kept ok (s.replaceRuled n rule) ts s2 ∧ isSentinel (s2.next n) := by
        cases pre using List.reverseRecOn with
        | nil =>
          have hp : (s.replaceRuled n rule).prev n = sentinel := h1.shape.ring.around.2
          refine ⟨_, ?_, Kept.refl h1, Or.inr hend1⟩
          rw [checkIf, if_neg]
          rintro ⟨-, hp'⟩
          exact hp' (Or.inr hp)
        | append_singleton pre m =>
          have heq : pre ++ [m] ++ [n] = pre ++ [m, n] := by simp
          rw [heq] at h1
          have hp : (s.replaceRuled n rule).prev n = m := h1.shape.ring.prev_pair
          have hm := h1.shape.not_isSentinel (n := m) (by simp)
          obtain ⟨s2, r, hs2, hkept2, hend2⟩ := ih _ pre m n ts h1 (by
            simp only [List.length_append, List.length_cons, List.length_nil] at hf ⊢
            omega)
          refine ⟨s2, ?_, hkept2, hend2⟩
          rw [hp, checkIf, if_pos ⟨hn1, hm⟩, hs2]
          rfl
      refine ⟨s2, some rule.id, ?_, hkept.trans hkept2, Or.inl (hkept2.detached t hdet)⟩
      rw [hcheck, checkAdjacencies_self, hs2, Option.bind_some, checkIf, if_pos hn1,
        check_of_sentinel (Or.inr hend2)]
      rfl
    · exact ⟨_, none, hD, ⟨⟨_, h.digrams hs⟩, fun _ hp => hp⟩, Or.inr hend⟩
    · -- a second occurrence: it cannot start at the last node
      have hfront : s.next n ≠ m := by
        rintro rfl
        rw [hnext] at hm
        exact (h.shape.index _ t hm).2.1 hend
      obtain ⟨l', hinv, hlen, hx, hun, hdet, hvic⟩ :=
        h.replaceBoth hok hn hv rfl hm (h.sound.ruled_none hr) hmn hback hfront
      obtain ⟨s', hs', hkept⟩ := minted_cascade hok f _ l' ts _ m n hinv hx hun (by omega)
      refine ⟨s', some s.nextID, ?_, ⟨hkept.inv, ?_⟩, ?_⟩
      · rw [hred, reduce, hs']
        rfl
      · exact fun p hp => hkept.detached p (hdet p hp)
      · rw [← hnext]
        exact Or.inl (hkept.detached _ hvic)

/-! ## Analyze -/

/-- One token is appended, whatever it makes the grammar do. -/
theorem inv_analyzeToken (hok : ∀ t, ok t → t ≠ "" ∧ Plain t) (h : Inv ok s l ts)
    (created : Option ℕ) {token : String} (ht : token ≠ "" → ok token) :
    ∃ s' r l', analyzeToken s created token = some (s', r) ∧
      Inv ok s' l' (if token = "" then ts else ts ++ [token]) := by
  by_cases hempty : token = ""
  · rw [analyzeToken, if_pos hempty, if_pos hempty]
    exact ⟨s, created, l, rfl, h⟩
  · rw [if_neg hempty]
    have hinv := h.append (ht hempty) hempty (hok _ (ht hempty)).2
    generalize hs1 : ({ s.appendNode token with
      length := s.length + 1, pendingLen := s.pendingLen + 1 } : Sequitur) = s1 at hinv
    have hprev : s1.prev s.fresh = s.prev sentinel := by
      rw [← hs1]
      exact h.shape.prev_append
    obtain ⟨s', r, l', hcheck, hinv'⟩ : ∃ s' r l',
        check s1.length s1 (s1.prev s.fresh) = some (s', r) ∧ Inv ok s' l' (ts ++ [token]) := by
      have hlen := hinv.shape.length
      -- the first symbol has the sentinel behind it, and nothing is checked
      cases l using List.reverseRecOn with
      | nil =>
        have hroot : s1.prev s.fresh = sentinel := by
          rw [hprev]
          exact h.shape.ring.links.2
        obtain ⟨k, hk⟩ : ∃ k, s1.length = k + 1 := ⟨0, hlen⟩
        rw [hk, check_of_sentinel (Or.inl (Or.inr hroot))]
        exact ⟨s1, none, _, rfl, hinv⟩
      | append_singleton pre n =>
        have hlast : s1.prev s.fresh = n := by
          rw [hprev]
          have := h.shape.ring.links.prev_eq
          simpa using this
        have heq : pre ++ [n] ++ [s.fresh] = pre ++ [n, s.fresh] := by simp
        rw [heq] at hinv hlen
        obtain ⟨s', r, hcheck, ⟨⟨l', hinv'⟩, -⟩, -⟩ :=
          tail_cascade hok s1.length s1 pre n s.fresh _ hinv hlen.ge
        exact ⟨s', r, l', by rw [hlast]; exact hcheck, hinv'⟩
    have hturn := analyzeToken_of_check created hempty (hs1 ▸ hcheck)
    cases r with
    | none => exact ⟨s', created, l', hturn, hinv'⟩
    | some id => exact ⟨_, some id, l', hturn, hinv'.pendingLen⟩

/-- `Analyze` returns, and appends exactly the non-empty tokens. -/
theorem inv_analyze (hok : ∀ t, ok t → t ≠ "" ∧ Plain t) (h : Inv ok s l ts)
    {tokens : List String} (ht : ∀ token ∈ tokens, token ≠ "" → ok token) :
    ∃ s' r l', s.analyze tokens = some (s', r) ∧
      Inv ok s' l' (ts ++ tokens.filter (· ≠ "")) := by
  have hloop : ∀ s l ts created, Inv ok s l ts → ∃ s' r l',
      tokens.foldlM (fun r token => analyzeToken r.1 r.2 token) (s, created) = some (s', r) ∧
        Inv ok s' l' (ts ++ tokens.filter (· ≠ "")) := by
    induction tokens with
    | nil =>
      intro s l ts created h
      exact ⟨s, created, l, rfl, by rw [List.filter_nil, List.append_nil]; exact h⟩
    | cons token tokens ih =>
      intro s l ts created h
      obtain ⟨s1, r1, l1, h1, hinv1⟩ :=
        inv_analyzeToken hok h created (ht token List.mem_cons_self)
      obtain ⟨s', r, l', h', hinv'⟩ :=
        ih (fun t hmem => ht t (List.mem_cons_of_mem _ hmem)) s1 l1 _ r1 hinv1
      refine ⟨s', r, l', ?_, ?_⟩
      · rw [List.foldlM_cons]
        simp only [h1]
        exact h'
      · by_cases hempty : token = ""
        · simpa [hempty] using hinv'
        · simpa [hempty] using hinv'
  exact hloop _ l ts none h.lastKind

end Symm.Tokenizer.Sequitur
