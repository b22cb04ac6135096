import Symm.Tokenizer.Cascade

/-!
# Digrams of the root

`TidyOff s l skip` says of the root nodes outside `skip` that no rule replaces
the pair that starts there, that equal pairs overlap, and that the index, where
it knows the pair, knows it at this node or at the one before. A replacement
keeps this for the pairs it does not touch, and each `check` of the cascade
takes one node off the list of exceptions.

- `TidyOff.spliced`, `TidyOff.replaceBoth`: what the replacements leave;
- `check_fresh`: the check of a pair that holds the symbol just minted;
- `minted_tidies`: after a rule is minted the cascade leaves no exception;
- `Unlost`: the pair the next symbol ends up in is in the index if the root
  holds it;
- `tidy_analyzeToken`: a token that is `Unlost` leaves no exception.

The index may know a pair at the node before the one in question: of three equal symbols
in a row the two pairs overlap, and the index keeps the first. That is the one reason
for which a pair of the root can go without an entry of its own, and it is why a
replacement can leave a pair behind that the next occurrence does not find.

- `Holds`: the pair that starts at a node has the minted symbol in it;
- `Checked`: which of those pairs the cascade has already looked at;
- `tail_tidies`: the cascade at the tail, by induction on the depth it may use.
-/

namespace Symm.Tokenizer.Sequitur

open Symm.Lib

variable {ok : String → Prop} {s s' : Sequitur} {l l' : List Ptr} {ts : List String}
  {n a b : Ptr} {x : Symbol} {f : ℕ} {skip skip' : Ptr → Prop}

/-- The digram that starts at a node. -/
def pairAt (s : Sequitur) (p : Ptr) : Digram := (s.val p, s.val (s.next p))

/-- The pairs of root nodes outside `skip` have no rule, are equal only if they
overlap, and are indexed where they are or one node before, if at all. -/
structure TidyOff (s : Sequitur) (l : List Ptr) (skip : Ptr → Prop) : Prop where
  unruled : ∀ p ∈ l, s.next p ≠ sentinel → ¬ skip p → s.ruled (s.pairAt p) = none
  unique : ∀ p ∈ l, ∀ q ∈ l, s.next p ≠ sentinel → s.next q ≠ sentinel → ¬ skip p → ¬ skip q →
    s.pairAt p = s.pairAt q → p = q ∨ s.next p = q ∨ s.next q = p
  placed : ∀ p ∈ l, s.next p ≠ sentinel → ¬ skip p → ∀ m,
    s.digrams (s.pairAt p) = some m → p = m ∨ p = s.next m

/-- No pair of root nodes is an exception. -/
def Tidy (s : Sequitur) (l : List Ptr) : Prop := TidyOff s l fun _ => False

/-- The list of root nodes is determined by the heap. -/
theorem Shape.unique (h : Shape s l) (h' : Shape s l') : l = l' :=
  h.rootNodes.symm.trans h'.rootNodes

namespace TidyOff

/-- Skipping more pairs asks for less. -/
theorem mono (h : TidyOff s l skip)
    (hskip : ∀ p ∈ l, s.next p ≠ sentinel → skip p → skip' p) : TidyOff s l skip' where
  unruled := fun p hp hv hs => h.unruled p hp hv fun hs' => hs (hskip p hp hv hs')
  unique := fun p hp q hq hpv hqv hps hqs =>
    h.unique p hp q hq hpv hqv (fun hs' => hps (hskip p hp hpv hs'))
      fun hs' => hqs (hskip q hq hqv hs')
  placed := fun p hp hv hs => h.placed p hp hv fun hs' => hs (hskip p hp hv hs')

/-- A node whose pair the index knows there or one node before is no exception. -/
theorem add (h : TidyOff s l skip) (hr : s.ruled (s.pairAt n) = none) {m : Ptr}
    (hm : s.digrams (s.pairAt n) = some m) (hover : m = n ∨ s.next m = n) :
    TidyOff s l fun p => skip p ∧ p ≠ n := by
  -- an equal pair overlaps the same entry
  have hother : ∀ q ∈ l, s.next q ≠ sentinel → ¬ (skip q ∧ q ≠ n) → s.pairAt q = s.pairAt n →
      q = n ∨ s.next q = n ∨ s.next n = q := by
    intro q hq hqv hqs heq
    by_cases hqn : q = n
    · exact .inl hqn
    · have hplaced := h.placed q hq hqv (fun hskip => hqs ⟨hskip, hqn⟩) m (by rw [heq]; exact hm)
      rcases hover with rfl | hback
      · exact hplaced.elim .inl fun h' => .inr (.inr h'.symm)
      · exact .inr (.inl (hplaced.elim (fun h' => by rw [h', hback]) fun h' =>
          absurd (h'.trans hback) hqn))
  constructor
  · intro p hp hpv hs
    by_cases hpn : p = n
    · exact hpn ▸ hr
    · exact h.unruled p hp hpv fun hskip => hs ⟨hskip, hpn⟩
  · intro p hp q hq hpv hqv hps hqs heq
    by_cases hpn : p = n
    · rw [hpn] at heq ⊢
      rcases hother q hq hqv hqs heq.symm with h' | h' | h'
      · exact .inl h'.symm
      · exact .inr (.inr h')
      · exact .inr (.inl h')
    by_cases hqn : q = n
    · rw [hqn] at heq ⊢
      exact hother p hp hpv hps heq
    exact h.unique p hp q hq hpv hqv (fun hskip => hps ⟨hskip, hpn⟩)
      (fun hskip => hqs ⟨hskip, hqn⟩) heq
  · intro p hp hpv hs k hk
    by_cases hpn : p = n
    · rw [hpn, hm] at hk
      obtain rfl := Option.some.inj hk
      rw [hpn]
      exact hover.imp Eq.symm Eq.symm
    · exact h.placed p hp hpv (fun hskip => hs ⟨hskip, hpn⟩) k hk

/-- A smaller index on the same heap. -/
theorem shrink {D : Digram → Option Ptr} (h : TidyOff s l skip)
    (hD : ∀ d m, D d = some m → s.digrams d = some m) :
    TidyOff { s with digrams := D } l skip where
  unruled := h.unruled
  unique := h.unique
  placed := fun p hp hv hs m hm => h.placed p hp hv hs m (hD _ m hm)

/-- A pair that no other node outside `skip` holds is indexed at its node. -/
theorem indexed (h : TidyOff s l skip) (hr : s.ruled (s.pairAt n) = none)
    (hother : ∀ q ∈ l, s.next q ≠ sentinel → ¬ skip q → s.pairAt q = s.pairAt n → q = n) :
    TidyOff { s with digrams := Function.update s.digrams (s.pairAt n) (some n) } l
      fun p => skip p ∧ p ≠ n := by
  -- a node with the pair of the entry that is set is the node itself
  have hreal : ∀ q ∈ l, s.next q ≠ sentinel → ¬ (skip q ∧ q ≠ n) → s.pairAt q = s.pairAt n →
      q = n := by
    intro q hq hqv hqs heq
    by_contra hqn
    exact hqn (hother q hq hqv (fun hskip => hqs ⟨hskip, hqn⟩) heq)
  constructor
  · intro p hp hpv hs
    by_cases hpn : p = n
    · exact hpn ▸ hr
    · exact h.unruled p hp hpv fun hskip => hs ⟨hskip, hpn⟩
  · intro p hp q hq hpv hqv hps hqs heq
    by_cases hpn : p = n
    · have hqp : s.pairAt q = s.pairAt n := by rw [← hpn]; exact heq.symm
      exact .inl (hpn.trans (hreal q hq hqv hqs hqp).symm)
    by_cases hqn : q = n
    · have hpq : s.pairAt p = s.pairAt n := by rw [← hqn]; exact heq
      exact .inl ((hreal p hp hpv hps hpq).trans hqn.symm)
    exact h.unique p hp q hq hpv hqv (fun hskip => hps ⟨hskip, hpn⟩)
      (fun hskip => hqs ⟨hskip, hqn⟩) heq
  · intro p hp hpv hs m hm
    have hm' : Function.update s.digrams (s.pairAt n) (some n) (s.pairAt p) = some m := hm
    by_cases heq : s.pairAt p = s.pairAt n
    · rw [heq, Function.update_self] at hm'
      exact .inl ((hreal p hp hpv hs heq).trans (Option.some.inj hm'))
    · rw [Function.update_of_ne heq] at hm'
      have hpn : p ≠ n := fun hpn => heq (by rw [hpn])
      exact h.placed p hp hpv (fun hskip => hs ⟨hskip, hpn⟩) m hm'

/-- A new rule for a digram that only exceptions hold. -/
theorem newRule {d : Digram} (hs : Sound ok s) (h : TidyOff s l skip)
    (hd : ∀ p ∈ l, s.next p ≠ sentinel → ¬ skip p → s.pairAt p ≠ d) :
    TidyOff (s.newRule d) l skip where
  unruled := by
    intro p hp hv hskip
    have hold := hs.ruled_none (h.unruled p hp hv hskip)
    have hnew : (s.newRule d).ruleByDigram (s.pairAt p) = none :=
      (Function.update_of_ne (hd p hp hv hskip) _ _).trans hold
    show ((s.newRule d).ruleByDigram (s.pairAt p)).bind _ = none
    rw [hnew]
    rfl
  unique := h.unique
  placed := h.placed

/-- A substitution disturbs the pair before it and the pair it makes. -/
theorem spliced {id : ℕ} (hs : Shape s l) (hn : n ∈ l) (hv : s.next n ≠ sentinel)
    (hsp : Spliced s l n id l') (h : TidyOff s l skip) :
    TidyOff (s.substitute n id) l' fun p => p = n ∨ s.next p = n ∨ skip p := by
  -- the other pairs are what they were
  have hkeep : ∀ p ∈ l', ¬ (p = n ∨ s.next p = n ∨ skip p) →
      p ∈ l ∧ (s.substitute n id).next p = s.next p ∧
        (s.substitute n id).pairAt p = s.pairAt p := by
    intro p hp hskip
    rw [not_or, not_or] at hskip
    obtain ⟨hpl, hpv⟩ := (hsp.mem p).mp hp
    have hnext := hsp.next p hskip.1 hpv
    refine ⟨hpl, hnext, ?_⟩
    unfold pairAt
    rw [hnext, hsp.val, Function.update_of_ne hskip.1, Function.update_of_ne hskip.2.1]
  constructor
  · intro p hp hpv hskip
    obtain ⟨hpl, hnext, hpair⟩ := hkeep p hp hskip
    rw [ruled_substitute, hpair]
    rw [hnext] at hpv
    exact h.unruled p hpl hpv fun hs' => hskip (.inr (.inr hs'))
  · intro p hp q hq hpv hqv hps hqs heq
    obtain ⟨hpl, hpn, hpp⟩ := hkeep p hp hps
    obtain ⟨hql, hqn, hqq⟩ := hkeep q hq hqs
    rw [hpp, hqq] at heq
    rw [hpn] at hpv ⊢
    rw [hqn] at hqv ⊢
    exact h.unique p hpl q hql hpv hqv (fun hs' => hps (.inr (.inr hs')))
      (fun hs' => hqs (.inr (.inr hs'))) heq
  · intro p hp hpv hskip m hm
    obtain ⟨hpl, hnext, hpair⟩ := hkeep p hp hskip
    rw [hpair] at hm
    rw [hnext] at hpv
    obtain ⟨pre, post, hl⟩ := hs.ring.exists_pair hn hv
    have hm' := hm
    rw [hl] at hs
    obtain ⟨hold, -, hmn, hmv⟩ := (hs.substitute_digrams _ m).mp hm'
    rcases h.placed p hpl hpv (fun hs' => hskip (.inr (.inr hs'))) m hold with hpm | hpm
    · exact .inl hpm
    · exact .inr (hpm.trans (hsp.next m hmn hmv).symm)

/-- What is left after a rule is minted for two disjoint occurrences: the only
exceptions are the pairs that hold the new symbol. -/
theorem replaceBoth (hi : Inv ok s l ts) {m : Ptr} {d : Digram} (hd : d = s.pairAt n)
    (hn : n ∈ l) (hv : s.next n ≠ sentinel) (hm : s.digrams d = some m)
    (hr : s.ruleByDigram d = none) (hmn : m ≠ n) (hback : s.next m ≠ n) (hfront : s.next n ≠ m)
    (hl' : Shape (s.replaceBoth n m d) l') (h : TidyOff s l skip)
    (hskip : ∀ p ∈ l, s.next p ≠ sentinel → skip p →
      p = m ∨ p = n ∨ p = s.next m ∨ p = s.next n ∨ s.next p = m ∨ s.next p = n) :
    TidyOff (s.replaceBoth n m d) l' fun p =>
      (s.replaceBoth n m d).val p = ruleSymbol s.nextID ∨
      (s.replaceBoth n m d).val ((s.replaceBoth n m d).next p) = ruleSymbol s.nextID := by
  obtain ⟨l1, l2, hsp1, hsp2, hnext1, hi2⟩ := hi.splice_both hn hv hd hm hr hmn hback hfront
  obtain ⟨hml, hmv, -⟩ := hi.shape.index _ m hm
  -- through the two substitutions
  have h0 : TidyOff (s.newRule d) l fun p => skip p ∨ s.pairAt p = d :=
    (h.mono fun p _ _ hs => Or.inl hs).newRule hi.sound fun p _ _ hs heq => hs (.inr heq)
  have hshape0 : Shape (s.newRule d) l := hi.shape.of_eq rfl rfl rfl rfl rfl rfl
  have h1 := h0.spliced hshape0 hml hmv hsp1
  have hn1 : n ∈ l1 := (hsp1.mem n).mpr ⟨hn, hback.symm⟩
  have h2 := h1.spliced hsp1.shape hn1 (by rw [hnext1]; exact hv) hsp2
  obtain rfl : l' = l2 := hl'.unique (hi2.shape.shrink fun _ _ => digrams_replaceBoth)
  have h3 : TidyOff (s.replaceBoth n m d) l' _ := h2.shrink fun _ _ => digrams_replaceBoth
  have hval := val_replaceBoth hsp1 hsp2
  have hvalm : (s.replaceBoth n m d).val m = ruleSymbol s.nextID := by
    rw [hval, Function.update_of_ne hmn, Function.update_self]
  have hvaln : (s.replaceBoth n m d).val n = ruleSymbol s.nextID := by
    rw [hval, Function.update_self]
  refine h3.mono fun p hp hpv' hexcept => ?_
  obtain ⟨hp1, hpv2⟩ := (hsp2.mem p).mp hp
  obtain ⟨hpl, hpv1⟩ := (hsp1.mem p).mp hp1
  rw [hnext1] at hpv2
  by_cases hpn : p = n
  · exact .inl (hpn ▸ hvaln)
  by_cases hpm : p = m
  · exact .inl (hpm ▸ hvalm)
  -- a node apart from the pairs keeps its successor
  have hmid : ((s.newRule d).substitute m s.nextID).next p = s.next p := hsp1.next p hpm hpv1
  have hnext : (s.replaceBoth n m d).next p = s.next p :=
    (hsp2.next p hpn (by rw [hnext1]; exact hpv2)).trans hmid
  rw [hnext] at hpv'
  have hnextn : s.next p = n → (s.replaceBoth n m d).val ((s.replaceBoth n m d).next p) =
      ruleSymbol s.nextID := fun heq => by rw [hnext, heq, hvaln]
  have hnextm : s.next p = m → (s.replaceBoth n m d).val ((s.replaceBoth n m d).next p) =
      ruleSymbol s.nextID := fun heq => by rw [hnext, heq, hvalm]
  have hnear : skip p → (s.replaceBoth n m d).val p = ruleSymbol s.nextID ∨
      (s.replaceBoth n m d).val ((s.replaceBoth n m d).next p) = ruleSymbol s.nextID := by
    intro hs
    rcases hskip p hpl hpv' hs with h' | h' | h' | h' | h' | h'
    · exact absurd h' hpm
    · exact absurd h' hpn
    · exact absurd h' hpv1
    · exact absurd h' hpv2
    · exact .inr (hnextm h')
    · exact .inr (hnextn h')
  rcases hexcept with heq | heq | heq | heq | hs | heq
  · exact absurd heq hpn
  · exact .inr (hnextn (hmid.symm.trans heq))
  · exact absurd heq hpm
  · exact .inr (hnextm heq)
  · exact hnear hs
  · by_cases hs : skip p
    · exact hnear hs
    · -- another occurrence overlaps the one the index knows, which is gone
      rcases h.placed p hpl hpv' hs m (by rw [heq]; exact hm) with h' | h'
      · exact absurd h' hpm
      · exact absurd h' hpv1

end TidyOff

/-! ## After a rule is minted -/

/-- The pair that starts at a node holds the symbol. -/
def Holds (s : Sequitur) (x : Symbol) (p : Ptr) : Prop := s.val p = x ∨ s.val (s.next p) = x

/-- Two nodes with the same pair hold it both. -/
theorem Holds.of_pairAt {p : Ptr} (h : Holds s x n) (heq : s.pairAt p = s.pairAt n) :
    Holds s x p := by
  obtain ⟨hval, hval'⟩ := Prod.mk.inj heq
  exact h.imp hval.trans hval'.trans

/-- Of three nodes at two places, two different ones leave the third no other. -/
theorem two_places {m n p a b : ℕ} (hmn : m ≠ n) (hm : m = a ∨ m = b) (hn : n = a ∨ n = b)
    (hp : p = a ∨ p = b) : p = m ∨ p = n := by
  omega

/-- Three nodes in a row do not all hold a minted symbol. -/
theorem Minted.not_run (h : Shape s l) (hx : Minted s l x a b) {p : Ptr} (hp : p ∈ l)
    (hv : s.next p ≠ sentinel) (hw : s.next (s.next p) ≠ sentinel) (h1 : s.val p = x)
    (h2 : s.val (s.next p) = x) (h3 : s.val (s.next (s.next p)) = x) : False := by
  have hvl := h.next_mem hp hv
  have hne := h.ring.next_ne_self hp
  have hne' := h.ring.next_ne_self hvl
  have hapart : p ≠ s.next (s.next p) := by
    have := h.ring.prev_ne_next hvl hw
    rwa [h.ring.prev_next (List.mem_cons_of_mem _ hp)] at this
  have hat3 := hx.only _ (h.next_mem hvl hw) h3
  rcases two_places hne.symm (hx.only p hp h1) (hx.only _ hvl h2) hat3 with heq | heq
  · exact hapart heq.symm
  · exact hne' heq

/-- Equal pairs that hold a minted symbol do not overlap. -/
theorem Minted.no_overlap (h : Shape s l) (hx : Minted s l x a b) {m : Ptr} (hm : m ∈ l)
    (hmv : s.next m ≠ sentinel) (hv : s.next n ≠ sentinel) (heq : s.pairAt m = s.pairAt n)
    (hd : Holds s x n) : s.next m ≠ n := by
  rintro rfl
  obtain ⟨hval, hval'⟩ := Prod.mk.inj heq
  have hall : s.val (s.next (s.next m)) = x := hd.elim (fun hd => hval'.symm.trans hd) id
  have hmid : s.val (s.next m) = x := hval'.trans hall
  exact hx.not_run h hm hmv hv (hval.trans hmid) hmid hall

/-- Both nodes that hold the minted symbol are in two equal pairs that hold it. -/
theorem Minted.held (h : Shape s l) (hx : Minted s l x a b) {m : Ptr} (hn : n ∈ l)
    (hv : s.next n ≠ sentinel) (hm : m ∈ l) (hmv : s.next m ≠ sentinel) (hmn : m ≠ n)
    (heq : s.pairAt m = s.pairAt n) (hd : Holds s x n) {p : Ptr} (hp : p ∈ l)
    (hpx : s.val p = x) : p = m ∨ p = n ∨ p = s.next m ∨ p = s.next n := by
  obtain ⟨hval, hval'⟩ := Prod.mk.inj heq
  have hne : s.next m ≠ s.next n := fun heq =>
    hmn (h.ring.next_inj (List.mem_cons_of_mem _ hm) (List.mem_cons_of_mem _ hn) heq)
  have hp' := hx.only p hp hpx
  rcases hd with hd | hd
  · have hm' := hx.only m hm (hval.trans hd)
    exact (two_places hmn hm' (hx.only n hn hd) hp').imp_right .inl
  · have hm' := hx.only _ (h.next_mem hm hmv) (hval'.trans hd)
    exact .inr (.inr (two_places hne hm' (hx.only _ (h.next_mem hn hv) hd) hp'))

/-- Among the pairs that hold the minted symbol `x` the index knows exactly those
that are no exception. -/
structure Checked (s : Sequitur) (l : List Ptr) (x : Symbol) (skip : Ptr → Prop) : Prop where
  holds : ∀ p, skip p → Holds s x p
  only : ∀ d : Digram, d.1 = x ∨ d.2 = x → ∀ m, s.digrams d = some m → ¬ skip m
  all : ∀ p ∈ l, s.next p ≠ sentinel → Holds s x p → ¬ skip p → s.digrams (s.pairAt p) ≠ none

/-- Before the first check every pair that holds the symbol is an exception. -/
theorem checked_minted (l : List Ptr) (hun : Unindexed s x) : Checked s l x (Holds s x) where
  holds := fun _ hp => hp
  only := by
    intro d hd m hm
    rw [hun d hd] at hm
    cases hm
  all := fun p _ _ hh hs => absurd hh hs

/-- A node whose pair is no exception any more, or no pair. -/
theorem Checked.drop (hc : Checked s l x skip) (hn : n ∈ l → s.next n ≠ sentinel → ¬ skip n) :
    Checked s l x fun p => skip p ∧ p ≠ n where
  holds := fun p hp => hc.holds p hp.1
  only := fun d hd m hm hs => hc.only d hd m hm hs.1
  all := by
    intro p hp hv hh hs
    refine hc.all p hp hv hh fun hskip => hs ⟨hskip, ?_⟩
    rintro rfl
    exact hn hp hv hskip

/-- A node that gets an entry for a pair that no other node outside `skip` holds. -/
theorem Checked.indexed (hc : Checked s l x skip) :
    Checked { s with digrams := Function.update s.digrams (s.pairAt n) (some n) } l x
      fun p => skip p ∧ p ≠ n where
  holds := fun p hp => hc.holds p hp.1
  only := by
    intro d hdx m hm hs
    have hm' : Function.update s.digrams (s.pairAt n) (some n) d = some m := hm
    by_cases heq : d = s.pairAt n
    · rw [heq, Function.update_self] at hm'
      exact hs.2 (Option.some.inj hm').symm
    · rw [Function.update_of_ne heq] at hm'
      exact hc.only d hdx m hm' hs.1
  all := by
    intro p hp hpv hh hs
    show Function.update s.digrams (s.pairAt n) (some n) (s.pairAt p) ≠ none
    by_cases heq : s.pairAt p = s.pairAt n
    · rw [heq, Function.update_self]
      exact Option.some_ne_none n
    · rw [Function.update_of_ne heq]
      exact hc.all p hp hpv hh fun hskip => hs ⟨hskip, fun hpn => heq (by rw [hpn])⟩

/-- A pair that need not be skipped can be taken off the skipped ones. -/
theorem TidyOff.drop (ht : TidyOff s l skip) (hn : n ∈ l → s.next n ≠ sentinel → ¬ skip n) :
    TidyOff s l fun p => skip p ∧ p ≠ n :=
  ht.mono fun p hp hv hskip => ⟨hskip, by
    rintro rfl
    exact hn hp hv hskip⟩

/-- The cascade after minting leaves no exception, for roots of at most `f` nodes. -/
def MintedTidies (ok : String → Prop) (f : ℕ) : Prop :=
  ∀ s l ts x a b, Inv ok s l ts → Minted s l x a b → Unindexed s x →
    TidyOff s l (Holds s x) → l.length ≤ f →
    ∃ s' l', checkAdjacencies (check f) s a b = some s' ∧ Inv ok s' l' ts ∧ Tidy s' l' ∧
      ∀ p, Detached s p → Detached s' p

/-- The check of a pair that holds the minted symbol takes its node off the list
of exceptions, or mints one more rule. -/
theorem check_fresh (hok : ∀ t, ok t → t ≠ "" ∧ Plain t) (hends : MintedTidies ok f)
    (h : Inv ok s l ts) (hx : Minted s l x a b) (hc : Checked s l x skip)
    (ht : TidyOff s l skip) (hn : n ∈ l) (hv : s.next n ≠ sentinel) (hd : Holds s x n)
    (hf : l.length ≤ f + 1) :
    (∃ D, check (f + 1) s n = some ({ s with digrams := D }, none) ∧
      Inv ok { s with digrams := D } l ts ∧
      Checked { s with digrams := D } l x (fun p => skip p ∧ p ≠ n) ∧
      TidyOff { s with digrams := D } l fun p => skip p ∧ p ≠ n) ∨
    (∃ m, s.digrams (s.pairAt n) = some m ∧ m ≠ n ∧ ∃ s' r l', check (f + 1) s n = some (s', r) ∧
      Inv ok s' l' ts ∧ Tidy s' l' ∧ Detached s' (s.next n)) := by
  have hr : s.ruled (s.pairAt n) = none := hx.ruled hd
  rcases check_pair h.shape hn hv f with ⟨rule, hrule, -⟩ | ⟨-, hnone, hcheck⟩ |
    ⟨-, m, hm, hover, hcheck⟩ | ⟨-, m, hm, hmn, hback, hred⟩
  · -- a pair that holds the minted symbol is the body of no rule
    have hrule' : s.ruled (s.pairAt n) = some rule := hrule
    rw [hr] at hrule'
    cases hrule'
  · -- not indexed: none of the checked nodes shows the pair
    have hother : ∀ q ∈ l, s.next q ≠ sentinel → ¬ skip q → s.pairAt q = s.pairAt n → q = n := by
      intro q hq hqv hqs heq
      exact absurd (heq ▸ hnone) (hc.all q hq hqv (hd.of_pairAt heq) hqs)
    exact .inl ⟨_, hcheck, h.digrams (h.shape.indexed hn hv), hc.indexed, ht.indexed hr hother⟩
  · -- the entry is this node itself: the other overlap takes three nodes that hold `x`
    obtain ⟨hml, hmv, hkey⟩ := h.shape.index _ m hm
    have hmn : m = n := hover.resolve_right (hx.no_overlap h.shape hml hmv hv hkey.symm hd)
    have hdone : ¬ skip n := hmn ▸ hc.only (s.pairAt n) hd m hm
    exact .inl ⟨s.digrams, hcheck, h, hc.drop fun _ _ => hdone, ht.drop fun _ _ => hdone⟩
  · obtain ⟨hml, hmv, hkey⟩ := h.shape.index _ m hm
    have hfront : s.next n ≠ m :=
      hx.no_overlap h.shape hn hv hmv hkey (hd.of_pairAt hkey.symm)
    obtain ⟨l1, hinv, hlen, hx', hun, -, hvic⟩ :=
      h.replaceBoth hok hn hv rfl hm (h.sound.ruled_none hr) hmn hback hfront
    have hheld := fun p hp hpx =>
      hx.held h.shape hn hv hml hmv hmn hkey.symm hd (p := p) hp hpx
    have htidy := ht.replaceBoth h rfl hn hv hm (h.sound.ruled_none hr) hmn hback hfront
      hinv.shape fun p hp hpv hskip => by
        rcases hc.holds p hskip with hpx | hpx
        · have hat := hheld p hp hpx
          tauto
        · -- its successor is in one of the pairs, and so it is itself or stands before one
          have hpl := List.mem_cons_of_mem sentinel hp
          rcases hheld _ (h.shape.next_mem hp hpv) hpx with h' | h' | h' | h'
          · exact .inr (.inr (.inr (.inr (.inl h'))))
          · exact .inr (.inr (.inr (.inr (.inr h'))))
          · exact .inl (h.shape.ring.next_inj hpl (List.mem_cons_of_mem _ hml) h')
          · exact .inr (.inl (h.shape.ring.next_inj hpl (List.mem_cons_of_mem _ hn) h'))
    obtain ⟨s', l', hs', hinv', htidy', hdet⟩ := hends _ l1 ts _ m n hinv hx' hun htidy (by omega)
    refine .inr ⟨m, hm, hmn, s', some s.nextID, l', ?_, hinv', htidy', hdet _ hvic⟩
    rw [hred, reduce]
    exact congrArg (Option.map _) hs'

/-- A guarded check of the cascade: the guard tells whether there is a pair. -/
theorem checkIf_fresh (hok : ∀ t, ok t → t ≠ "" ∧ Plain t) (hends : MintedTidies ok f)
    (h : Inv ok s l ts) (hx : Minted s l x a b) (hc : Checked s l x skip)
    (ht : TidyOff s l skip) (hf : l.length ≤ f + 1) {g : Prop} [Decidable g]
    (hg : g → n ∈ l ∧ Holds s x n) (hng : ¬ g → n ∉ l) :
    (∃ D, checkIf (check (f + 1)) s g n = some { s with digrams := D } ∧
      Inv ok { s with digrams := D } l ts ∧
      Checked { s with digrams := D } l x (fun p => skip p ∧ p ≠ n) ∧
      TidyOff { s with digrams := D } l fun p => skip p ∧ p ≠ n) ∨
    (∃ m, s.digrams (s.pairAt n) = some m ∧ m ≠ n ∧ n ∈ l ∧ s.next n ≠ sentinel ∧
      ∃ s' l', checkIf (check (f + 1)) s g n = some s' ∧
        Inv ok s' l' ts ∧ Tidy s' l' ∧ Detached s' (s.next n)) := by
  by_cases hguard : g
  · obtain ⟨hn, hd⟩ := hg hguard
    rw [checkIf, if_pos hguard]
    by_cases hv : s.next n = sentinel
    · rw [check_of_sentinel (.inr (.inr hv))]
      exact .inl ⟨s.digrams, rfl, h, hc.drop fun _ hv' => absurd hv hv',
        ht.drop fun _ hv' => absurd hv hv'⟩
    · rcases check_fresh hok hends h hx hc ht hn hv hd hf with
        ⟨D, hD, hrest⟩ | ⟨m, hm, hmn, s', r, l', hs', hrest⟩
      · rw [hD]
        exact .inl ⟨D, rfl, hrest⟩
      · rw [hs']
        exact .inr ⟨m, hm, hmn, hn, hv, s', l', rfl, hrest⟩
  · rw [checkIf, if_neg hguard]
    exact .inl ⟨s.digrams, rfl, h, hc.drop fun hn => absurd hn (hng hguard),
      ht.drop fun hn => absurd hn (hng hguard)⟩

/-- A node of the root is the first one, or comes after another. -/
theorem Shape.prev_mem_iff (h : Shape s l) (hn : n ∈ l) :
    s.prev n ∈ l ↔ ¬ isSentinel (s.prev n) := by
  constructor
  · exact fun hp => h.not_isSentinel hp
  · intro hp
    exact h.prev_mem hn fun heq => hp (.inr heq)

/-- The pair before a node that holds `x`. -/
theorem holds_prev (h : Shape s l) (hn : n ∈ l) (hx : s.val n = x) : Holds s x (s.prev n) := by
  refine .inr ?_
  rw [h.ring.next_prev (List.mem_cons_of_mem _ hn)]
  exact hx

/-- The cascade after minting leaves no exception. -/
theorem minted_tidies (hok : ∀ t, ok t → t ≠ "" ∧ Plain t) (f : ℕ) : MintedTidies ok f := by
  induction f with
  | zero =>
    intro s l ts x a b _ hx _ _ hf
    have := List.length_pos_of_mem hx.mem_a
    omega
  | succ f ih =>
    intro s l ts x a b h hx hun ht hf
    obtain ⟨s0, hs0, hkept⟩ := minted_cascade hok (f + 1) s l ts x a b h hx hun hf
    suffices hmain : ∃ s' l', checkAdjacencies (check (f + 1)) s a b = some s' ∧
        Inv ok s' l' ts ∧ Tidy s' l' by
      obtain ⟨s', l', hs', hinv, htidy⟩ := hmain
      obtain rfl : s0 = s' := Option.some.inj (hs0.symm.trans hs')
      exact ⟨s0, l', hs', hinv, htidy, hkept.detached⟩
    rw [checkAdjacencies_eq]
    have ha := h.shape.not_isSentinel hx.mem_a
    have hb := h.shape.not_isSentinel hx.mem_b
    have hc := checked_minted l hun
    -- before the first occurrence
    have hg1 : ¬ isSentinel a ∧ ¬ isSentinel (s.prev a) → s.prev a ∈ l ∧ Holds s x (s.prev a) :=
      fun hg => ⟨(h.shape.prev_mem_iff hx.mem_a).mpr hg.2, holds_prev h.shape hx.mem_a hx.val_a⟩
    have hng1 : ¬ (¬ isSentinel a ∧ ¬ isSentinel (s.prev a)) → s.prev a ∉ l :=
      fun hng hp => hng ⟨ha, (h.shape.prev_mem_iff hx.mem_a).mp hp⟩
    rcases checkIf_fresh hok ih h hx hc ht hf hg1 hng1 with
      ⟨D1, hD1, h1, hc1, ht1⟩ | ⟨m, hm, -, hp, hpv, -⟩
    swap
    · rw [hun (s.pairAt (s.prev a)) (holds_prev h.shape hx.mem_a hx.val_a)] at hm
      cases hm
    rw [hD1, Option.bind_some]
    -- behind it: the entry of the pair before is another one, or three nodes hold `x`
    have hx1 : Minted { s with digrams := D1 } l x a b := hx.digrams
    rcases checkIf_fresh hok ih h1 hx1 hc1 ht1 hf (fun _ => ⟨hx.mem_a, .inl hx.val_a⟩)
      (fun hng => absurd ha hng) with ⟨D2, hD2, h2, hc2, ht2⟩ | ⟨m, hm, hma, -, hv, -⟩
    swap
    · obtain ⟨hml, hmv, hkey⟩ := h1.shape.index _ m hm
      have hm1 : m = s.prev a := by
        by_contra hne
        have hmx : Holds s x m := .inl ((congrArg Prod.fst hkey).symm.trans hx.val_a)
        exact hc1.only (pairAt { s with digrams := D1 } a) (.inl hx.val_a) m hm ⟨hmx, hne⟩
      have hback : s.next m = a := by
        rw [hm1]
        exact h.shape.ring.next_prev (List.mem_cons_of_mem _ hx.mem_a)
      exact absurd hback (hx.no_overlap h.shape hml hmv hv hkey.symm (.inl hx.val_a))
    rw [hD2, Option.bind_some]
    -- before the second occurrence
    have hx2 : Minted { s with digrams := D2 } l x a b := hx.digrams
    have hg3 : ¬ isSentinel b ∧ b ≠ a ∧ ¬ isSentinel (s.prev b) →
        s.prev b ∈ l ∧ Holds { s with digrams := D2 } x (s.prev b) := fun hg =>
      ⟨(h.shape.prev_mem_iff hx.mem_b).mpr hg.2.2, holds_prev h2.shape hx.mem_b hx.val_b⟩
    have hng3 : ¬ (¬ isSentinel b ∧ b ≠ a ∧ ¬ isSentinel (s.prev b)) → s.prev b ∉ l :=
      fun hng hp => hng ⟨hb, hx.ne.symm, (h.shape.prev_mem_iff hx.mem_b).mp hp⟩
    rcases checkIf_fresh hok ih h2 hx2 hc2 ht2 hf hg3 hng3 with
      ⟨D3, hD3, h3, hc3, ht3⟩ | ⟨m, -, -, -, -, s3, l3, hs3, h3, ht3, hdet⟩
    · have hD3' : checkIf (check (f + 1)) { s with digrams := D2 } (¬ isSentinel b ∧ b ≠ a ∧
          ¬ isSentinel (prev { s with digrams := D2 } b)) (prev { s with digrams := D2 } b) = _ := hD3
      rw [hD3', Option.bind_some]
      -- behind it
      have hx3 : Minted { s with digrams := D3 } l x a b := hx.digrams
      have hng4 : ¬ (¬ isSentinel b ∧ b ≠ a) → b ∉ l := fun hng => absurd ⟨hb, hx.ne.symm⟩ hng
      rcases checkIf_fresh hok ih h3 hx3 hc3 ht3 hf (fun _ => ⟨hx.mem_b, .inl hx.val_b⟩) hng4 with
        ⟨D4, hD4, h4, -, ht4⟩ | ⟨m, -, -, -, -, s4, l4, hs4, h4, ht4, -⟩
      · refine ⟨_, l, hD4, h4, ht4.mono fun p hp hpv hskip => ?_⟩
        obtain ⟨⟨⟨⟨hh, hpa'⟩, hpa⟩, hpb'⟩, hpb⟩ := hskip
        have hpl := List.mem_cons_of_mem sentinel hp
        rcases hh with hh | hh
        · exact (hx.only p hp hh).elim hpa hpb
        · rcases hx.only _ (h.shape.next_mem hp hpv) hh with heq | heq
          · exact hpa' (by rw [← heq]; exact (h.shape.ring.prev_next hpl).symm)
          · exact hpb' (by rw [← heq]; exact (h.shape.ring.prev_next hpl).symm)
      · exact ⟨s4, l4, hs4, h4, ht4⟩
    · have hs3' : checkIf (check (f + 1)) { s with digrams := D2 } (¬ isSentinel b ∧ b ≠ a ∧
          ¬ isSentinel (prev { s with digrams := D2 } b)) (prev { s with digrams := D2 } b) = _ := hs3
      -- a rule took the second occurrence out of the root
      have hnext : next { s with digrams := D2 } (s.prev b) = b :=
        h.shape.ring.next_prev (List.mem_cons_of_mem _ hx.mem_b)
      rw [hnext] at hdet
      refine ⟨s3, l3, ?_, h3, ht3⟩
      rw [hs3', Option.bind_some, checkIf, if_pos ⟨hb, hx.ne.symm⟩,
        check_of_sentinel (.inr (.inl hdet))]
      rfl

/-! ## At the tail -/

/-- When a symbol comes behind the root symbols (last one first), rules replace
the last pair as long as one applies. If the root holds the pair that is left,
the index knows it. -/
def Unlost (s : Sequitur) : List Symbol → Symbol → Prop
  | [], _ => True
  | u :: rest, sym =>
    match s.ruled (u, sym) with
    | some rule => s.Unlost rest (ruleSymbol rule.id)
    | none => [u, sym] <:+: (u :: rest).reverse → s.digrams (u, sym) ≠ none

/-- What `Unlost` reads of the grammar. -/
theorem Unlost.transfer {syms : List Symbol} {sym : Symbol} (h : s.Unlost syms sym)
    (hruled : ∀ d, (s'.ruled d).map Rule.id = (s.ruled d).map Rule.id)
    (hindex : ∀ u v, [u, v] <:+: syms.reverse → s.digrams (u, v) ≠ none →
      s'.digrams (u, v) ≠ none) : s'.Unlost syms sym := by
  induction syms generalizing sym with
  | nil => trivial
  | cons u rest ih =>
    have hd := hruled (u, sym)
    unfold Unlost at h ⊢
    cases hr : s.ruled (u, sym) with
    | some rule =>
      rw [hr] at h
      rw [hr, Option.map_some] at hd
      obtain ⟨rule', hr', hid⟩ := Option.map_eq_some_iff.mp hd
      rw [hr']
      dsimp only at h ⊢
      rw [hid]
      refine ih h fun a b hab => hindex a b ?_
      rw [List.reverse_cons]
      exact hab.trans (List.infix_append' [] rest.reverse [u])
    | none =>
      rw [hr] at h
      rw [hr, Option.map_none, Option.map_eq_none_iff] at hd
      rw [hd]
      exact fun hin => hindex u sym hin (h hin)

/-- Two neighbouring symbols stand at two neighbouring nodes. -/
theorem exists_nodes {val : Ptr → Symbol} {u v : Symbol} (h : [u, v] <:+: l.map val) :
    ∃ pre p q post, l = pre ++ p :: q :: post ∧ val p = u ∧ val q = v := by
  obtain ⟨xs, ys, hsplit⟩ := h
  obtain ⟨front, back, rfl, hfront, rfl⟩ := List.map_eq_append_iff.mp hsplit.symm
  obtain ⟨pre, mid, rfl, rfl, hmid⟩ := List.map_eq_append_iff.mp hfront
  obtain ⟨p, rest, rfl, hp, hrest⟩ := List.map_eq_cons_iff.mp hmid
  obtain ⟨q, none', rfl, hq, hnone⟩ := List.map_eq_cons_iff.mp hrest
  rw [List.map_eq_nil_iff] at hnone
  subst hnone
  exact ⟨pre, p, q, back, by simp, hp, hq⟩

/-- Two neighbouring nodes hold two neighbouring symbols. -/
theorem infix_nodes {val : Ptr → Symbol} {pre post : List Ptr} {p q : Ptr} :
    [val p, val q] <:+: (pre ++ p :: q :: post).map val :=
  ⟨pre.map val, post.map val, by simp⟩

/-- A count is no part of what a rule replaces. -/
theorem ruled_setCount (s : Sequitur) (id : ℕ) (count : ℤ) (d : Digram) :
    (s.setCount id count).ruled d =
      (s.ruled d).map fun r => if r.id = id then { r with count := count } else r := by
  unfold ruled
  show (s.ruleByDigram d).bind (s.setCount id count).ruleOf = _
  cases s.ruleByDigram d with
  | none => rfl
  | some j => exact ruleOf_setCount s id j count

/-- Reusing a rule leaves each digram with the rule it had. -/
theorem ruled_replaceRuled (s : Sequitur) (n : Ptr) (rule : Rule) (d : Digram) :
    ((s.replaceRuled n rule).ruled d).map Rule.id = (s.ruled d).map Rule.id := by
  have hkind : (s.replaceRuled n rule).ruled d =
      ((s.setCount rule.id (rule.count + 1)).substitute n rule.id).ruled d := by
    unfold replaceRuled
    dsimp only
    split <;> rfl
  rw [hkind, ruled_substitute, ruled_setCount, Option.map_map]
  congr 1
  funext r
  dsimp only [Function.comp_apply]
  split <;> rfl

/-- A rule takes the place of the last pair of the root. -/
structure TailReplaced (s : Sequitur) (pre : List Ptr) (n t : Ptr) (rule : Rule) : Prop where
  val : (s.replaceRuled n rule).val = Function.update s.val n (ruleSymbol rule.id)
  tidy : ∀ {skip}, TidyOff s (pre ++ [n, t]) skip →
    TidyOff (s.replaceRuled n rule) (pre ++ [n]) fun p => p = n ∨ s.next p = n ∨ skip p
  index : ∀ d m, (s.replaceRuled n rule).digrams d = some m ↔
    s.digrams d = some m ∧ m ≠ s.prev n ∧ m ≠ n ∧ m ≠ t

theorem Shape.tailReplaced {pre : List Ptr} {t : Ptr} (h : Shape s (pre ++ [n, t])) (rule : Rule) :
    TailReplaced s pre n t rule := by
  have hcount : Shape (s.setCount rule.id (rule.count + 1)) (pre ++ [n, t]) :=
    h.of_eq rfl rfl rfl rfl rfl rfl
  have hn : n ∈ pre ++ [n, t] := by simp
  have hv : s.next n ≠ sentinel := by
    rw [h.ring.next_pair]
    exact h.ne_sentinel (by simp)
  obtain ⟨front, back, -, hsp⟩ := hcount.spliced hn hv rule.id
  have hl : front ++ n :: back = pre ++ [n] := hsp.shape.unique hcount.substitute
  rw [hl] at hsp
  -- the kind of the last change is not looked at
  have hkind : ∀ P : Sequitur → Prop, (∀ t' : Sequitur, P t' → P { t' with lastKind := .reuse }) →
      P ((s.setCount rule.id (rule.count + 1)).substitute n rule.id) → P (s.replaceRuled n rule) := by
    intro P hP h'
    unfold replaceRuled
    dsimp only
    split
    · exact hP _ h'
    · exact h'
  constructor
  · exact hkind (fun t' => t'.val = _) (fun _ h' => h') hsp.val
  · intro skip ht
    refine hkind (fun t' => TidyOff t' (pre ++ [n]) _)
      (fun _ h' => ⟨h'.unruled, h'.unique, h'.placed⟩) ?_
    have htc : TidyOff (s.setCount rule.id (rule.count + 1)) (pre ++ [n, t]) skip :=
      ⟨fun p hp hpv hs => by
        show (s.setCount rule.id (rule.count + 1)).ruled (s.pairAt p) = none
        rw [ruled_setCount, ht.unruled p hp hpv hs]
        rfl, ht.unique, ht.placed⟩
    exact htc.spliced hcount hn hv hsp
  · intro d m
    exact hkind (fun t' => t'.digrams d = some m ↔ _) (fun _ h' => h')
      (hcount.substitute_digrams d m)

/-- A root of one symbol has no pair. -/
theorem tidy_singleton (h : Shape s [n]) : Tidy s [n] := by
  have hring : Ring s.next s.prev sentinel ([] ++ n :: []) := h.ring
  have hend : s.next n = sentinel := hring.around.1
  have hno : ∀ p ∈ [n], s.next p ≠ sentinel → False := by
    intro p hp hv
    rw [List.mem_singleton.mp hp] at hv
    exact hv hend
  exact ⟨fun p hp hv => (hno p hp hv).elim, fun p hp _ _ hv => (hno p hp hv).elim,
    fun p hp hv => (hno p hp hv).elim⟩

/-- A pair of the root other than the last one lies before the last node. -/
theorem Shape.pair_before {pre : List Ptr} {t q : Ptr} (h : Shape s (pre ++ [n, t]))
    (hq : q ∈ pre ++ [n, t]) (hqv : s.next q ≠ sentinel) (hqn : q ≠ n) :
    ∃ front back, pre ++ [n] = front ++ q :: s.next q :: back := by
  obtain ⟨front, back, hsplit⟩ := h.ring.exists_pair hq hqv
  cases back using List.reverseRecOn with
  | nil =>
    have hlast := (List.append_inj' hsplit rfl).2
    exact absurd (List.cons.inj hlast).1.symm hqn
  | append_singleton back x =>
    have heq : (pre ++ [n]) ++ [t] = (front ++ q :: s.next q :: back) ++ [x] := by
      simpa using hsplit
    exact ⟨front, back, (List.append_inj' heq rfl).1⟩

/-- The nodes before the last pair are neither of its two. -/
theorem Shape.notMem_front {pre : List Ptr} {t : Ptr} (h : Shape s (pre ++ [n, t])) :
    n ∉ pre ∧ t ∉ pre := by
  have hdis := (List.nodup_append.mp h.ring.nodup_tail).2.2
  exact ⟨fun hin => hdis n hin n (by simp) rfl, fun hin => hdis t hin t (by simp) rfl⟩

/-- Replacing the last pair keeps the entries of the pairs before it. -/
theorem TidyOff.index_front {pre : List Ptr} {t : Ptr} (h : Shape s (pre ++ [n, t]))
    (ht : TidyOff s (pre ++ [n, t]) (· = n)) (rule : Rule) {u v : Symbol}
    (hin : [u, v] <:+: pre.map s.val) (hne : s.digrams (u, v) ≠ none) :
    (s.replaceRuled n rule).digrams (u, v) ≠ none := by
  have hn : n ∈ sentinel :: (pre ++ [n, t]) := by simp
  have hnext : s.next n = t := h.ring.next_pair
  have hend : s.next t = sentinel := by simpa using h.ring.next_snd
  have hback : s.next (s.prev n) = n := h.ring.next_prev hn
  obtain ⟨hnout, htout⟩ := h.notMem_front
  obtain ⟨front, p, q, back, hsplit, rfl, rfl⟩ := exists_nodes hin
  obtain ⟨k, hk⟩ := Option.ne_none_iff_exists'.mp hne
  have hp : p ∈ pre := by rw [hsplit]; simp
  have hq : q ∈ pre := by rw [hsplit]; simp
  have hpq : s.next p = q := by
    have hring := h.ring
    rw [hsplit, List.append_assoc] at hring
    exact hring.next_pair
  have hpn : p ≠ n := fun heq => hnout (heq ▸ hp)
  have hqv : s.next p ≠ sentinel := by
    rw [hpq]
    exact h.ne_sentinel (List.mem_append_left _ hq)
  -- the entry is at this pair or at the one before, neither of which is disturbed
  have hplaced := ht.placed p (List.mem_append_left _ hp) hqv hpn k
    (by rw [pairAt, hpq]; exact hk)
  rw [((h.tailReplaced rule).index _ k).mpr ⟨hk, ?_, ?_, ?_⟩]
  · exact Option.some_ne_none k
  · rintro rfl
    rcases hplaced with heq | heq
    · rw [heq, hback] at hpq
      exact hnout (hpq ▸ hq)
    · exact hpn (heq.trans hback)
  · rintro rfl
    rcases hplaced with heq | heq
    · exact hpn heq
    · exact htout (by rw [← hnext, ← heq]; exact hp)
  · rintro rfl
    rcases hplaced with heq | heq
    · exact htout (heq ▸ hp)
    · exact h.ne_sentinel (List.mem_append_left _ hp) (heq.trans hend)

/-- What follows from the premises of the tail's cascade once a rule has taken the
place of the last pair: they hold of the pair before it. -/
theorem TidyOff.tail_front {pre : List Ptr} {m t : Ptr} {rule : Rule}
    (h : Shape s (pre ++ [m] ++ [n, t])) (h1 : Shape (s.replaceRuled n rule) (pre ++ [m, n]))
    (ht : TidyOff s (pre ++ [m] ++ [n, t]) (· = n))
    (hun : s.Unlost ((pre ++ [m]).map s.val).reverse (ruleSymbol rule.id)) :
    TidyOff (s.replaceRuled n rule) (pre ++ [m, n]) (· = m) ∧
      (s.replaceRuled n rule).Unlost ((pre ++ [m]).map (s.replaceRuled n rule).val).reverse
        ((s.replaceRuled n rule).val n) := by
  have hrep := h.tailReplaced rule
  constructor
  · have ht1 := hrep.tidy ht
    rw [show pre ++ [m] ++ [n] = pre ++ [m, n] by simp] at ht1
    have hring : Ring s.next s.prev sentinel (pre ++ m :: n :: [t]) := by simpa using h.ring
    -- the pair that may be untidy now starts where the rule symbol is the second
    have hback : s.next m = n := hring.next_pair
    refine ht1.mono fun p hp hpv hs => ?_
    have hend : (s.replaceRuled n rule).next n = sentinel := by simpa using h1.ring.next_snd
    have hpn : p ≠ n := fun heq => hpv (by rw [heq, hend])
    have hpl : p ∈ pre ++ m :: n :: [t] := by
      simp only [List.mem_append, List.mem_cons] at hp ⊢
      tauto
    have hml : m ∈ pre ++ m :: n :: [t] := by simp
    refine hring.next_inj (List.mem_cons_of_mem _ hpl) (List.mem_cons_of_mem _ hml) ?_
    rw [hback]
    exact hs.elim (absurd · hpn) fun hs' => hs'.elim id (absurd · hpn)
  -- the nodes before keep their symbols, so the condition speaks of the same pairs
  · have hval : (pre ++ [m]).map (s.replaceRuled n rule).val = (pre ++ [m]).map s.val := by
      refine List.map_congr_left fun p hin => ?_
      have hne : p ≠ n := fun heq => h.notMem_front.1 (heq ▸ hin)
      rw [hrep.val, Function.update_of_ne hne]
    have hvaln : (s.replaceRuled n rule).val n = ruleSymbol rule.id := by
      rw [hrep.val, Function.update_self]
    rw [hval, hvaln]
    refine hun.transfer (ruled_replaceRuled s n rule) fun u v hin => ?_
    rw [List.reverse_reverse] at hin
    exact ht.index_front h rule hin

/-- The cascade at the tail leaves no exception if the pair it ends with is not
lost, for roots of at most `f` nodes. -/
def TailTidies (ok : String → Prop) (f : ℕ) : Prop :=
  ∀ s pre n t ts, Inv ok s (pre ++ [n, t]) ts → (pre ++ [n, t]).length ≤ f →
    TidyOff s (pre ++ [n, t]) (· = n) →
    s.Unlost ((pre ++ [n]).map s.val).reverse (s.val t) →
    ∃ s' r l', check f s n = some (s', r) ∧ Inv ok s' l' ts ∧ Tidy s' l'

/-- The check before a pair that a rule replaced. -/
theorem tail_goes_on (hok : ∀ t, ok t → t ≠ "" ∧ Plain t) (ih : TailTidies ok f) {pre : List Ptr}
    {t : Ptr} {rule : Rule} (h : Inv ok s (pre ++ [n, t]) ts) (hf : (pre ++ [n, t]).length ≤ f + 1)
    (ht : TidyOff s (pre ++ [n, t]) (· = n))
    (h1 : Inv ok (s.replaceRuled n rule) (pre ++ [n]) ts)
    (hun : s.Unlost (pre.map s.val).reverse (ruleSymbol rule.id)) :
    ∃ s2 l2, checkIf (check f) (s.replaceRuled n rule)
        (¬ isSentinel n ∧ ¬ isSentinel ((s.replaceRuled n rule).prev n))
        ((s.replaceRuled n rule).prev n) = some s2 ∧ Inv ok s2 l2 ts ∧ Tidy s2 l2 ∧
      isSentinel (s2.next n) := by
  have hn1 := h1.shape.not_isSentinel (n := n) (by simp)
  -- what is checked next is the pair before, if there is one
  cases pre using List.reverseRecOn with
  | nil =>
    have hp : (s.replaceRuled n rule).prev n = sentinel := h1.shape.ring.around.2
    have hend : (s.replaceRuled n rule).next n = sentinel := h1.shape.ring.around.1
    refine ⟨_, _, ?_, h1, tidy_singleton h1.shape, .inr hend⟩
    rw [checkIf, if_neg]
    rintro ⟨-, hp'⟩
    exact hp' (.inr hp)
  | append_singleton pre m =>
    rw [show pre ++ [m] ++ [n] = pre ++ [m, n] by simp] at h1
    have hlen : (pre ++ [m, n]).length ≤ f := by
      simp only [List.length_append, List.length_cons, List.length_nil] at hf ⊢
      omega
    have hp : (s.replaceRuled n rule).prev n = m := h1.shape.ring.prev_pair
    have hm := h1.shape.not_isSentinel (n := m) (by simp)
    obtain ⟨ht1, hun1⟩ := ht.tail_front h.shape h1.shape hun
    -- tidiness and the end of the root come from two lemmas about the same run
    obtain ⟨s2, r, l2, hs2, h2, ht2⟩ := ih _ pre m n ts h1 hlen ht1 hun1
    obtain ⟨s2', r', hs2', -, hend⟩ := tail_cascade hok f _ pre m n ts h1 hlen
    obtain ⟨rfl, -⟩ := Prod.mk.inj (Option.some.inj (hs2.symm.trans hs2'))
    refine ⟨s2, l2, ?_, h2, ht2, hend⟩
    rw [hp, checkIf, if_pos ⟨hn1, hm⟩, hs2]
    rfl

/-- So `check` tidies up the tail of a root, in every depth of its recursion. -/
theorem tail_tidies (hok : ∀ t, ok t → t ≠ "" ∧ Plain t) (f : ℕ) : TailTidies ok f := by
  induction f with
  | zero =>
    intro s pre n t ts _ hf
    simp at hf
  | succ f ih =>
    intro s pre n t ts h hf ht hun
    have hn : n ∈ pre ++ [n, t] := by simp
    have hnext : s.next n = t := h.shape.ring.next_pair
    have hv : s.next n ≠ sentinel := by
      rw [hnext]
      exact h.shape.ne_sentinel (by simp)
    have hend : s.next t = sentinel := by simpa using h.shape.ring.next_snd
    have hpair : s.pairAt n = (s.val n, s.val t) := by rw [← hnext]; rfl
    have hdone : ∀ {D : Digram → Option Ptr},
        TidyOff { s with digrams := D } (pre ++ [n, t]) (fun p => p = n ∧ p ≠ n) →
        Tidy { s with digrams := D } (pre ++ [n, t]) := fun ht' =>
      ht'.mono fun p _ _ hp => hp.2 hp.1
    rw [List.map_append, List.map_singleton, List.reverse_append, List.reverse_singleton,
      List.singleton_append] at hun
    unfold Unlost at hun
    rw [← hpair] at hun
    rcases check_pair h.shape hn hv f with ⟨rule, hrule, hcheck⟩ | ⟨hr, hfree, hcheck⟩ |
      ⟨hr, m, hm, hover, hcheck⟩ | ⟨hr, m, hm, hmn, hback, hred⟩
    · -- an older rule: go on with the pair before
      have hrule' : s.ruled (s.pairAt n) = some rule := hrule
      rw [hrule'] at hun
      obtain ⟨h1, -, -⟩ := h.replaceRuled (hpair ▸ hrule')
      obtain ⟨s2, l2, hs2, h2, ht2, hend2⟩ := tail_goes_on hok ih h hf ht h1 hun
      have hn1 := h1.shape.not_isSentinel (n := n) (by simp)
      obtain ⟨k, rfl⟩ : ∃ k, f = k + 1 := ⟨f - 1, by simp at hf; omega⟩
      refine ⟨s2, some rule.id, l2, ?_, h2, ht2⟩
      rw [hcheck, checkAdjacencies_self, hs2, Option.bind_some, checkIf, if_pos hn1,
        check_of_sentinel (.inr hend2)]
      rfl
    · -- indexed: the root does not hold the pair elsewhere
      have hr' : s.ruled (s.pairAt n) = none := hr
      rw [hr', hpair] at hun
      refine ⟨_, none, _, hcheck, h.digrams (h.shape.indexed hn hv), hdone (ht.indexed hr ?_)⟩
      intro q hq hqv hqn heq
      obtain ⟨front, back, hsplit⟩ := h.shape.pair_before hq hqv hqn
      have hin : [s.val q, s.val (s.next q)] <:+: (pre ++ [n]).map s.val := by
        rw [hsplit]
        exact infix_nodes
      rw [hpair, pairAt, Prod.mk.injEq] at heq
      rw [heq.1, heq.2] at hin
      refine absurd (hpair ▸ hfree) (hun ?_)
      simpa using hin
    · -- the pair overlaps the one in the index, and stays as it is
      exact ⟨_, none, _, hcheck, h, hdone (ht.add hr hm hover)⟩
    · -- the pair is held elsewhere: both become the symbol of a new rule
      have hfront : s.next n ≠ m := by
        rintro rfl
        rw [hnext] at hm
        exact (h.shape.index _ t hm).2.1 hend
      obtain ⟨l1, hinv, hlen, hx', hun', -, -⟩ :=
        h.replaceBoth hok hn hv rfl hm (h.sound.ruled_none hr) hmn hback hfront
      have htidy := ht.replaceBoth h rfl hn hv hm (h.sound.ruled_none hr) hmn hback hfront
        hinv.shape fun p _ _ hp => .inr (.inl hp)
      obtain ⟨s', l', hs', hinv', htidy', -⟩ :=
        minted_tidies hok f _ l1 ts _ m n hinv hx' hun' htidy (by omega)
      refine ⟨s', some s.nextID, l', ?_, hinv', htidy'⟩
      rw [hred, reduce]
      exact congrArg (Option.map _) hs'

/-! ## Analyze -/

/-- Behind an appended node only the pair it ends is an exception. -/
theorem Shape.tidy_append (hs : Shape s l) (token : String) (ht : Tidy s l) :
    TidyOff { s.appendNode token with length := s.length + 1, pendingLen := s.pendingLen + 1 }
      (l ++ [s.fresh]) (· = s.prev sentinel) := by
  have hsent : s.fresh ≠ sentinel := hs.fresh.ne'
  have hnext := next_appendNode s token
  have hval := val_appendNode s token
  have hold : ∀ p ∈ l, p ≠ s.fresh := fun p hp => (hs.alloc p hp).2.ne
  -- the other pairs are what they were
  have hkeep : ∀ p ∈ l ++ [s.fresh], (s.appendNode token).next p ≠ sentinel →
      p ≠ s.prev sentinel → p ∈ l ∧ s.next p ≠ sentinel ∧
        (s.appendNode token).next p = s.next p ∧ (s.appendNode token).pairAt p = s.pairAt p := by
    intro p hp hpv hlast
    have hpf : p ≠ s.fresh := by
      rintro rfl
      rw [hnext, Function.update_of_ne hs.last_ne.symm, Function.update_self] at hpv
      exact hpv rfl
    have hpl : p ∈ l := (List.mem_append.mp hp).resolve_right fun h' =>
      hpf (List.mem_singleton.mp h')
    have hp' : (s.appendNode token).next p = s.next p := by
      rw [hnext, Function.update_of_ne hlast, Function.update_of_ne hpf]
    rw [hp'] at hpv
    refine ⟨hpl, hpv, hp', ?_⟩
    unfold pairAt
    rw [hp', hval, Function.update_of_ne hpf,
      Function.update_of_ne (hold _ (hs.next_mem hpl hpv))]
  constructor
  · intro p hp hpv hskip
    obtain ⟨hpl, hpv', -, hpair⟩ := hkeep p hp hpv hskip
    show s.ruled ((s.appendNode token).pairAt p) = none
    rw [hpair]
    exact ht.unruled p hpl hpv' id
  · intro p hp q hq hpv hqv hps hqs heq
    obtain ⟨hpl, hpv', hpn, hpp⟩ := hkeep p hp hpv hps
    obtain ⟨hql, hqv', hqn, hqq⟩ := hkeep q hq hqv hqs
    have heq' : s.pairAt p = s.pairAt q := hpp.symm.trans (heq.trans hqq)
    show p = q ∨ (s.appendNode token).next p = q ∨ (s.appendNode token).next q = p
    rw [hpn, hqn]
    exact ht.unique p hpl q hql hpv' hqv' id id heq'
  · intro p hp hpv hskip m hm
    obtain ⟨hpl, hpv', -, hpair⟩ := hkeep p hp hpv hskip
    have hm' : s.digrams (s.pairAt p) = some m := hpair ▸ hm
    obtain ⟨hml, hmv, -⟩ := hs.index _ m hm'
    have hmlast : m ≠ s.prev sentinel := by
      rintro rfl
      exact hmv (hs.ring.next_prev List.mem_cons_self)
    have hmn : (s.appendNode token).next m = s.next m := by
      rw [hnext, Function.update_of_ne hmlast, Function.update_of_ne (hold m hml)]
    show p = m ∨ p = (s.appendNode token).next m
    rw [hmn]
    exact ht.placed p hpl hpv' id m hm'

/-- A token that is not lost leaves no exception. -/
theorem tidy_analyzeToken (hok : ∀ t, ok t → t ≠ "" ∧ Plain t) (h : Inv ok s l ts)
    (ht : Tidy s l) (created : Option ℕ) {token : String} (htok : token ≠ "" → ok token)
    (hun : token ≠ "" → s.Unlost (l.map s.val).reverse token) :
    ∃ s' r l', analyzeToken s created token = some (s', r) ∧
      Inv ok s' l' (if token = "" then ts else ts ++ [token]) ∧ Tidy s' l' := by
  by_cases hempty : token = ""
  · rw [analyzeToken, if_pos hempty, if_pos hempty]
    exact ⟨s, created, l, rfl, h, ht⟩
  · rw [if_neg hempty]
    have hinv := h.append (htok hempty) hempty (hok _ (htok hempty)).2
    have ht1 := h.shape.tidy_append token ht
    have hmap : l.map (s.appendNode token).val = l.map s.val := by
      refine List.map_congr_left fun p hp => ?_
      rw [val_appendNode, Function.update_of_ne (h.shape.alloc p hp).2.ne]
    have hvaln : (s.appendNode token).val s.fresh = token := by
      rw [val_appendNode, Function.update_self]
    have hprev : ({ s.appendNode token with
        length := s.length + 1, pendingLen := s.pendingLen + 1 } : Sequitur).prev s.fresh =
        s.prev sentinel := h.shape.prev_append
    have hun1 : ({ s.appendNode token with
        length := s.length + 1, pendingLen := s.pendingLen + 1 } : Sequitur).Unlost
        (l.map (s.appendNode token).val).reverse ((s.appendNode token).val s.fresh) := by
      rw [hmap, hvaln]
      exact (hun hempty).transfer (fun _ => rfl) fun _ _ _ hne => hne
    have hlen : s.length + 1 = (l ++ [s.fresh]).length := hinv.shape.length
    obtain ⟨s', r, l', hcheck, hinv', htidy'⟩ : ∃ s' r l',
        check (s.length + 1) { s.appendNode token with
          length := s.length + 1, pendingLen := s.pendingLen + 1 } (s.prev sentinel) =
            some (s', r) ∧ Inv ok s' l' (ts ++ [token]) ∧ Tidy s' l' := by
      -- the first symbol has the sentinel behind it, and nothing is checked
      cases l using List.reverseRecOn with
      | nil =>
        have hroot : s.prev sentinel = sentinel := h.shape.ring.links.2
        rw [hroot, check_of_sentinel (.inl (.inr rfl))]
        exact ⟨_, none, _, rfl, hinv, tidy_singleton hinv.shape⟩
      | append_singleton pre n =>
        have hlast : s.prev sentinel = n := by
          have := h.shape.ring.links.prev_eq
          simpa using this
        have heq : pre ++ [n] ++ [s.fresh] = pre ++ [n, s.fresh] := by simp
        rw [heq] at hinv ht1 hlen
        rw [hlast] at ht1 ⊢
        have hlen' : (pre ++ [n, s.fresh]).length ≤ s.length + 1 := hlen.ge
        exact tail_tidies hok (s.length + 1) _ pre n s.fresh _ hinv hlen' ht1 hun1
    rw [← hprev] at hcheck
    have hturn := analyzeToken_of_check created hempty hcheck
    cases r with
    | none => exact ⟨s', created, l', hturn, hinv', htidy'⟩
    | some id =>
      exact ⟨_, some id, l', hturn, hinv'.pendingLen, htidy'.unruled, htidy'.unique,
        htidy'.placed⟩

end Symm.Tokenizer.Sequitur
