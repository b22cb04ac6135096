import Symm.Tokenizer.Lossless

/-!
# The rule table only grows

Whatever a cascade does, it is made of three writes: an entry of the digram
index, a new rule with both its occurrences replaced, and an older rule in the
place of one occurrence. So a relation between grammars that is reflexive and
transitive and holds across each of the three holds across every call.

- `Respected`: such a relation;
- `Respected.check`, `Respected.analyze`: it holds across a cascade and a call;
- `Extends`: every rule is kept, with its body;
- `Grows`: a numbered table is extended and stays numbered.

A cascade is a recursion whose calls are guarded and repeated, and each property of it
would need the same induction. `Respected` has it once: the relation is given, with one
field for each of the three writes, and the theorems follow the code from there. A
relation may speak of all that a write changes, as `Grows` does, or of one part of a
grammar.

`Numbered` belongs to it: that a new rule has an id of its own is a fact about the
grammar before the write, and so it has to be carried along.
-/

namespace Symm.Tokenizer

namespace Sequitur

/-! ## Relations a cascade respects -/

/-- A preorder on grammars that the writes of a cascade respect. -/
structure Respected (R : Sequitur → Sequitur → Prop) : Prop where
  refl : ∀ s, R s s
  trans : ∀ {s t u}, R s t → R t u → R s u
  index : ∀ s D, R s { s with digrams := D }
  replaceBoth : ∀ s n m d, R s (s.replaceBoth n m d)
  replaceRuled : ∀ s n, ∀ rule ∈ s.rules, R s (s.replaceRuled n rule)
  appendNode : ∀ s token len pending,
    R s { s.appendNode token with length := len, pendingLen := pending }
  counters : ∀ s pending kind, R s { s with pendingLen := pending, lastKind := kind }

namespace Respected

variable {R : Sequitur → Sequitur → Prop} {s t : Sequitur} {n : Ptr}

/-- A guarded check does what `check` does, or nothing. -/
theorem checkIf {c : Sequitur → Ptr → Option (Sequitur × Option ℕ)} (hR : Respected R)
    (hc : ∀ {s n r}, c s n = some r → R s r.1) {guard : Prop} [Decidable guard]
    (h : Sequitur.checkIf c s guard n = some t) : R s t := by
  unfold Sequitur.checkIf at h
  by_cases hg : guard
  · rw [if_pos hg] at h
    obtain ⟨r, hr, rfl⟩ := Option.map_eq_some_iff.mp h
    exact hc hr
  · rw [if_neg hg] at h
    obtain rfl := Option.some.inj h
    exact hR.refl s

/-- The checks around a replacement do so one after the other. -/
theorem checkAdjacencies {c : Sequitur → Ptr → Option (Sequitur × Option ℕ)} (hR : Respected R)
    (hc : ∀ {s n r}, c s n = some r → R s r.1) {a b : Ptr}
    (h : Sequitur.checkAdjacencies c s a b = some t) : R s t := by
  rw [checkAdjacencies_eq] at h
  obtain ⟨s2, h2, h4⟩ := Option.bind_eq_some_iff.mp h
  obtain ⟨s1, h1, h2⟩ := Option.bind_eq_some_iff.mp h2
  obtain ⟨s3, h3, h4⟩ := Option.bind_eq_some_iff.mp h4
  have hfirst := hR.trans (hR.checkIf hc h1) (hR.checkIf hc h2)
  exact hR.trans hfirst (hR.trans (hR.checkIf hc h3) (hR.checkIf hc h4))

/-- Across one cascade. -/
theorem check (hR : Respected R) {fuel : ℕ} {r : Sequitur × Option ℕ}
    (h : Sequitur.check fuel s n = some r) : R s r.1 := by
  induction fuel generalizing s n r with
  | zero => cases h
  | succ fuel ih =>
    -- the checks of the neighbours have the smaller fuel
    have hadj : ∀ {s t : Sequitur} {a b : Ptr},
        Sequitur.checkAdjacencies (Sequitur.check fuel) s a b = some t → R s t :=
      fun hst => hR.checkAdjacencies (fun hr => ih hr) hst
    rw [Sequitur.check] at h
    by_cases hs : isSentinel n ∨ isSentinel (s.next n)
    · rw [if_pos hs] at h
      obtain rfl := Option.some.inj h
      exact hR.refl s
    rw [if_neg hs] at h
    dsimp only at h
    cases hr : s.ruled (s.val n, s.val (s.next n)) with
    | some rule =>
      rw [hr] at h
      obtain ⟨t, ht, rfl⟩ := Option.map_eq_some_iff.mp h
      obtain ⟨id, -, hrule⟩ := Option.bind_eq_some_iff.mp hr
      exact hR.trans (hR.replaceRuled s n rule (ruleOf_mem hrule)) (hadj ht)
    | none =>
      rw [hr] at h
      cases hd : s.digrams (s.val n, s.val (s.next n)) with
      | none =>
        rw [hd] at h
        obtain rfl := Option.some.inj h
        exact hR.index s _
      | some m =>
        rw [hd] at h
        dsimp only at h
        split at h
        · split at h
          · obtain rfl := Option.some.inj h
            exact hR.refl s
          · obtain ⟨t, ht, rfl⟩ := Option.map_eq_some_iff.mp h
            exact hR.trans (hR.replaceBoth s n m _) (hadj ht)
        · obtain rfl := Option.some.inj h
          exact hR.index s _

/-- A token is appended and checked, or passed over. -/
theorem analyzeToken (hR : Respected R) {created : Option ℕ} {token : String}
    {r : Sequitur × Option ℕ} (h : Sequitur.analyzeToken s created token = some r) : R s r.1 := by
  unfold Sequitur.analyzeToken at h
  by_cases hempty : token = ""
  · rw [if_pos hempty] at h
    obtain rfl := Option.some.inj h
    exact hR.refl s
  rw [if_neg hempty] at h
  dsimp only at h
  have happ := hR.appendNode s token ((s.appendNode token).length + 1)
    ((s.appendNode token).pendingLen + 1)
  split at h
  · cases h
  · next hc =>
    have hcheck := hR.check hc
    obtain rfl := Option.some.inj h
    exact hR.trans happ hcheck
  · next hc =>
    have hcheck := hR.check hc
    obtain rfl := Option.some.inj h
    exact hR.trans (hR.trans happ hcheck) (hR.counters _ 0 _)

/-- Across one call. -/
theorem analyze (hR : Respected R) {tokens : List String} {r : Sequitur × Option ℕ}
    (h : s.analyze tokens = some r) : R s r.1 := by
  have hloop : ∀ {t : Sequitur} {created : Option ℕ},
      tokens.foldlM (fun r token => Sequitur.analyzeToken r.1 r.2 token) (t, created) = some r →
        R t r.1 := by
    clear h
    induction tokens with
    | nil =>
      intro t created h
      obtain rfl := Option.some.inj h
      exact hR.refl t
    | cons token tokens ih =>
      intro t created h
      rw [List.foldlM_cons] at h
      obtain ⟨r1, h1, hrest⟩ := Option.bind_eq_some_iff.mp h
      exact hR.trans (hR.analyzeToken h1) (ih hrest)
  exact hR.trans (hR.counters s s.pendingLen .append) (hloop h)

end Respected

/-! ## Growth -/

/-- Every rule of `s` is a rule of `s'`, with the same body. -/
def Extends (s s' : Sequitur) : Prop :=
  ∀ id body, s.bodyOf id = some body → s'.bodyOf id = some body

theorem Extends.refl (s : Sequitur) : Extends s s := fun _ _ h => h

theorem Extends.trans {s t u : Sequitur} (h : Extends s t) (h' : Extends t u) : Extends s u :=
  fun id body hb => h' id body (h id body hb)

/-- The ids in use are below the next one, and every rule counts two uses or
more. -/
def Numbered (s : Sequitur) : Prop := ∀ rule ∈ s.rules, rule.id < s.nextID ∧ 2 ≤ rule.count

/-- A numbered table is extended and stays numbered. -/
def Grows (s s' : Sequitur) : Prop := Numbered s → Numbered s' ∧ Extends s s'

namespace Grows

variable {s t u : Sequitur}

/-- Where no rule changes, the rules have grown in the weak sense. -/
theorem of_rules (hrules : t.rules = s.rules) (hnext : t.nextID = s.nextID) : Grows s t := by
  intro hs
  refine ⟨?_, fun id body hb => ?_⟩
  · unfold Numbered
    rw [hrules, hnext]
    exact hs
  · rw [bodyOf, ruleOf, hrules]
    exact hb

/-- Growing twice is growing. -/
theorem trans (h : Grows s t) (h' : Grows t u) : Grows s u := by
  intro hs
  obtain ⟨ht, hst⟩ := h hs
  obtain ⟨hu, htu⟩ := h' ht
  exact ⟨hu, hst.trans htu⟩

/-- A new rule comes last, under the next number. -/
theorem newRule (s : Sequitur) (d : Digram) : Grows s (s.newRule d) := by
  intro hs
  have hrules : (s.newRule d).rules =
      s.rules ++ [{ id := s.nextID, count := 2, body := [d.1, d.2] }] := by
    show List.filter _ s.rules ++ [_] = _
    rw [List.filter_eq_self.mpr]
    intro r hr
    simpa using (hs r hr).1.ne
  refine ⟨fun rule hrule => ?_, fun id body hb => ?_⟩
  · show rule.id < s.nextID + 1 ∧ _
    rw [hrules, List.mem_append, List.mem_singleton] at hrule
    rcases hrule with hold | rfl
    · exact ⟨Nat.lt_succ_of_lt (hs rule hold).1, (hs rule hold).2⟩
    · exact ⟨Nat.lt_succ_self _, le_refl 2⟩
  · obtain ⟨rule, hrule, rfl⟩ := Option.map_eq_some_iff.mp hb
    rw [bodyOf, ruleOf, hrules, List.find?_append, show s.rules.find? _ = some rule from hrule]
    rfl

/-- Counting a use changes no rule but its count. -/
theorem setCount {id : ℕ} {count : ℤ} (hcount : 2 ≤ count) : Grows s (s.setCount id count) := by
  intro hs
  refine ⟨fun rule hrule => ?_, fun j body hb => ?_⟩
  · obtain ⟨old, hold, rfl⟩ := List.mem_map.mp hrule
    by_cases hid : old.id = id
    · rw [if_pos hid]
      exact ⟨(hs old hold).1, hcount⟩
    · rw [if_neg hid]
      exact hs old hold
  · rw [bodyOf_setCount]
    exact hb

/-- Making a rule grows the rules by it. -/
theorem replaceBoth (s : Sequitur) (n m : Ptr) (d : Digram) : Grows s (s.replaceBoth n m d) := by
  refine (newRule s d).trans (of_rules ?_ ?_)
  · show (((s.newRule d).substitute m s.nextID).substitute n s.nextID).rules = _
    rw [rules_substitute, rules_substitute]
  · show (((s.newRule d).substitute m s.nextID).substitute n s.nextID).nextID = _
    rw [nextID_substitute, nextID_substitute]

/-- Reusing one counts its use. -/
theorem replaceRuled (s : Sequitur) (n : Ptr) {rule : Rule} (hr : rule ∈ s.rules) :
    Grows s (s.replaceRuled n rule) := by
  intro hs
  have hcount : 2 ≤ rule.count + 1 := by
    have := (hs rule hr).2
    omega
  have hraised : Grows s (s.setCount rule.id (rule.count + 1)) := setCount hcount
  refine hraised.trans (of_rules ?_ ?_) hs
  · unfold Sequitur.replaceRuled
    dsimp only
    split
    · exact rules_substitute ..
    · exact rules_substitute ..
  · unfold Sequitur.replaceRuled
    dsimp only
    split
    · exact nextID_substitute ..
    · exact nextID_substitute ..

end Grows

theorem respected_grows : Respected Grows where
  refl := fun _ => Grows.of_rules rfl rfl
  trans := Grows.trans
  index := fun _ _ => Grows.of_rules rfl rfl
  replaceBoth := Grows.replaceBoth
  replaceRuled := fun s n _ hr => Grows.replaceRuled s n hr
  appendNode := fun _ _ _ _ => Grows.of_rules rfl rfl
  counters := fun _ _ _ => Grows.of_rules rfl rfl

/-- Every call keeps the rules it finds. -/
theorem Grows.perform {s s' : Sequitur} {op : Op} (h : s.perform op = some s') : Grows s s' := by
  cases op with
  | analyze tokens =>
    obtain ⟨r, hr, rfl⟩ := Option.map_eq_some_iff.mp h
    exact respected_grows.analyze hr
  | sentence =>
    obtain rfl := Option.some.inj h
    exact Grows.of_rules rfl rfl
  | flush =>
    obtain rfl := Option.some.inj h
    exact Grows.of_rules rfl rfl

/-- A run of calls keeps the rules it finds. -/
theorem Grows.run {s s' : Sequitur} {ops : List Op}
    (h : ops.foldlM Sequitur.perform s = some s') :
    Grows s s' := by
  induction ops generalizing s with
  | nil =>
    obtain rfl := Option.some.inj h
    exact Grows.of_rules rfl rfl
  | cons op ops ih =>
    rw [List.foldlM_cons] at h
    obtain ⟨t, ht, hrest⟩ := Option.bind_eq_some_iff.mp h
    exact (Grows.perform ht).trans (ih hrest)

theorem numbered_new : Numbered new := fun _ h => absurd h List.not_mem_nil

end Sequitur

end Symm.Tokenizer
