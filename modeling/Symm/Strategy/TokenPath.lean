import Symm.Lib.Segments
import Symm.Strategy.TreeSpec
import Symm.Tokenizer.Symbol

/-!
# Paths as token sequences (`strategy/tree.go`)

`Predict` and `Update` look for the leaves under a path with a byte prefix, and
a path is a sequence of tokens joined by `/`. The two agree on a leaf unless it
merely continues the last token of the cut, as `M12` continues `M1`.

- `Under`: the path has the tokens of the cut first, which is what a cut means;
- `Overruns`: it has all but the last, and goes on inside that one;
- `under_render_iff`: a byte prefix is one of the two, so the tree and the tokens differ
  by the leaves that overrun;
- `byTokens_iff`: they agree for a cut exactly where no leaf overruns it, or where the
  cut is too short to be looked up.

A token is a structure with its own well-formedness: a region name or a rule reference,
not empty and without a slash. So `render` is injective on cuts, which the tree relies
on wherever it takes a path for a cut.
-/

namespace Symm.Strategy

open Symm.System Symm.Lib Symm.Tokenizer

/-- The text of one token: a region name or a rule reference. -/
structure Token where
  text : String
  nonempty : text ≠ ""
  plain : '/' ∉ text.toList

/-- The reference to a rule. -/
def Token.rule (id : ℕ) : Token where
  text := RuleRef id
  nonempty := RuleRef_ne_empty id
  plain := by
    unfold RuleRef
    split
    · decide
    · rw [String.toList_append]
      intro hmem
      rcases List.mem_append.mp hmem with h | h
      · revert h
        decide
      · have hdigit := Nat.isDigit_of_mem_toDigits (by decide) (by decide)
          (Nat.toList_repr ▸ h : '/' ∈ Nat.toDigits 10 id)
        revert hdigit
        decide

/-- `Tokens.String`: the tokens joined by `/`. -/
def render (tokens : List Token) : String := "/".intercalate (tokens.map Token.text)

/-- The live cut of a token sequence. -/
def cutOf (tokens : List Token) (lastBrightness : Floating) : Cut :=
  ⟨render tokens, tokens.length, lastBrightness⟩

/-- The characters of each token. -/
def chars (tokens : List Token) : List (List Char) := tokens.map fun token => token.text.toList

/-- The tokens of a path. -/
def pathTokens (path : String) : List (List Char) := path.toList.splitOn '/'

/-- A path is rendered with one slash between tokens. -/
theorem toList_render (tokens : List Token) :
    (render tokens).toList = ['/'].intercalate (chars tokens) := by
  unfold render chars
  rw [String.toList_intercalate, List.map_map]
  rfl

/-- No token has a slash in it. -/
theorem slash_not_mem_chars (tokens : List Token) : ∀ token ∈ chars tokens, '/' ∉ token := by
  intro token hmem
  obtain ⟨t, -, rfl⟩ := List.mem_map.mp hmem
  exact t.plain

/-- A rendered path is read back as its tokens. -/
theorem pathTokens_render {tokens : List Token} (h : tokens ≠ []) :
    pathTokens (render tokens) = chars tokens := by
  unfold pathTokens
  rw [toList_render]
  refine List.splitOn_intercalate '/' (slash_not_mem_chars tokens) ?_
  unfold chars
  rwa [Ne, List.map_eq_nil_iff]

theorem segments_eq (path : String) : segments path = (pathTokens path).length :=
  (length_splitOn '/' path.toList).symm

/-- Only no tokens at all render as an empty path. -/
theorem render_eq_empty {tokens : List Token} : render tokens = "" ↔ tokens = [] := by
  constructor
  · intro h
    by_contra hne
    have hread := pathTokens_render hne
    rw [h] at hread
    cases tokens with
    | nil => exact hne rfl
    | cons token rest =>
      have hhead : [] = token.text.toList := (List.cons.inj hread).1
      exact token.nonempty (String.toList_inj.mp hhead.symm)
  · rintro rfl
    rfl

/-- Cuts that render alike have the same tokens. -/
theorem render_inj {a b : List Token} (h : render a = render b) :
    a.map Token.text = b.map Token.text := by
  by_cases ha : a = []
  · rw [ha] at h ⊢
    rw [render_eq_empty.mp h.symm]
  · have hb : b ≠ [] := fun hb => ha (render_eq_empty.mp (h.trans (render_eq_empty.mpr hb)))
    have hchars := congrArg pathTokens h
    rw [pathTokens_render ha, pathTokens_render hb] at hchars
    refine List.map_injective_iff.mpr (fun _ _ => String.toList_inj.mp) ?_
    rw [List.map_map, List.map_map]
    exact hchars

/-- The path has the tokens of the cut first. -/
def Under (cut : List Token) (path : String) : Prop := chars cut <+: pathTokens path

instance (cut : List Token) (path : String) : Decidable (Under cut path) :=
  inferInstanceAs (Decidable (chars cut <+: pathTokens path))

/-- The path has the tokens of the cut but the last first, and then a token that
begins with the last one and goes on. -/
def Overruns (cut : List Token) (path : String) : Prop := Continues (chars cut) (pathTokens path)

/-- A byte prefix of a path is a prefix of tokens, or it ends inside a token. -/
theorem under_render_iff (cut : List Token) (path : String) :
    Tree.under (render cut) path ↔ Under cut path ∨ Overruns cut path := by
  unfold Tree.under Under Overruns
  rw [List.isPrefixOf_iff_prefix, toList_render]
  cases cut with
  | nil => exact iff_of_true List.nil_prefix (.inl List.nil_prefix)
  | cons token rest =>
    have hne : chars (token :: rest) ≠ [] := List.cons_ne_nil _ _
    exact intercalate_prefix_iff '/' (slash_not_mem_chars _) hne path.toList

/-- Either way the path has as many tokens as the cut. -/
theorem length_le_segments {cut : List Token} {path : String}
    (h : Under cut path ∨ Overruns cut path) : cut ≠ [] → cut.length ≤ segments path := by
  intro _
  rw [segments_eq]
  have hlen : (chars cut).length = cut.length := List.length_map _
  rcases h with h | h
  · exact hlen ▸ h.length_le
  · exact hlen ▸ h.length_le

namespace Tree

/-- The leaves that have the tokens of the cut first. -/
def matching (cut : List Token) (tree : Tree) : List (String × Leaf) :=
  tree.root.filter fun entry => Under cut entry.1

/-- The leaves that `Predict` counts, compares and prunes. -/
def read (learn : Learning) (tokens : Cut) (tree : Tree) : List (String × Leaf) :=
  if tokens.len < learn.minPathLength then [] else tree.seen learn tokens

/-- The prediction from a given list of leaves, which are compared, counted and
pruned in turn. -/
def predictOver (learn : Learning) (tokens : Cut) (leaves : List (String × Leaf)) (tree : Tree) :
    Tree × (Action × Floating × Bool) :=
  let walk := leaves.foldl (visit learn.minPathLength) .start
  (tree.without walk.prunes, answer tokens walk)

/-- `Predict` and `Update` go by tokens on this tree: a cut that is long enough
reads, and as a path changes, exactly the leaves that have its tokens first. -/
structure ByTokens (learn : Learning) (cut : List Token) (tree : Tree) : Prop where
  read : ∀ brightness, tree.read learn (cutOf cut brightness) =
    if cut.length < learn.minPathLength then [] else tree.matching cut
  predict : ∀ brightness, tree.predict learn (cutOf cut brightness) =
    if cut.length < learn.minPathLength then (tree, .none, .finite 0, false)
    else tree.predictOver learn (cutOf cut brightness) (tree.matching cut)
  update : ∀ delta key, (tree.update learn (render cut) delta).get key =
    if cut ≠ [] ∧ learn.minPathLength ≤ cut.length ∧ Under cut key then
      (tree.get key).map fun leaf => { leaf with resistance := leaf.resistance + delta }
    else tree.get key

/-- A path under a long enough cut is long enough. -/
theorem le_segments_of_under {learn : Learning} {cut : List Token} {path : String}
    (hlong : learn.minPathLength ≤ cut.length) (h : under (render cut) path) :
    learn.minPathLength ≤ segments path := by
  by_cases hne : cut = []
  · rw [hne] at hlong
    exact hlong.trans (Nat.zero_le _)
  · exact hlong.trans (length_le_segments ((under_render_iff cut path).mp h) hne)

/-- The guard of `Update` on the path of a cut. -/
theorem update_guard_iff (learn : Learning) (cut : List Token) :
    (render cut = "" ∨ segments (render cut) < learn.minPathLength) ↔
      ¬ (cut ≠ [] ∧ learn.minPathLength ≤ cut.length) := by
  rw [render_eq_empty, not_and_or, not_not, not_le]
  by_cases hne : cut = []
  · exact iff_of_true (.inl hne) (.inl hne)
  · have hlen : (chars cut).length = cut.length := List.length_map _
    rw [segments_eq, pathTokens_render hne, hlen]

section

variable {learn : Learning} {cut : List Token} {tree : Tree}

/-- Where no leaf overruns the cut, the byte prefix selects by tokens. -/
theorem filter_under_eq (h : ∀ key, (tree.get key).isSome → ¬ Overruns cut key) :
    tree.root.filter (fun entry => under (render cut) entry.1) = tree.matching cut := by
  refine List.filter_congr fun entry hentry => ?_
  have hsome : (tree.get entry.1).isSome := by
    rw [get_eq_some.mpr hentry]
    rfl
  rw [Bool.eq_iff_iff, under_render_iff, or_iff_left (h entry.1 hsome), decide_eq_true_iff]

/-- A long enough cut reads every leaf under its bytes. -/
theorem seen_cutOf (brightness : Floating) (hlong : learn.minPathLength ≤ cut.length) :
    tree.seen learn (cutOf cut brightness) =
      tree.root.filter fun entry => under (render cut) entry.1 := by
  refine List.filter_congr fun entry _ => ?_
  rw [Bool.eq_iff_iff, decide_eq_true_iff]
  exact and_iff_left_of_imp fun hunder => le_segments_of_under hlong hunder

/-- Predicting and updating go by tokens exactly when the cut is too short to be
looked up or no leaf merely continues its last token. -/
theorem byTokens_iff (learn : Learning) (cut : List Token) (tree : Tree) :
    tree.ByTokens learn cut ↔
      (learn.minPathLength ≤ cut.length →
        ∀ key, (tree.get key).isSome → ¬ Overruns cut key) := by
  constructor
  · -- a leaf that overruns the cut is read by bytes and not by tokens
    intro h hlong key hkey hover
    obtain ⟨leaf, hleaf⟩ := Option.isSome_iff_exists.mp hkey
    have hread := h.read (.finite 0)
    have hnot : ¬ cut.length < learn.minPathLength := not_lt.mpr hlong
    have hlen : (cutOf cut (.finite 0)).len = cut.length := rfl
    rw [if_neg hnot, Tree.read, hlen, if_neg hnot, seen_cutOf (.finite 0) hlong] at hread
    have hmem : (key, leaf) ∈ tree.matching cut := by
      rw [← hread]
      exact List.mem_filter.mpr
        ⟨get_eq_some.mp hleaf, (under_render_iff cut key).mpr (.inr hover)⟩
    exact hover.not_prefix (of_decide_eq_true (List.mem_filter.mp hmem).2)
  · intro h
    refine ⟨fun brightness => ?_, fun brightness => ?_, fun delta key => ?_⟩
    · show (if cut.length < learn.minPathLength then [] else _) = _
      refine ite_congr rfl (fun _ => rfl) fun hnot => ?_
      have hlong := not_lt.mp hnot
      rw [seen_cutOf brightness hlong, filter_under_eq (h hlong)]
    · rw [predict_eq]
      refine ite_congr rfl (fun _ => rfl) fun hnot => ?_
      unfold predictOver
      rw [← filter_under_eq (h (not_lt.mp hnot))]
      rfl
    · rw [get_update, ite_congr (propext (update_guard_iff learn cut)) (fun _ => rfl) fun _ => rfl,
        ite_not]
      by_cases hwrites : cut ≠ [] ∧ learn.minPathLength ≤ cut.length
      · rw [if_pos hwrites]
        cases hkey : tree.get key with
        | none => exact (ite_self _).symm
        | some leaf =>
          have hover := h hwrites.2 key (by rw [hkey]; rfl)
          have hunder : under (render cut) key ↔ Under cut key := by
            rw [under_render_iff, or_iff_left hover]
          rw [Option.map_some, Option.map_some, bump]
          by_cases hu : Under cut key
          · rw [if_pos (hunder.mpr hu), if_pos ⟨hwrites.1, hwrites.2, hu⟩]
          · rw [if_neg fun h' => hu (hunder.mp h'), if_neg fun h' => hu h'.2.2]
      · rw [if_neg hwrites, if_neg fun h' => hwrites ⟨h'.1, h'.2.1⟩]

/-- A leaf of a region and the twelfth rule. -/
def twelfthRule : List Token := [⟨"R06.R00", by decide, by decide⟩, .rule 12]

/-- The cut of that region and the first rule reads the leaf of the twelfth. -/
theorem not_byTokens_twelfthRule :
    ¬ ∀ (learn : Learning) (cut : List Token) (tree : Tree),
      (∀ entry ∈ tree.root, ∃ tokens, entry.1 = render tokens) → tree.ByTokens learn cut := by
  intro h
  let leaf : Leaf := ⟨"enter", render twelfthRule, 1 / 2⟩
  let cut : List Token := [⟨"R06.R00", by decide, by decide⟩, .rule 1]
  have hbad := h Cfg.defaults.learning cut ⟨[(render twelfthRule, leaf)], List.pairwise_singleton _ _⟩
    fun entry hentry => ⟨twelfthRule, congrArg Prod.fst (List.mem_singleton.mp hentry)⟩
  have hread := hbad.read (.finite 1)
  revert hread
  decide +kernel

end

end Tree

end Symm.Strategy
