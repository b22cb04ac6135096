import Symm.Tokenizer.MDL
import Symm.Tokenizer.Sequitur

/-!
# The sequencer

`Sequencer` feeds the regions of a tick to the grammar, shows the new tail of
the root to the segmenter, and returns the last symbols of the root as the live
cut. A cut of the segmenter ends the sentence, but only when the next regions
come in.

The tokens of `runtime` are kept as they are built, one list of symbols and a
brightness each. `State` and `Restore` are what a restart goes through.

`feed` is one turn of the loop over the regions of a tick, with `none` where the grammar
does not return. That it always returns is proved with the cascade
(`Tokenizer.Cascade`), over the invariant of the grammar; here the model follows the
code and claims nothing.

The state that is published has the views of the rules and the symbols of the root.
Neither the pending break nor the digram index is in it, and the index that a restart
rebuilds need not be the one that was lost. What follows from both is in
`Tokenizer.Restart`.
-/

namespace Symm.Tokenizer

universe u

/-- `runtime.Token`. -/
structure Token where
  symbols : List String
  brightness : ℚ
  deriving DecidableEq, Repr

/-- `runtime.Tokens`. -/
abbrev Tokens := List Token

/-- `Sequencer`. -/
structure Sequencer (K : Type u) where
  grammar : Sequitur
  mdl : MDL K
  lastEmitted : String
  sentenceBreak : Bool

/-- `SequencerState`. -/
structure SequencerState (K : Type u) where
  lastEmitted : String
  root : List String
  rules : List Sequitur.RuleView
  mdl : MDLState K

/-- `restoreGrammar`. -/
def restoreGrammar (grammar : Sequitur) (root : List String) (rules : List Sequitur.RuleView) :
    Sequitur :=
  (rules.foldl (fun grammar view => grammar.learn view.id view.count view.symbols)
    grammar).restoreRoot root

namespace Sequencer

variable {K : Type u} [Field K] [LinearOrder K] (log : K → K)

def new : Sequencer K := ⟨.new, .new, "", false⟩

def reset (seq : Sequencer K) : Sequencer K :=
  { seq with lastEmitted := "", sentenceBreak := false, grammar := seq.grammar.sentence }

/-- `Sequencer.cut`: the last symbols of the root; the last one is lit. -/
def cut (seq : Sequencer K) (maxPathLength : ℤ) (tailBrightness : ℚ) : Tokens :=
  let segments := seq.grammar.tail maxPathLength
  segments.zipIdx.map fun segment =>
    ⟨[segment.1], if segment.2 = segments.length - 1 then tailBrightness else 0⟩

/-- One turn of the loop of `StepPath`: `none` stands for a grammar that does not
return. -/
def feed (seq : Sequencer K) (symbol : String) : Option (Sequencer K) :=
  (seq.grammar.analyze [symbol]).map fun result =>
    let seq := { seq with grammar := result.1 }
    match seq.grammar.tail 1 with
    | [] => seq
    | tail :: _ =>
      let (mdl, boundary, _) := seq.mdl.analyze log tail
      { seq with mdl := mdl, sentenceBreak := seq.sentenceBreak || boundary }

/-- A pending break ends the sentence. -/
def breakSentence (seq : Sequencer K) : Sequencer K :=
  if seq.sentenceBreak then { seq with grammar := seq.grammar.sentence, sentenceBreak := false }
  else seq

/-- `Sequencer.StepPath`. -/
def stepPath (seq : Sequencer K) (maxPathLength : ℤ) (symbols : List String) (brightness : ℚ) :
    Option (Sequencer K × Tokens) :=
  let parts := symbols.filter (· ≠ "")
  if parts = [] then some (seq, [])
  else
    let seq := seq.breakSentence
    let key := ".".intercalate parts
    if key = seq.lastEmitted then some (seq, seq.cut maxPathLength brightness)
    else (parts.foldlM (feed log) seq).map fun seq =>
      let seq := { seq with lastEmitted := key }
      (seq, seq.cut maxPathLength brightness)

/-- `Sequencer.Step`. -/
def step (seq : Sequencer K) (maxPathLength : ℤ) (symbol : String) (brightness : ℚ) :
    Option (Sequencer K × Tokens) := seq.stepPath log maxPathLength [symbol] brightness

/-- `Sequencer.State`. -/
def state (seq : Sequencer K) : Option (SequencerState K) :=
  seq.grammar.ruleViews.map fun rules =>
    ⟨seq.lastEmitted, seq.grammar.rootSequence, rules, seq.mdl.state⟩

/-- `Sequencer.Restore`. -/
def restore (seq : Sequencer K) (state : SequencerState K) : Sequencer K where
  grammar := restoreGrammar seq.grammar state.root state.rules
  mdl := seq.mdl.restore state.mdl
  lastEmitted := state.lastEmitted
  sentenceBreak := false

/-! ## Clients -/

/-- A call of a client, with the bound on the length of a path it is made under. -/
inductive Call
  | step (maxPathLength : ℤ) (symbol : String) (brightness : ℚ)
  | stepPath (maxPathLength : ℤ) (symbols : List String) (brightness : ℚ)
  | reset

/-- The symbols a call brings. -/
def Call.symbols : Call → List String
  | .step _ symbol _ => [symbol]
  | .stepPath _ symbols _ => symbols
  | .reset => []

/-- The sequencer after a call, and the tokens it returns. -/
def call (seq : Sequencer K) : Call → Option (Sequencer K × Option Tokens)
  | .step maxPathLength symbol brightness =>
    (seq.step log maxPathLength symbol brightness).map fun r => (r.1, some r.2)
  | .stepPath maxPathLength symbols brightness =>
    (seq.stepPath log maxPathLength symbols brightness).map fun r => (r.1, some r.2)
  | .reset => some (seq.reset, none)

/-- A run of calls: the sequencer after it, and the tokens of each call. -/
def run : Sequencer K → List Call → Option (Sequencer K × List (Option Tokens))
  | seq, [] => some (seq, [])
  | seq, c :: rest => (seq.call log c).bind fun r =>
      (run r.1 rest).map fun last => (last.1, r.2 :: last.2)

end Sequencer

end Symm.Tokenizer
