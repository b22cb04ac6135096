import Mathlib.Algebra.Field.Defs
import Mathlib.Data.List.AList
import Mathlib.Order.Lattice

/-!
# Segment boundaries by description length

`MDL` reads the symbols at the tail of the root and cuts its stream where two
segments are cheaper to describe than one. Costs are `float64` in the source;
here they lie in any ordered field, and the natural logarithm is a parameter.
Symbol ids are `uint32` and wrap.

The histogram counts what came in since the last cut. `detectBoundary` tries every place
at which the open segment can be cut and keeps the first of the best ones; `cost` is the
entropy of a histogram over what it counts, and the `penalty` of a segment is half of
`log n` for each free parameter of its histogram, and for one at least.

- `SymbolHistogram`: counts, their total, and the number of symbols;
- `intern`: the ids of the vocabulary, from 1 on;
- `scan`, `detectBoundary`: the loop over the places;
- `analyze`: one symbol, and what is left open after a cut;
- `state`, `restore`: what a save keeps.
-/

namespace Symm.Tokenizer

universe u

/-- `symbolHistogram`. -/
structure SymbolHistogram where
  counts : AList fun _ : UInt32 => ℤ
  total : ℤ
  numDistinct : ℤ

namespace SymbolHistogram

def new : SymbolHistogram := ⟨∅, 0, 0⟩

/-- `hist.counts[id]`, zero where it is missing. -/
def count (hist : SymbolHistogram) (id : UInt32) : ℤ := (hist.counts.lookup id).getD 0

def add (hist : SymbolHistogram) (id : UInt32) : SymbolHistogram where
  counts := hist.counts.insert id (hist.count id + 1)
  total := hist.total + 1
  numDistinct := if hist.count id = 0 then hist.numDistinct + 1 else hist.numDistinct

def remove (hist : SymbolHistogram) (id : UInt32) : SymbolHistogram :=
  if hist.count id ≤ 0 then hist
  else if hist.count id - 1 = 0 then
    ⟨hist.counts.erase id, hist.total - 1, hist.numDistinct - 1⟩
  else ⟨hist.counts.insert id (hist.count id - 1), hist.total - 1, hist.numDistinct⟩

variable {K : Type u} [Field K] (log : K → K)

/-- The entropy of the counts, summed in the order the map gives them. -/
def cost (hist : SymbolHistogram) : K :=
  if hist.total = 0 then 0
  else hist.counts.entries.foldl (fun cost entry =>
    if entry.2 = 0 then cost
    else cost - (entry.2 : K) * log ((entry.2 : K) / (hist.total : K))) 0

end SymbolHistogram

/-- `MDL`. -/
structure MDL (K : Type u) where
  stream : List UInt32
  offset : ℕ
  dist : SymbolHistogram
  vocab : AList fun _ : String => UInt32
  nextID : UInt32
  lastGain : K
  minSegmentSymbols : ℕ

/-- `MDLState`. -/
structure MDLState (K : Type u) where
  stream : List UInt32
  offset : ℕ
  vocab : AList fun _ : String => UInt32
  nextID : UInt32
  dist : SymbolHistogram
  lastGain : K

namespace MDL

variable {K : Type u} [Field K] [LinearOrder K] (log : K → K)

def new : MDL K := ⟨[], 0, .new, ∅, 1, 0, 2⟩

def intern (mdl : MDL K) (symbol : String) : MDL K × UInt32 :=
  match mdl.vocab.lookup symbol with
  | some id => (mdl, id)
  | none =>
    let id := mdl.nextID
    ({ mdl with nextID := mdl.nextID + 1, vocab := mdl.vocab.insert symbol id }, id)

/-- The running values of the loop in `detectBoundary`. -/
structure Scan (K : Type u) where
  left : SymbolHistogram
  right : SymbolHistogram
  bestK : ℕ
  maxGain : K

/-- Half a parameter's cost for each distinct symbol but one, over `n` symbols. -/
def penalty (hist : SymbolHistogram) (n : ℕ) : K :=
  1 / 2 * ((max (hist.numDistinct - 1) 1 : ℤ) : K) * log (n : K)

/-- One turn of the loop: the symbol before position `i` moves to the left. -/
def scan (dist : SymbolHistogram) (n minSeg : ℕ) (acc : Scan K) (entry : UInt32 × ℕ) : Scan K :=
  let i := entry.2 + 1
  let left := acc.left.add entry.1
  let right := acc.right.remove entry.1
  if i < minSeg ∨ n - i < minSeg then { acc with left := left, right := right }
  else
    let baseGain := dist.cost log - (left.cost log + right.cost log)
    let penaltyDiff := (penalty log left i + penalty log right (n - i)) - penalty log dist n
    let penalizedGain := baseGain - penaltyDiff
    if acc.maxGain < penalizedGain then ⟨left, right, i, penalizedGain⟩
    else { acc with left := left, right := right }

/-- Where one side would be too short, the loop only moves the symbol. -/
theorem scan_of_short {dist : SymbolHistogram} {n minSeg : ℕ} {acc : Scan K}
    {entry : UInt32 × ℕ} (h : entry.2 + 1 < minSeg ∨ n - (entry.2 + 1) < minSeg) :
    scan log dist n minSeg acc entry =
      { acc with left := acc.left.add entry.1, right := acc.right.remove entry.1 } := if_pos h

/-- Whether some split gains, the best one, and its gain. -/
def detectBoundary (mdl : MDL K) (stream : List UInt32) (dist : SymbolHistogram) :
    Bool × ℕ × K :=
  let n := stream.length
  let minSeg := max mdl.minSegmentSymbols 2
  if n < 2 * minSeg then (false, 0, 0)
  else
    let last := ((stream.take (n - 1)).zipIdx).foldl (scan log dist n minSeg) ⟨.new, dist, 0, 0⟩
    (decide (0 < last.maxGain), last.bestK, last.maxGain)

/-- `MDL.Analyze`: the segmenter after one symbol, whether it cut, and the gain. -/
def analyze (mdl : MDL K) (symbol : String) : MDL K × Bool × K :=
  if symbol = "" then (mdl, false, 0)
  else
    let (mdl, id) := mdl.intern symbol
    let mdl := { mdl with stream := mdl.stream ++ [id], dist := mdl.dist.add id }
    let seg := mdl.stream.drop mdl.offset
    if seg.length < 2 * mdl.minSegmentSymbols then (mdl, false, 0)
    else
      let (ok, k, g) := mdl.detectBoundary log seg mdl.dist
      if ¬ ok ∨ g ≤ 0 ∨ k = 0 ∨ seg.length ≤ k then (mdl, false, 0)
      else
        let offset := mdl.offset + k
        ({ mdl with
          offset := offset
          dist := (mdl.stream.drop offset).foldl SymbolHistogram.add .new
          lastGain := g }, true, g)

/-- The segmenter with a symbol at the end of its stream, before it looks for a
boundary. -/
def read (mdl : MDL K) (symbol : String) : MDL K :=
  let r := mdl.intern symbol
  { r.1 with stream := r.1.stream ++ [r.2], dist := r.1.dist.add r.2 }

/-- The symbols since the last boundary. -/
def segment (mdl : MDL K) : List UInt32 := mdl.stream.drop mdl.offset

/-- A split of the open segment that gains is a cut. -/
theorem analyze_cuts {mdl : MDL K} {symbol : String} {k : ℕ} {g : K} (hne : symbol ≠ "")
    (hlong : ¬ (mdl.read symbol).segment.length < 2 * (mdl.read symbol).minSegmentSymbols)
    (hsplit : (mdl.read symbol).detectBoundary log (mdl.read symbol).segment
      (mdl.read symbol).dist = (true, k, g)) (hg : 0 < g) (hk : 0 < k)
    (hkn : k < (mdl.read symbol).segment.length) : (mdl.analyze log symbol).2.1 = true := by
  unfold segment read at hlong hsplit hkn
  dsimp only at hlong hsplit hkn
  unfold analyze
  rw [if_neg hne]
  dsimp only
  rw [if_neg hlong, hsplit]
  dsimp only
  rw [if_neg]
  rintro (h | h | h | h)
  · exact h rfl
  · exact absurd hg (not_lt.mpr h)
  · exact Nat.ne_of_gt hk h
  · exact absurd hkn (not_lt.mpr h)

/-- `MDL.State`: copies of all members but the segment bound. -/
def state (mdl : MDL K) : MDLState K where
  stream := mdl.stream
  offset := mdl.offset
  vocab := mdl.vocab
  nextID := mdl.nextID
  dist := mdl.dist
  lastGain := mdl.lastGain

/-- `MDL.Restore`. -/
def restore (mdl : MDL K) (state : MDLState K) : MDL K :=
  { mdl with
    stream := state.stream
    offset := state.offset
    vocab := state.vocab
    nextID := if state.nextID = 0 then 1 else state.nextID
    dist := state.dist
    lastGain := state.lastGain }

omit [Field K] [LinearOrder K] in
/-- A segmenter is read back as it was, unless its ids have wrapped. -/
theorem restore_state {mdl fresh : MDL K} (hseg : fresh.minSegmentSymbols = mdl.minSegmentSymbols)
    (hid : mdl.nextID ≠ 0) : fresh.restore mdl.state = mdl := by
  unfold restore state
  rw [if_neg hid, hseg]

omit [Field K] [LinearOrder K] in
theorem minSegmentSymbols_intern (mdl : MDL K) (symbol : String) :
    (mdl.intern symbol).1.minSegmentSymbols = mdl.minSegmentSymbols := by
  unfold intern
  split <;> rfl

/-- The segment bound never changes. -/
@[simp] theorem minSegmentSymbols_analyze (mdl : MDL K) (symbol : String) :
    (mdl.analyze log symbol).1.minSegmentSymbols = mdl.minSegmentSymbols := by
  unfold analyze
  split
  · rfl
  · dsimp only
    split
    · exact minSegmentSymbols_intern mdl symbol
    · split <;> exact minSegmentSymbols_intern mdl symbol

end MDL

end Symm.Tokenizer
