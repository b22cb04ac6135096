import Mathlib.Logic.Function.Basic
import Symm.Lib.Machine
import Symm.Lib.Objects
import Symm.Tokenizer.Replay

/-!
# The grammars of the training (`strategy/training.go`, `tokenizer/catalog.go`)

The training keeps one sequencer for each symbol. After every step and every reset of
a sequencer its state is written to the object store, under a key in which the slash
of the pair is a dash; a new training reads all of them back.

The store is any key-value store, a write goes through or not, and the JSON of a state
is any encoding that can be read back. The tokens of a tick are given.

- `Training`, `Event`, `run`: a training over any symbols, with its restarts;
- `restart_restores`: what a new training reads from the store;
- `restart_resumes`: after a restart every symbol goes on as it would have.

The names of pairs have a slash and the keys have a dash, so two names that differ in
that alone share an object; a restart reads it back under the name with the slash.

`Recorded` is the invariant of a run: under the key of a symbol stands the state that
was written last, and every state that was written is that of a sequencer fed with
regions. `Alike` compares a run that went on with one that was restarted, symbol by
symbol, in view of the calls that are still to come.
-/

namespace Symm.Strategy

open Symm.Lib Symm.Tokenizer

universe u v

/-- `sonic.Marshal` and `data.AttributeOk` of a saved sequencer. -/
structure GrammarCodec (K : Type u) (Raw : Type v) where
  marshal : SequencerState K → Raw
  unmarshal : Raw → Option (SequencerState K)
  unmarshal_marshal : ∀ state, unmarshal (marshal state) = some state

/-! ## Object keys -/

def grammarSymbolDir : String := "model/grammar/symbol/"

/-- `strings.ReplaceAll` of one character by another. -/
def replaceAll (text : String) (old new : Char) : String :=
  String.ofList (text.toList.map fun c => if c = old then new else c)

/-- `GrammarCatalog.ObjectKey`. -/
def objectKey (symbol : String) : String :=
  grammarSymbolDir ++ replaceAll symbol '/' '-' ++ ".bin"

/-- `GrammarCatalog.Symbol`. -/
def keySymbol (key : String) : String :=
  replaceAll (trimSuffix (trimPrefix key grammarSymbolDir) ".bin") '-' '/'

/-! ## The training -/

/-- `Training`, with a record of the writes that went through, newest first. -/
structure Training (K : Type u) (Raw : Type v) where
  sequencers : String → Option (Sequencer K)
  client : Objects Raw
  writes : List (String × SequencerState K)

/-- What happens to a training. -/
inductive Event
  /-- A tick brings this token for the symbol, and the write goes through or not. -/
  | step (symbol token : String) (brightness : ℚ) (written : Bool)
  | reset (symbol : String) (written : Bool)
  /-- The process ends, and a new training starts from the store. -/
  | restart

/-- The token of a tick is a region name, or empty. -/
def Event.Regions : Event → Prop
  | .step _ token _ _ => token = "" ∨ Sequencer.Region token
  | .reset _ _ => True
  | .restart => True

/-- What an event writes goes through, under a name without a dash. -/
def Event.Kept : Event → Prop
  | .step symbol _ _ written => '-' ∉ symbol.toList ∧ written = true
  | .reset symbol written => '-' ∉ symbol.toList ∧ written = true
  | .restart => True

namespace Training

variable {K : Type u} {Raw : Type v} [Field K] [LinearOrder K] (log : K → K)
  (codec : GrammarCodec K Raw)

def put (training : Training K Raw) (symbol : String) (seq : Sequencer K) : Training K Raw :=
  { training with sequencers := Function.update training.sequencers symbol (some seq) }

omit [Field K] [LinearOrder K] in
@[simp] theorem put_self (training : Training K Raw) (symbol : String) (seq : Sequencer K) :
    (training.put symbol seq).sequencers symbol = some seq := Function.update_self _ _ _

omit [Field K] [LinearOrder K] in
theorem put_other (training : Training K Raw) {symbol other : String} (h : other ≠ symbol)
    (seq : Sequencer K) :
    (training.put symbol seq).sequencers other = training.sequencers other :=
  Function.update_of_ne h _ _

/-- `Training.persistSequencer` and `GrammarCatalog.Persist`; `none` stands for a
grammar that cannot be read. -/
def persistSequencer (training : Training K Raw) (symbol : String) (seq : Sequencer K)
    (written : Bool) : Option (Training K Raw) :=
  if symbol = "" then some training
  else seq.state.map fun state =>
    if written then
      { training with
        client := training.client.insert (objectKey symbol) (codec.marshal state)
        writes := (symbol, state) :: training.writes }
    else training

/-- `Training.Sequencer`: a new one where there is none. -/
def sequencer (training : Training K Raw) (symbol : String) : Sequencer K :=
  if symbol = "" then .new else (training.sequencers symbol).getD .new

/-- `Training.stepCut`, whose sequencer stays in the map. -/
def stepCut (training : Training K Raw) (maxPathLength : ℤ) (symbol token : String)
    (brightness : ℚ) (written : Bool) : Option (Training K Raw × Tokens) :=
  if token = "" then some (training, [])
  else ((training.sequencer symbol).step log maxPathLength token brightness).bind fun r =>
    ((if symbol = "" then training else training.put symbol r.1).persistSequencer codec symbol
      r.1 written).map fun training => (training, r.2)

/-- `Training.ResetSequencer`. -/
def resetSequencer (training : Training K Raw) (symbol : String) (written : Bool) :
    Option (Training K Raw) :=
  if symbol = "" then some training
  else match training.sequencers symbol with
    | none => some training
    | some seq => (training.put symbol seq.reset).persistSequencer codec symbol seq.reset written

/-- `Training.restoreSequencer`. -/
def restoreSequencer (training : Training K Raw) (symbol : String) (state : SequencerState K) :
    Training K Raw :=
  if symbol = "" then training else training.put symbol (Sequencer.new.restore state)

/-- One object of `RestoreCatalog`: what is no `.bin` and what does not decode is left
out. -/
def restoreObject (training : Training K Raw) (key : String) : Training K Raw :=
  if Ends ".bin" key then
    match (training.client.lookup key).bind codec.unmarshal with
    | none => training
    | some state => training.restoreSequencer (keySymbol key) state
  else training

/-- `NewTraining` on this store, with the record of the writes to it. -/
def new (client : Objects Raw) (writes : List (String × SequencerState K)) : Training K Raw :=
  (client.list grammarSymbolDir).foldl (restoreObject codec) ⟨fun _ => none, client, writes⟩

/-- The training after an event, and the cut of the tick. `Training.Step` leaves out
the empty symbol and the aggregate. -/
def event (maxPathLength : ℤ) (training : Training K Raw) :
    Event → Option (Training K Raw × Option Tokens)
  | .step symbol token brightness written =>
    if symbol = "" ∨ symbol = "aggregate" then some (training, none)
    else (training.stepCut log codec maxPathLength symbol token brightness written).map
      fun r => (r.1, some r.2)
  | .reset symbol written =>
    (training.resetSequencer codec symbol written).map fun training => (training, none)
  | .restart => some (new codec training.client training.writes, none)

/-- A run: the training after it, and the cuts. -/
def run (maxPathLength : ℤ) : Training K Raw → List Event →
    Option (Training K Raw × List (Option Tokens))
  | training, [] => some (training, [])
  | training, e :: rest => (training.event log codec maxPathLength e).bind fun r =>
      (run maxPathLength r.1 rest).map fun last => (last.1, r.2 :: last.2)

end Training

/-! ## Keys and names -/

/-- The name that a symbol has after a restart. -/
def slashed (symbol : String) : String := replaceAll symbol '-' '/'

theorem toList_replaceAll (text : String) (old new : Char) :
    (replaceAll text old new).toList = text.toList.map fun c => if c = old then new else c :=
  String.toList_ofList

/-- A key gives back its symbol with slashes for dashes. -/
theorem keySymbol_objectKey (symbol : String) : keySymbol (objectKey symbol) = slashed symbol := by
  unfold keySymbol objectKey
  rw [String.append_assoc, trimPrefix_append, trimSuffix_append]
  apply String.toList_inj.mp
  rw [slashed, toList_replaceAll, toList_replaceAll, toList_replaceAll, List.map_map]
  refine List.map_congr_left fun c _ => ?_
  show (if (if c = '/' then '-' else c) = '-' then '/' else (if c = '/' then '-' else c)) =
    if c = '-' then '/' else c
  by_cases hc : c = '/'
  · subst hc
    rfl
  · rw [if_neg hc]

/-- A name without a dash is its own after a restart. -/
theorem slashed_eq_self_iff (symbol : String) : slashed symbol = symbol ↔ '-' ∉ symbol.toList := by
  unfold slashed
  rw [← String.toList_inj, toList_replaceAll]
  constructor
  · intro h hmem
    rw [← h] at hmem
    obtain ⟨c, -, hc⟩ := List.mem_map.mp hmem
    split at hc
    · cases hc
    · rename_i hne
      exact hne hc
  · intro h
    refine (List.map_congr_left fun c hc => ?_).trans (List.map_id _)
    refine if_neg fun heq => h ?_
    rwa [← heq]

/-- The dashes of a name stand where it has dashes or slashes. -/
theorem objectKey_slashed (symbol : String) : objectKey (slashed symbol) = objectKey symbol := by
  unfold objectKey slashed
  congr 2
  apply String.toList_inj.mp
  rw [toList_replaceAll, toList_replaceAll, toList_replaceAll, List.map_map]
  refine List.map_congr_left fun c _ => ?_
  show (if (if c = '-' then '/' else c) = '/' then '-' else (if c = '-' then '/' else c)) =
    if c = '/' then '-' else c
  by_cases hc : c = '-'
  · subst hc
    rfl
  · rw [if_neg hc]

/-- Two symbols share an object where they share the name after a restart. -/
theorem objectKey_inj {a b : String} : objectKey a = objectKey b ↔ slashed a = slashed b := by
  constructor
  · intro h
    rw [← keySymbol_objectKey, h, keySymbol_objectKey]
  · intro h
    rw [← objectKey_slashed a, h, objectKey_slashed]

theorem slashed_slashed (symbol : String) : slashed (slashed symbol) = slashed symbol :=
  objectKey_inj.mp (objectKey_slashed symbol)

theorem slashed_ne_empty {symbol : String} (h : symbol ≠ "") : slashed symbol ≠ "" := by
  intro hempty
  apply h
  have hlength := congrArg (fun text : String => text.toList.length) hempty
  rw [slashed, toList_replaceAll, List.length_map] at hlength
  exact String.toList_inj.mp (List.eq_nil_of_length_eq_zero hlength)

theorem starts_objectKey (symbol : String) : Starts grammarSymbolDir (objectKey symbol) := by
  unfold objectKey
  rw [String.append_assoc]
  exact starts_append _ _

theorem ends_objectKey (symbol : String) : Ends ".bin" (objectKey symbol) := by
  unfold objectKey Ends
  rw [String.toList_append]
  exact List.suffix_append _ _

/-! ## Saved sequencers -/

namespace Training

section Saved

variable {K : Type u} [Field K] [LinearOrder K]

omit [Field K] [LinearOrder K] in
/-- The state of a fed sequencer can be read. -/
theorem exists_saved {seq : Sequencer K} (h : Sequencer.Fed Sequencer.Region seq) :
    ∃ state, seq.state = some state := by
  obtain ⟨l, ts, hinv, -⟩ := h.inv
  obtain ⟨views, l', hviews, -⟩ := hinv.rebuilt fun t ht => ht
  exact ⟨_, congrArg (Option.map _) hviews⟩

omit [LinearOrder K] in
/-- A sequencer that takes over from the state of a fed one is as good as fed. -/
theorem fed_restore {seq : Sequencer K} (h : Sequencer.Fed Sequencer.Region seq)
    {state : SequencerState K} (hstate : seq.state = some state) :
    Sequencer.Fed Sequencer.Region (Sequencer.new.restore state) := by
  obtain ⟨l, ts, hinv, -⟩ := h.inv
  obtain ⟨views, hviews, rfl⟩ := Option.map_eq_some_iff.mp hstate
  have hagree : Sequitur.Agree Sequitur.new seq.grammar := by
    intro id body body' hbody
    cases hbody
  obtain ⟨⟨l', hrestored⟩, -⟩ := Sequitur.Inv.restored (fun t ht => ht)
    (Sequitur.inv_new _) Sequitur.numbered_new hinv hagree hviews
  exact ⟨⟨l', ts, hrestored, fun hbreak => absurd hbreak Bool.false_ne_true⟩, rfl⟩

end Saved

/-! ## The record of the writes -/

variable {K : Type u} {Raw : Type v} [Field K] [LinearOrder K] {codec : GrammarCodec K Raw}

/-- The last write under the key of this symbol. -/
def lastWrite (writes : List (String × SequencerState K)) (symbol : String) :
    Option (SequencerState K) :=
  (writes.find? fun w => slashed w.1 = slashed symbol).map Prod.snd

/-- The store holds the last write under each key, and what was written can be taken
over. -/
structure Recorded (codec : GrammarCodec K Raw) (training : Training K Raw) : Prop where
  lookup : ∀ symbol, training.client.lookup (objectKey symbol) =
    (lastWrite training.writes symbol).map codec.marshal
  keys : ∀ key ∈ training.client, Starts grammarSymbolDir key →
    ∃ w ∈ training.writes, key = objectKey w.1
  named : ∀ w ∈ training.writes, w.1 ≠ ""
  saved : ∀ w ∈ training.writes, ∃ seq : Sequencer K,
    Sequencer.Fed Sequencer.Region seq ∧ seq.state = some w.2
  fed : ∀ symbol seq, training.sequencers symbol = some seq →
    Sequencer.Fed Sequencer.Region seq

omit [Field K] [LinearOrder K] in
/-- Names that are one after a restart share their last write. -/
theorem lastWrite_congr {writes : List (String × SequencerState K)} {a b : String}
    (h : slashed a = slashed b) : lastWrite writes a = lastWrite writes b := by
  unfold lastWrite
  rw [h]

omit [Field K] [LinearOrder K] in
/-- A written symbol has a last write, which is a write. -/
theorem exists_lastWrite {writes : List (String × SequencerState K)}
    {w : String × SequencerState K} (hw : w ∈ writes) :
    ∃ state, lastWrite writes w.1 = some state := by
  have hfound : (writes.find? fun w' => slashed w'.1 = slashed w.1).isSome := by
    rw [List.find?_isSome]
    exact ⟨w, hw, decide_eq_true rfl⟩
  obtain ⟨w', hw'⟩ := Option.isSome_iff_exists.mp hfound
  exact ⟨w'.2, by rw [lastWrite, hw']; rfl⟩

omit [Field K] [LinearOrder K] in
/-- The last write is one of the writes. -/
theorem mem_of_lastWrite {writes : List (String × SequencerState K)} {symbol : String}
    {state : SequencerState K} (h : lastWrite writes symbol = some state) :
    ∃ w ∈ writes, w.2 = state := by
  obtain ⟨w, hw, rfl⟩ := Option.map_eq_some_iff.mp h
  exact ⟨w, List.mem_of_find?_eq_some hw, rfl⟩

section Restored

variable {client : Objects Raw} {writes : List (String × SequencerState K)}

omit [LinearOrder K] in
/-- The object of a written symbol gives a sequencer to its name. -/
theorem restoreObject_written
    (hlookup : ∀ symbol, client.lookup (objectKey symbol) =
      (lastWrite writes symbol).map codec.marshal)
    {training : Training K Raw} (hclient : training.client = client)
    {w : String × SequencerState K} (hw : w ∈ writes) (hne : w.1 ≠ "") :
    ∃ state, lastWrite writes w.1 = some state ∧
      training.restoreObject codec (objectKey w.1) =
        training.put (slashed w.1) (Sequencer.new.restore state) := by
  obtain ⟨state, hstate⟩ := exists_lastWrite hw
  refine ⟨state, hstate, ?_⟩
  unfold restoreObject
  rw [if_pos (ends_objectKey _), hclient, hlookup, hstate, Option.map_some, Option.bind_some,
    codec.unmarshal_marshal, keySymbol_objectKey]
  show training.restoreSequencer (slashed w.1) state = _
  unfold restoreSequencer
  rw [if_neg (slashed_ne_empty hne)]

omit [LinearOrder K] in
/-- Reading back objects under keys of written symbols. -/
theorem restoreObjects
    (hlookup : ∀ symbol, client.lookup (objectKey symbol) =
      (lastWrite writes symbol).map codec.marshal)
    (hnamed : ∀ w ∈ writes, w.1 ≠ "") (symbol : String) :
    ∀ (keys : List String) (training : Training K Raw), training.client = client →
      (∀ key ∈ keys, ∃ w ∈ writes, key = objectKey w.1) →
      (keys.foldl (restoreObject codec) training).sequencers symbol =
        if slashed symbol = symbol ∧ objectKey symbol ∈ keys then
          (lastWrite writes symbol).map Sequencer.new.restore
        else training.sequencers symbol
  | [], _, _, _ => by rw [if_neg fun h => absurd h.2 List.not_mem_nil]; rfl
  | key :: keys, training, hclient, hkeys => by
    obtain ⟨w, hw, rfl⟩ := hkeys key List.mem_cons_self
    obtain ⟨state, hstate, hobject⟩ :=
      restoreObject_written hlookup hclient hw (hnamed w hw)
    rw [List.foldl_cons, hobject]
    rw [restoreObjects hlookup hnamed symbol keys (training.put _ _) hclient
      fun key hkey => hkeys key (List.mem_cons_of_mem _ hkey)]
    -- the objects are read in the order of their keys; two with one name hold one grammar
    by_cases hname : symbol = slashed w.1
    · have hself : slashed symbol = symbol := by rw [hname, slashed_slashed]
      have hkey : objectKey symbol = objectKey w.1 := by rw [hname, objectKey_slashed]
      have hlast : lastWrite writes symbol = some state := by
        rw [← hstate]
        exact lastWrite_congr (hself.trans hname)
      have hput : (training.put (slashed w.1) (Sequencer.new.restore state)).sequencers symbol =
          some (Sequencer.new.restore state) := by
        rw [hname, put_self]
      have hlisted : objectKey symbol ∈ objectKey w.1 :: keys := by
        rw [hkey]
        exact List.mem_cons_self
      -- a later object of the same name would put the same grammar
      rw [hput, hlast, Option.map_some, ite_self, if_pos ⟨hself, hlisted⟩]
    · rw [put_other training hname]
      refine if_congr (and_congr_right fun hself => ?_) rfl rfl
      rw [List.mem_cons]
      refine (or_iff_right fun hkey => hname ?_).symm
      rw [← hself]
      exact objectKey_inj.mp hkey

omit [LinearOrder K] in
/-- An object gives a sequencer to a symbol, or is left out. -/
theorem restoreObject_cases (codec : GrammarCodec K Raw) (training : Training K Raw)
    (key : String) :
    training.restoreObject codec key = training ∨
      ∃ symbol seq, training.restoreObject codec key = training.put symbol seq := by
  unfold restoreObject
  split
  · split
    · exact .inl rfl
    · rename_i state _
      unfold restoreSequencer
      split
      · exact .inl rfl
      · exact .inr ⟨keySymbol key, Sequencer.new.restore state, rfl⟩
  · exact .inl rfl

omit [LinearOrder K] in
/-- A restart keeps the store. -/
theorem client_new (codec : GrammarCodec K Raw) (client : Objects Raw)
    (writes : List (String × SequencerState K)) :
    (new codec client writes).client = client ∧ (new codec client writes).writes = writes := by
  have hfold : ∀ (keys : List String) (training : Training K Raw),
      (keys.foldl (restoreObject codec) training).client = training.client ∧
        (keys.foldl (restoreObject codec) training).writes = training.writes := by
    intro keys
    induction keys with
    | nil => exact fun _ => ⟨rfl, rfl⟩
    | cons key keys ih =>
      intro training
      have hobject : (training.restoreObject codec key).client = training.client ∧
          (training.restoreObject codec key).writes = training.writes := by
        rcases restoreObject_cases codec training key with h | ⟨symbol, seq, h⟩
        · rw [h]
          exact ⟨rfl, rfl⟩
        · rw [h]
          exact ⟨rfl, rfl⟩
      rw [List.foldl_cons, (ih _).1, (ih _).2]
      exact hobject
  exact hfold _ _

end Restored

variable {training : Training K Raw}

omit [LinearOrder K] in
/-- A new training has, under the names without a dash, the last write of each. -/
theorem Recorded.sequencers_new (h : Recorded codec training) (symbol : String) :
    (new codec training.client training.writes).sequencers symbol =
      if '-' ∈ symbol.toList then none
      else (lastWrite training.writes symbol).map Sequencer.new.restore := by
  have hkeys : ∀ key ∈ training.client.list grammarSymbolDir,
      ∃ w ∈ training.writes, key = objectKey w.1 := by
    intro key hkey
    obtain ⟨hsome, hstarts⟩ := Objects.mem_list.mp hkey
    exact h.keys key (AList.lookup_isSome.mp hsome) hstarts
  have hlisted : objectKey symbol ∈ training.client.list grammarSymbolDir ↔
      (lastWrite training.writes symbol).isSome := by
    rw [Objects.mem_list, h.lookup, Option.isSome_map]
    exact and_iff_left (starts_objectKey symbol)
  have hread := restoreObjects h.lookup h.named symbol _
    ⟨fun _ => none, training.client, training.writes⟩ rfl hkeys
  unfold new
  rw [hread]
  by_cases hdash : '-' ∈ symbol.toList
  · rw [if_pos hdash, if_neg fun hc => (slashed_eq_self_iff symbol).mp hc.1 hdash]
  · rw [if_neg hdash]
    by_cases hwritten : (lastWrite training.writes symbol).isSome
    · rw [if_pos ⟨(slashed_eq_self_iff symbol).mpr hdash, hlisted.mpr hwritten⟩]
    · rw [if_neg fun hc => hwritten (hlisted.mp hc.2), Option.not_isSome_iff_eq_none.mp hwritten]
      rfl

/-! ## What an event keeps -/

section Events

omit [Field K] [LinearOrder K] in
/-- Putting in a fed sequencer keeps the record. -/
theorem Recorded.put (h : Recorded codec training) (symbol : String) {seq : Sequencer K}
    (hfed : Sequencer.Fed Sequencer.Region seq) : Recorded codec (training.put symbol seq) := by
  refine ⟨h.lookup, h.keys, h.named, h.saved, fun other seq' hseq => ?_⟩
  by_cases hother : other = symbol
  · rw [hother, put_self] at hseq
    cases hseq
    exact hfed
  · rw [put_other training hother] at hseq
    exact h.fed other seq' hseq

omit [Field K] [LinearOrder K] in
/-- A write replaces the last one under its key, and no other. -/
theorem Recorded.write (h : Recorded codec training) {symbol : String} (hne : symbol ≠ "")
    {seq : Sequencer K} (hfed : Sequencer.Fed Sequencer.Region seq) {state : SequencerState K}
    (hstate : seq.state = some state) :
    Recorded codec { training with
      client := training.client.insert (objectKey symbol) (codec.marshal state)
      writes := (symbol, state) :: training.writes } := by
  refine ⟨fun other => ?_, fun key hkey hstarts => ?_, fun w hw => ?_, fun w hw => ?_, h.fed⟩
  · show (training.client.insert _ _).lookup _ = (lastWrite ((symbol, state) :: _) other).map _
    unfold lastWrite
    by_cases hsame : slashed symbol = slashed other
    · rw [List.find?_cons_of_pos (by simpa using hsame), ← objectKey_inj.mpr hsame,
        AList.lookup_insert]
      rfl
    · rw [List.find?_cons_of_neg (by simpa using hsame),
        AList.lookup_insert_ne fun hkey => hsame (objectKey_inj.mp hkey).symm]
      exact h.lookup other
  · rcases (AList.mem_insert training.client).mp hkey with rfl | hkey
    · exact ⟨(symbol, state), List.mem_cons_self, rfl⟩
    · obtain ⟨w, hw, rfl⟩ := h.keys key hkey hstarts
      exact ⟨w, List.mem_cons_of_mem _ hw, rfl⟩
  · rcases List.mem_cons.mp hw with rfl | hw
    · exact hne
    · exact h.named w hw
  · rcases List.mem_cons.mp hw with rfl | hw
    · exact ⟨seq, hfed, hstate⟩
    · exact h.saved w hw

omit [Field K] [LinearOrder K] in
/-- A fed sequencer is persisted, or its write fails. -/
theorem Recorded.persist (h : Recorded codec training) {symbol : String} (hne : symbol ≠ "")
    {seq : Sequencer K} (hfed : Sequencer.Fed Sequencer.Region seq) (written : Bool) :
    ∃ state training', seq.state = some state ∧
      training.persistSequencer codec symbol seq written = some training' ∧
      Recorded codec training' ∧ training'.sequencers = training.sequencers ∧
      (written = true → training'.writes = (symbol, state) :: training.writes) := by
  obtain ⟨state, hstate⟩ := exists_saved hfed
  unfold persistSequencer
  rw [if_neg hne, hstate, Option.map_some]
  cases written with
  | false => exact ⟨state, training, rfl, rfl, h, rfl, nofun⟩
  | true => exact ⟨state, _, rfl, rfl, h.write hne hfed hstate, rfl, fun _ => rfl⟩

omit [LinearOrder K] in
/-- A restart keeps the record, since every state in the store can be taken over. -/
theorem Recorded.restarted (h : Recorded codec training) :
    Recorded codec (new codec training.client training.writes) := by
  obtain ⟨hclient, hwrites⟩ := client_new codec training.client training.writes
  refine ⟨?_, ?_, ?_, ?_, fun symbol seq hseq => ?_⟩
  · rw [hclient, hwrites]
    exact h.lookup
  · rw [hclient, hwrites]
    exact h.keys
  · rw [hwrites]
    exact h.named
  · rw [hwrites]
    exact h.saved
  · rw [h.sequencers_new] at hseq
    split at hseq
    · cases hseq
    · obtain ⟨state, hstate, rfl⟩ := Option.map_eq_some_iff.mp hseq
      obtain ⟨w, hw, rfl⟩ := mem_of_lastWrite hstate
      obtain ⟨saved, hfed, hsaved⟩ := h.saved w hw
      exact fed_restore hfed hsaved

variable (log : K → K) (maxPathLength : ℤ)

omit [LinearOrder K] in
/-- The sequencer of a symbol is fed, or new. -/
theorem Recorded.fed_getD (h : Recorded codec training) (symbol : String) :
    Sequencer.Fed Sequencer.Region ((training.sequencers symbol).getD .new) := by
  cases hseq : training.sequencers symbol with
  | none => exact .new _
  | some seq => exact h.fed symbol seq hseq

theorem region_ok (token : String) (h : Sequencer.Region token) : token ≠ "" ∧ Plain token :=
  ⟨h.1, h.2.1⟩

/-- A token goes through the sequencer of its symbol, which is then persisted. -/
theorem stepCut_eq {symbol token : String} (hsymbol : symbol ≠ "") (htoken : token ≠ "")
    (brightness : ℚ) (written : Bool) :
    training.stepCut log codec maxPathLength symbol token brightness written =
      (((training.sequencers symbol).getD .new).step log maxPathLength token brightness).bind
        fun r => ((training.put symbol r.1).persistSequencer codec symbol r.1 written).map
          fun training => (training, r.2) := by
  unfold stepCut sequencer
  rw [if_neg htoken, if_neg hsymbol]
  refine congrArg (Option.bind _) (funext fun r => ?_)
  rw [if_neg hsymbol]

/-- What a tick with a token does: the sequencer of its symbol goes one step further and
is persisted, and no other is touched. -/
theorem Recorded.stepped (h : Recorded codec training) {symbol token : String}
    (hne : symbol ≠ "") (htoken : Sequencer.Region token) (brightness : ℚ) (written : Bool) :
    ∃ seq tokens state training',
      ((training.sequencers symbol).getD .new).step log maxPathLength token brightness =
        some (seq, tokens) ∧
      seq.state = some state ∧
      training.stepCut log codec maxPathLength symbol token brightness written =
        some (training', tokens) ∧
      Recorded codec training' ∧ training'.sequencers = (training.put symbol seq).sequencers ∧
      (written = true → training'.writes = (symbol, state) :: training.writes) := by
  -- a region is a token that the sequencer can step over
  have hregion : ∀ t ∈ [token], t ≠ "" → Sequencer.Region t := by
    intro t ht _
    rwa [List.mem_singleton.mp ht]
  obtain ⟨r, hstep, hfed⟩ := (h.fed_getD symbol).stepPath log region_ok maxPathLength hregion
    brightness
  obtain ⟨state, training', hstate, hpersist, hrecorded, hsequencers, hwrites⟩ :=
    (h.put symbol hfed).persist hne hfed written
  refine ⟨r.1, r.2, state, training', hstep, hstate, ?_, hrecorded, hsequencers, hwrites⟩
  rw [stepCut_eq log maxPathLength hne htoken.1, Sequencer.step, hstep, Option.bind_some, hpersist]
  rfl

/-- Every event returns, and keeps the record of the writes. -/
theorem Recorded.event (h : Recorded codec training) {e : Event} (he : e.Regions) :
    ∃ r, training.event log codec maxPathLength e = some r ∧ Recorded codec r.1 := by
  cases e with
  | step symbol token brightness written =>
    show ∃ r, (if symbol = "" ∨ symbol = "aggregate" then some (training, none)
      else (training.stepCut log codec maxPathLength symbol token brightness written).map
        fun r => (r.1, some r.2)) = some r ∧ _
    -- steps of the aggregate, and without a symbol, are turned away
    split
    · exact ⟨_, rfl, h⟩
    · rename_i hsymbol
      obtain ⟨hne, -⟩ := not_or.mp hsymbol
      by_cases htoken : token = ""
      · unfold stepCut
        rw [if_pos htoken]
        exact ⟨_, rfl, h⟩
      · obtain ⟨_, _, _, training', -, -, hcut, hrecorded, -⟩ :=
          h.stepped log maxPathLength hne (he.resolve_left htoken) brightness written
        rw [hcut]
        exact ⟨_, rfl, hrecorded⟩
  | reset symbol written =>
    show ∃ r, (training.resetSequencer codec symbol written).map
      (fun training => (training, none)) = some r ∧ _
    unfold resetSequencer
    split
    · exact ⟨_, rfl, h⟩
    · rename_i hne
      split
      · exact ⟨_, rfl, h⟩
      · rename_i seq hseq
        have hfed := (h.fed symbol seq hseq).reset
        obtain ⟨state, training', -, hpersist, hrecorded, -⟩ :=
          (h.put symbol hfed).persist hne hfed written
        rw [hpersist]
        exact ⟨_, rfl, hrecorded⟩
  | restart => exact ⟨_, rfl, h.restarted⟩

/-- Every run returns, and keeps the record of the writes. -/
theorem Recorded.run (h : Recorded codec training) {events : List Event}
    (hevents : ∀ e ∈ events, e.Regions) :
    ∃ r, training.run log codec maxPathLength events = some r ∧ Recorded codec r.1 := by
  induction events generalizing training with
  | nil => exact ⟨_, rfl, h⟩
  | cons e events ih =>
    obtain ⟨r, hr, hrecorded⟩ := h.event log maxPathLength (hevents e List.mem_cons_self)
    obtain ⟨last, hlast, hlastRecorded⟩ := ih hrecorded fun e' he' =>
      hevents e' (List.mem_cons_of_mem _ he')
    refine ⟨(last.1, r.2 :: last.2), ?_, hlastRecorded⟩
    rw [Training.run, hr, Option.bind_some, hlast]
    rfl

omit [LinearOrder K] in
/-- A store without grammars. -/
theorem recorded_new {client : Objects Raw} (hempty : client.list grammarSymbolDir = []) :
    Recorded codec (new codec client []) := by
  have hnew : new codec client [] = (⟨fun _ => none, client, []⟩ : Training K Raw) := by
    unfold new
    rw [hempty]
    rfl
  have hnone : ∀ key, Starts grammarSymbolDir key → key ∉ client := by
    intro key hstarts hkey
    have hlisted : key ∈ client.list grammarSymbolDir :=
      Objects.mem_list.mpr ⟨AList.lookup_isSome.mpr hkey, hstarts⟩
    rw [hempty] at hlisted
    cases hlisted
  rw [hnew]
  refine ⟨fun symbol => ?_, fun key hkey hstarts => absurd hkey (hnone key hstarts), nofun,
    nofun, nofun⟩
  exact AList.lookup_eq_none.mpr (hnone _ (starts_objectKey symbol))

/-- Every run over any symbols, with failed writes and restarts, returns, and a
training that starts from its store has, under each name without a dash, a sequencer
made of the last state written for the symbols that read alike with slashes for dashes,
and none under any other name. -/
theorem restart_restores (codec : GrammarCodec K Raw) {client : Objects Raw}
    (hempty : client.list grammarSymbolDir = []) (events : List Event)
    (hevents : ∀ e ∈ events, e.Regions) :
    ∃ r, (new codec client []).run log codec maxPathLength events = some r ∧
      ∀ symbol, (new codec r.1.client r.1.writes).sequencers symbol =
        if '-' ∈ symbol.toList then none
        else (r.1.writes.find? fun w => slashed w.1 = symbol).map fun w =>
          Sequencer.new.restore w.2 := by
  obtain ⟨r, hr, hrecorded⟩ := (recorded_new hempty).run log maxPathLength hevents
  refine ⟨r, hr, fun symbol => ?_⟩
  rw [hrecorded.sequencers_new]
  by_cases hdash : '-' ∈ symbol.toList
  · rw [if_pos hdash, if_pos hdash]
  · rw [if_neg hdash, if_neg hdash, lastWrite, (slashed_eq_self_iff symbol).mpr hdash,
      Option.map_map]
    rfl

end Events

/-! ## Going on after a restart -/

section Resumed

variable (log : K → K) (maxPathLength : ℤ)

/-- The call that an event makes on the sequencer of a symbol. -/
def callOf (maxPathLength : ℤ) (symbol : String) : Event → Option Sequencer.Call
  | .step s token brightness _ =>
    if s = symbol ∧ ¬ (s = "" ∨ s = "aggregate") ∧ token ≠ "" then
      some (.step maxPathLength token brightness)
    else none
  | .reset s _ => if s = symbol ∧ s ≠ "" then some .reset else none
  | .restart => none

/-- The calls that events make on the sequencer of a symbol. -/
def callsOf (maxPathLength : ℤ) (symbol : String) (events : List Event) :
    List Sequencer.Call :=
  events.filterMap (callOf maxPathLength symbol)

/-- A tick of a symbol that is not passed over gives the cut of its call. -/
theorem event_step {symbol : String} (hsymbol : ¬ (symbol = "" ∨ symbol = "aggregate"))
    {token : String} {brightness : ℚ} {written : Bool} {r : Training K Raw × Tokens}
    (hcut : training.stepCut log codec maxPathLength symbol token brightness written = some r) :
    training.event log codec maxPathLength (.step symbol token brightness written) =
      some (r.1, some r.2) := by
  unfold event
  dsimp only
  rw [if_neg hsymbol, hcut, Option.map_some]

/-- In a run of ticks every sequencer goes through the calls of its own symbol, and a
symbol without a call keeps what it had. -/
theorem Recorded.own_calls (h : Recorded codec training) {events : List Event}
    (hticks : ∀ e ∈ events, ∃ symbol token brightness written,
      e = .step symbol token brightness written ∧ ¬ (symbol = "" ∨ symbol = "aggregate") ∧
        Sequencer.Region token)
    {r : Training K Raw × List (Option Tokens)}
    (hr : training.run log codec maxPathLength events = some r) (symbol : String) :
    ∃ last, ((training.sequencers symbol).getD .new).run log
        (callsOf maxPathLength symbol events) = some last ∧
      r.1.sequencers symbol = if callsOf maxPathLength symbol events = [] then
        training.sequencers symbol else some last.1 := by
  induction events generalizing training r with
  | nil =>
    cases hr
    exact ⟨_, rfl, rfl⟩
  | cons e events ih =>
    obtain ⟨name, token, brightness, written, rfl, hname, htoken⟩ :=
      hticks e List.mem_cons_self
    obtain ⟨seq, tokens, -, next, hstep, -, hcut, hnext, hkept, -⟩ :=
      h.stepped log maxPathLength (not_or.mp hname).1 htoken brightness written
    rw [Training.run, event_step log maxPathLength hname hcut, Option.bind_some] at hr
    obtain ⟨q, hq, rfl⟩ := Option.map_eq_some_iff.mp hr
    obtain ⟨last, hlast, hafter⟩ := ih hnext
      (fun e' he' => hticks e' (List.mem_cons_of_mem _ he')) hq
    by_cases hsymbol : name = symbol
    · subst hsymbol
      -- its own tick: the sequencer that goes on is the one after the step
      have hcall : callOf maxPathLength name (.step name token brightness written) =
          some (.step maxPathLength token brightness) := if_pos ⟨rfl, hname, htoken.1⟩
      have hcalls : callsOf maxPathLength name (.step name token brightness written :: events) =
          .step maxPathLength token brightness :: callsOf maxPathLength name events :=
        List.filterMap_cons_some hcall
      rw [hkept, put_self] at hlast hafter
      rw [hcalls, Sequencer.run, Sequencer.call, hstep]
      refine ⟨(last.1, some tokens :: last.2), ?_, ?_⟩
      · show ((seq.run log _).map _) = _
        rw [show seq.run log _ = some last from hlast]
        rfl
      · rw [if_neg (List.cons_ne_nil _ _), hafter]
        split
        · rename_i hnil
          rw [hnil] at hlast
          cases hlast
          rfl
        · rfl
    · have hcalls : callsOf maxPathLength symbol (.step name token brightness written :: events) =
          callsOf maxPathLength symbol events :=
        List.filterMap_cons_none (if_neg fun hc => hsymbol hc.1)
      rw [hkept, put_other training (Ne.symm hsymbol)] at hlast hafter
      rw [hcalls]
      exact ⟨last, hlast, hafter⟩

/-- The second sequencer answers these calls as the first does. -/
def Resumes (calls : List Sequencer.Call) (seq seq' : Sequencer K) : Prop :=
  seq = seq' ∨ Sequencer.Same seq seq' ∨ Sequencer.Blurred seq seq' ∧
    ∀ c ∈ calls.takeWhile fun c => !c.isReset, Sequencer.Passive seq c

omit [Field K] [LinearOrder K] in
/-- A reset, after which nothing of what was lost matters. -/
theorem Resumes.reset {calls : List Sequencer.Call} {seq seq' : Sequencer K}
    (h : Resumes calls seq seq') (rest : List Sequencer.Call) :
    Resumes rest seq.reset seq'.reset := by
  rcases h with rfl | h | ⟨h, -⟩
  · exact .inl rfl
  · exact .inr (.inl h.reset)
  · exact .inr (.inl h.reset)

/-- One call: the same answer, and the rest of the calls go on alike. -/
theorem Resumes.call {c : Sequencer.Call} {calls : List Sequencer.Call}
    {seq seq' : Sequencer K} (h : Resumes (c :: calls) seq seq') :
    Option.Rel (fun a b => Resumes calls a.1 b.1 ∧ a.2 = b.2) (seq.call log c)
      (seq'.call log c) := by
  have hsame : ∀ {seq seq' : Sequencer K}, Sequencer.Same seq seq' →
      Option.Rel (fun a b => Resumes calls a.1 b.1 ∧ a.2 = b.2) (seq.call log c)
        (seq'.call log c) := by
    intro seq seq' hsame
    have hcall := hsame.call log c
    generalize seq.call log c = r, seq'.call log c = r' at hcall
    cases hcall with
    | none => exact .none
    | some hab => exact .some ⟨.inr (.inl hab.1), hab.2⟩
  rcases h with rfl | h | ⟨hblurred, hpassive⟩
  · cases seq.call log c with
    | none => exact .none
    | some r => exact .some ⟨.inl rfl, rfl⟩
  · exact hsame h
  · cases hc : c.isReset with
    -- a reset forgets what the restart lost
    | true =>
      cases c with
      | step => cases hc
      | stepPath => cases hc
      | reset => exact .some ⟨.inr (.inl hblurred.reset), rfl⟩
    -- until then the calls do not look at it
    | false =>
      have htake : (c :: calls).takeWhile (fun c => !c.isReset) =
          c :: calls.takeWhile fun c => !c.isReset := by
        rw [List.takeWhile_cons, hc]
        rfl
      rw [htake] at hpassive
      obtain ⟨out, hout, hout'⟩ :=
        hblurred.call_passive log hc (hpassive c List.mem_cons_self)
      rw [hout, hout']
      exact .some ⟨.inr (.inr ⟨hblurred, fun c' hc' =>
        hpassive c' (List.mem_cons_of_mem _ hc')⟩), rfl⟩

/-- The second training answers these events as the first does. -/
def Alike (events : List Event) (training training' : Training K Raw) : Prop :=
  ∀ symbol, Option.Rel (Resumes (callsOf maxPathLength symbol events))
    (training.sequencers symbol) (training'.sequencers symbol)

variable {training' : Training K Raw} {e : Event} {events : List Event}

omit [Field K] [LinearOrder K] in
/-- An event that makes no call. -/
theorem Alike.skip (h : Alike maxPathLength (e :: events) training training')
    (he : ∀ symbol, callOf maxPathLength symbol e = none) :
    Alike maxPathLength events training training' := by
  intro symbol
  have hcalls : callsOf maxPathLength symbol (e :: events) =
      callsOf maxPathLength symbol events := List.filterMap_cons_none (he symbol)
  rw [← hcalls]
  exact h symbol

omit [Field K] [LinearOrder K] in
/-- An event that makes one call, on the sequencer of one symbol. -/
theorem Alike.put (h : Alike maxPathLength (e :: events) training training') {symbol : String}
    (he : ∀ other, other ≠ symbol → callOf maxPathLength other e = none)
    {seq seq' : Sequencer K} (hseq : Resumes (callsOf maxPathLength symbol events) seq seq') :
    Alike maxPathLength events (training.put symbol seq) (training'.put symbol seq') := by
  intro other
  by_cases hother : other = symbol
  · rw [hother, put_self, put_self]
    exact .some hseq
  · have hcalls : callsOf maxPathLength other (e :: events) =
        callsOf maxPathLength other events := List.filterMap_cons_none (he other hother)
    rw [put_other training hother, put_other training' hother, ← hcalls]
    exact h other

omit [LinearOrder K] in
/-- The sequencers of a symbol, new ones where there are none. -/
theorem Alike.getD (h : Alike maxPathLength (e :: events) training training') {symbol : String}
    {c : Sequencer.Call} (he : callOf maxPathLength symbol e = some c) :
    Resumes (c :: callsOf maxPathLength symbol events)
      ((training.sequencers symbol).getD .new) ((training'.sequencers symbol).getD .new) := by
  have hcalls : callsOf maxPathLength symbol (e :: events) =
      c :: callsOf maxPathLength symbol events := List.filterMap_cons_some he
  have hseq := h symbol
  rw [hcalls] at hseq
  generalize training.sequencers symbol = seq, training'.sequencers symbol = seq' at hseq
  cases hseq with
  | none => exact .inl rfl
  | some hseq => exact hseq

/-- A token that goes through the sequencers of its symbol. -/
theorem Alike.step (h : Recorded codec training) (h' : Recorded codec training')
    {symbol token : String} {brightness : ℚ} {written : Bool}
    (halike : Alike maxPathLength (.step symbol token brightness written :: events) training
      training') (hsymbol : ¬ (symbol = "" ∨ symbol = "aggregate"))
    (hregion : Sequencer.Region token) :
    ∃ r r', training.stepCut log codec maxPathLength symbol token brightness written = some r ∧
      training'.stepCut log codec maxPathLength symbol token brightness written = some r' ∧
      r.2 = r'.2 ∧ Alike maxPathLength events r.1 r'.1 := by
  obtain ⟨hne, -⟩ := not_or.mp hsymbol
  obtain ⟨seq, tokens, -, t, hr, -, ht, -, hkept, -⟩ :=
    h.stepped log maxPathLength hne hregion brightness written
  obtain ⟨seq', tokens', -, t', hr', -, ht', -, hkept', -⟩ :=
    h'.stepped log maxPathLength hne hregion brightness written
  have hcall : callOf maxPathLength symbol (.step symbol token brightness written) =
      some (.step maxPathLength token brightness) := if_pos ⟨rfl, hsymbol, hregion.1⟩
  have hanswers := (halike.getD maxPathLength hcall).call log
  rw [Sequencer.call, Sequencer.call, hr, hr'] at hanswers
  obtain ⟨hresumes, hcut⟩ : Resumes _ seq seq' ∧ some tokens = some tokens' := by
    cases hanswers with
    | some hab => exact hab
  refine ⟨(t, tokens), (t', tokens'), ht, ht', Option.some.inj hcut, ?_⟩
  · have hput := halike.put maxPathLength (fun other hother =>
      if_neg fun hc => hother hc.1.symm) hresumes
    intro other
    show Option.Rel _ (t.sequencers other) (t'.sequencers other)
    rw [hkept, hkept']
    exact hput other

omit [Field K] [LinearOrder K] in
/-- A reset of the sequencers of a symbol, where there are any. -/
theorem Alike.reset (h : Recorded codec training) (h' : Recorded codec training')
    {symbol : String} {written : Bool}
    (halike : Alike maxPathLength (.reset symbol written :: events) training training') :
    ∃ t t', training.resetSequencer codec symbol written = some t ∧
      training'.resetSequencer codec symbol written = some t' ∧
      Alike maxPathLength events t t' := by
  have hother : ∀ other, other ≠ symbol →
      callOf maxPathLength other (.reset symbol written) = none :=
    fun other hother => if_neg fun hc => hother hc.1.symm
  unfold resetSequencer
  by_cases hne : symbol = ""
  · rw [if_pos hne, if_pos hne]
    refine ⟨training, training', rfl, rfl, halike.skip maxPathLength fun other => ?_⟩
    exact if_neg fun hc => hc.2 hne
  · rw [if_neg hne, if_neg hne]
    have hcall : callOf maxPathLength symbol (.reset symbol written) = some .reset :=
      if_pos ⟨rfl, hne⟩
    -- the reset is the next call of its symbol, and no call of the others
    have hcalls : callsOf maxPathLength symbol (.reset symbol written :: events) =
        .reset :: callsOf maxPathLength symbol events := List.filterMap_cons_some hcall
    have hseq := halike symbol
    rw [hcalls] at hseq
    cases hlive : training.sequencers symbol with
    | none =>
      rw [hlive] at hseq
      cases hlive' : training'.sequencers symbol with
      | some => rw [hlive'] at hseq; cases hseq
      | none =>
        refine ⟨training, training', rfl, rfl, fun other => ?_⟩
        by_cases hsame : other = symbol
        · rw [hsame, hlive, hlive']
          exact .none
        · have hskip : callsOf maxPathLength other (.reset symbol written :: events) =
              callsOf maxPathLength other events := List.filterMap_cons_none (hother other hsame)
          rw [← hskip]
          exact halike other
    | some seq =>
      rw [hlive] at hseq
      cases hlive' : training'.sequencers symbol with
      | none => rw [hlive'] at hseq; cases hseq
      | some seq' =>
        rw [hlive'] at hseq
        have hresumes : Resumes (callsOf maxPathLength symbol events) seq.reset seq'.reset := by
          cases hseq with
          | some hseq => exact hseq.reset _
        have hfed := (h.fed symbol seq hlive).reset
        have hfed' := (h'.fed symbol seq' hlive').reset
        obtain ⟨-, t, -, ht, -, hkept, -⟩ := (h.put symbol hfed).persist hne hfed written
        obtain ⟨-, t', -, ht', -, hkept', -⟩ := (h'.put symbol hfed').persist hne hfed' written
        refine ⟨t, t', ht, ht', fun other => ?_⟩
        show Option.Rel _ (t.sequencers other) (t'.sequencers other)
        rw [hkept, hkept']
        exact halike.put maxPathLength hother hresumes other

/-- The same cut at one event. -/
theorem Alike.event (h : Recorded codec training) (h' : Recorded codec training')
    (halike : Alike maxPathLength (e :: events) training training') (he : e.Regions)
    (hlive : e ≠ .restart) :
    ∃ r r', training.event log codec maxPathLength e = some r ∧
      training'.event log codec maxPathLength e = some r' ∧ r.2 = r'.2 ∧
      Alike maxPathLength events r.1 r'.1 := by
  cases e with
  | step symbol token brightness written =>
    show ∃ r r', (if symbol = "" ∨ symbol = "aggregate" then some (training, none)
      else (training.stepCut log codec maxPathLength symbol token brightness written).map
        fun r => (r.1, some r.2)) = some r ∧
      (if symbol = "" ∨ symbol = "aggregate" then some (training', none)
      else (training'.stepCut log codec maxPathLength symbol token brightness written).map
        fun r => (r.1, some r.2)) = some r' ∧ _
    -- what is turned away on one side is turned away on the other
    by_cases hsymbol : symbol = "" ∨ symbol = "aggregate"
    · rw [if_pos hsymbol, if_pos hsymbol]
      refine ⟨_, _, rfl, rfl, rfl, halike.skip maxPathLength fun other => ?_⟩
      exact if_neg fun hc => hc.2.1 hsymbol
    · rw [if_neg hsymbol, if_neg hsymbol]
      by_cases htoken : token = ""
      · unfold stepCut
        rw [if_pos htoken, if_pos htoken]
        refine ⟨_, _, rfl, rfl, rfl, halike.skip maxPathLength fun other => ?_⟩
        exact if_neg fun hc => hc.2.2 htoken
      · obtain ⟨r, r', hr, hr', hcut, hnext⟩ := halike.step log maxPathLength h h' hsymbol
          (he.resolve_left htoken)
        rw [hr, hr']
        exact ⟨_, _, rfl, rfl, congrArg some hcut, hnext⟩
  | reset symbol written =>
    obtain ⟨t, t', ht, ht', hnext⟩ := halike.reset maxPathLength h h'
    refine ⟨(t, none), (t', none), ?_, ?_, rfl, hnext⟩
    · exact congrArg (Option.map _) ht
    · exact congrArg (Option.map _) ht'
  | restart => exact absurd rfl hlive

/-- The same cuts along a run. -/
theorem Alike.run (h : Recorded codec training) (h' : Recorded codec training')
    (halike : Alike maxPathLength events training training')
    (hevents : ∀ e ∈ events, e.Regions ∧ e ≠ .restart) :
    (training.run log codec maxPathLength events).map Prod.snd =
      (training'.run log codec maxPathLength events).map Prod.snd := by
  induction events generalizing training training' with
  | nil => rfl
  | cons e events ih =>
    obtain ⟨hregions, hlive⟩ := hevents e List.mem_cons_self
    obtain ⟨r, r', hr, hr', hcut, hnext⟩ := halike.event log maxPathLength h h' hregions hlive
    obtain ⟨q, hq, hrecorded⟩ := h.event log maxPathLength hregions
    obtain ⟨q', hq', hrecorded'⟩ := h'.event log maxPathLength hregions
    cases hr.symm.trans hq
    cases hr'.symm.trans hq'
    have hrest := ih hrecorded hrecorded' hnext fun e' he' =>
      hevents e' (List.mem_cons_of_mem _ he')
    rw [Training.run, Training.run, hr, hr', Option.bind_some, Option.bind_some, Option.map_map,
      Option.map_map, hcut]
    have htail := congrArg (Option.map (r'.2 :: ·)) hrest
    rwa [Option.map_map, Option.map_map] at htail

end Resumed

section Saved

variable (log : K → K) (maxPathLength : ℤ) {e : Event}

/-- The last write of every symbol is what its sequencer would write, or was made
from. -/
structure Saved (training : Training K Raw) : Prop where
  plain : ∀ symbol, training.sequencers symbol ≠ none → '-' ∉ symbol.toList
  writes : ∀ w ∈ training.writes, '-' ∉ w.1.toList
  unwritten : ∀ symbol, training.sequencers symbol = none → '-' ∉ symbol.toList →
    lastWrite training.writes symbol = none
  written : ∀ symbol seq, training.sequencers symbol = some seq →
    ∃ state, lastWrite training.writes symbol = some state ∧
      (seq.state = some state ∨ seq = Sequencer.new.restore state)

omit [LinearOrder K] in
/-- A sequencer goes in with its state. -/
theorem Saved.put (h : Saved training) {symbol : String} (hplain : '-' ∉ symbol.toList)
    {seq : Sequencer K} {state : SequencerState K} (hstate : seq.state = some state)
    {training' : Training K Raw}
    (hsequencers : training'.sequencers = (training.put symbol seq).sequencers)
    (hwrites : training'.writes = (symbol, state) :: training.writes) : Saved training' := by
  have hself : training'.sequencers symbol = some seq := by
    rw [hsequencers, put_self]
  have hother : ∀ other, other ≠ symbol →
      training'.sequencers other = training.sequencers other := by
    intro other hne
    rw [hsequencers, put_other training hne]
  have hlast : lastWrite training'.writes symbol = some state := by
    rw [hwrites, lastWrite, List.find?_cons_of_pos (by simp)]
    rfl
  -- a plain name shares its file with no other plain name
  have hkept : ∀ other, other ≠ symbol → '-' ∉ other.toList →
      lastWrite training'.writes other = lastWrite training.writes other := by
    intro other hne hplain'
    have hnames : slashed symbol ≠ slashed other := by
      rw [(slashed_eq_self_iff symbol).mpr hplain, (slashed_eq_self_iff other).mpr hplain']
      exact hne.symm
    rw [hwrites, lastWrite, lastWrite, List.find?_cons_of_neg (by simpa using hnames)]
  refine ⟨fun other hsome => ?_, fun w hw => ?_, fun other hnone hplain' => ?_,
    fun other seq' hseq => ?_⟩
  · by_cases hne : other = symbol
    · rwa [hne]
    · rw [hother other hne] at hsome
      exact h.plain other hsome
  · rw [hwrites] at hw
    rcases List.mem_cons.mp hw with rfl | hw
    · exact hplain
    · exact h.writes w hw
  · have hne : other ≠ symbol := by
      rintro rfl
      cases hself.symm.trans hnone
    rw [hkept other hne hplain']
    rw [hother other hne] at hnone
    exact h.unwritten other hnone hplain'
  · by_cases hne : other = symbol
    · subst hne
      cases hself.symm.trans hseq
      exact ⟨state, hlast, .inl hstate⟩
    · rw [hother other hne] at hseq
      have hsome : training.sequencers other ≠ none := by
        rw [hseq]
        nofun
      rw [hkept other hne (h.plain other hsome)]
      exact h.written other seq' hseq

omit [LinearOrder K] in
/-- After a restart every sequencer is the one its last write made. -/
theorem Saved.restarted (h : Saved training) (hrecorded : Recorded codec training) :
    Saved (new codec training.client training.writes) := by
  obtain ⟨-, hwrites⟩ := client_new codec training.client training.writes
  refine ⟨fun symbol hsome => ?_, by rw [hwrites]; exact h.writes,
    fun symbol hnone hplain => ?_, fun symbol seq hseq => ?_⟩
  · intro hdash
    rw [hrecorded.sequencers_new, if_pos hdash] at hsome
    exact hsome rfl
  · rw [hrecorded.sequencers_new, if_neg hplain] at hnone
    rw [hwrites]
    exact Option.map_eq_none_iff.mp hnone
  · rw [hrecorded.sequencers_new] at hseq
    split at hseq
    · cases hseq
    · obtain ⟨state, hstate, rfl⟩ := Option.map_eq_some_iff.mp hseq
      rw [hwrites]
      exact ⟨state, hstate, .inr rfl⟩

/-- An event whose write goes through leaves every symbol saved. -/
theorem Saved.event (h : Saved training) (hrecorded : Recorded codec training)
    (he : e.Regions) (hkept : e.Kept) {r : Training K Raw × Option Tokens}
    (hr : training.event log codec maxPathLength e = some r) : Saved r.1 := by
  cases e with
  | step symbol token brightness written =>
    -- the write went through, so what is in the store is what is live
    obtain ⟨hplain, rfl⟩ := hkept
    have hevent : (if symbol = "" ∨ symbol = "aggregate" then some (training, none)
      else (training.stepCut log codec maxPathLength symbol token brightness true).map
        fun r => (r.1, some r.2)) = some r := hr
    split at hevent
    · cases hevent
      exact h
    · rename_i hsymbol
      obtain ⟨hne, -⟩ := not_or.mp hsymbol
      by_cases htoken : token = ""
      · unfold stepCut at hevent
        rw [if_pos htoken] at hevent
        cases hevent
        exact h
      · obtain ⟨seq, tokens, state, t, -, hstate, ht, -, hsequencers, hwrites⟩ :=
          hrecorded.stepped log maxPathLength hne (he.resolve_left htoken) brightness true
        rw [ht] at hevent
        cases hevent
        exact h.put hplain hstate hsequencers (hwrites rfl)
  | reset symbol written =>
    obtain ⟨hplain, rfl⟩ := hkept
    have hevent : (training.resetSequencer codec symbol true).map
      (fun training => (training, (none : Option Tokens))) = some r := hr
    unfold resetSequencer at hevent
    split at hevent
    · cases hevent
      exact h
    · rename_i hne
      split at hevent
      · cases hevent
        exact h
      · rename_i seq hseq
        have hfed := (hrecorded.fed symbol seq hseq).reset
        obtain ⟨state, t, hstate, ht, -, hsequencers, hwrites⟩ :=
          (hrecorded.put symbol hfed).persist hne hfed true
        rw [ht] at hevent
        cases hevent
        exact h.put hplain hstate hsequencers (hwrites rfl)
  | restart =>
    cases hr
    exact h.restarted hrecorded

/-- So does a run of them. -/
theorem Saved.run (h : Saved training) (hrecorded : Recorded codec training)
    {events : List Event} (hevents : ∀ e ∈ events, e.Regions ∧ e.Kept)
    {r : Training K Raw × List (Option Tokens)}
    (hr : training.run log codec maxPathLength events = some r) : Saved r.1 := by
  induction events generalizing training r with
  | nil =>
    cases hr
    exact h
  | cons e events ih =>
    obtain ⟨hregions, hkept⟩ := hevents e List.mem_cons_self
    obtain ⟨q, hq, hnext⟩ := hrecorded.event log maxPathLength hregions
    rw [Training.run, hq, Option.bind_some] at hr
    obtain ⟨last, hlast, rfl⟩ := Option.map_eq_some_iff.mp hr
    have hsaved : Saved last.1 := ih (h.event log maxPathLength hrecorded hregions hkept hq) hnext
      (fun e' he' => hevents e' (List.mem_cons_of_mem _ he')) hlast
    exact hsaved

/-- After any run, restarts included, whose writes went through under names without a
dash, a new training that starts from the store gives every later tick the cut that the
running one would have given it, if the restart is harmless to each sequencer. -/
theorem restart_resumes (codec : GrammarCodec K Raw) {client : Objects Raw}
    (hempty : client.list grammarSymbolDir = []) (history events : List Event)
    (hhistory : ∀ e ∈ history, e.Regions ∧ e.Kept)
    (hevents : ∀ e ∈ events, e.Regions ∧ e ≠ .restart) :
    ∃ live, (new codec client []).run log codec maxPathLength history = some live ∧
      ((∀ symbol seq, live.1.sequencers symbol = some seq → seq.mdl.nextID ≠ 0 ∧
          Sequencer.Harmless seq (callsOf maxPathLength symbol events)) →
        ∃ cuts, (live.1.run log codec maxPathLength events).map Prod.snd = some cuts ∧
          ((new codec live.1.client live.1.writes).run log codec maxPathLength events).map
            Prod.snd = some cuts) := by
  have hnew : Recorded codec (new codec client []) := recorded_new hempty
  obtain ⟨live, hlive, hrecorded⟩ := hnew.run log maxPathLength fun e he => (hhistory e he).1
  have hstart : Saved (new codec client []) := by
    unfold new
    rw [hempty]
    exact ⟨fun _ h => absurd rfl h, nofun, fun _ _ _ => rfl, nofun⟩
  have hsaved := hstart.run log maxPathLength hnew hhistory hlive
  refine ⟨live, hlive, fun hharmless => ?_⟩
  -- symbol by symbol: both have no sequencer, or the new one resumes the live one
  have halike : Alike maxPathLength events live.1 (new codec live.1.client live.1.writes) := by
    intro symbol
    rw [hrecorded.sequencers_new]
    cases hseq : live.1.sequencers symbol with
    | none =>
      -- a symbol without a sequencer was never written
      have hnone : (if '-' ∈ symbol.toList then none
          else (lastWrite live.1.writes symbol).map (Sequencer.new : Sequencer K).restore) =
          none := by
        by_cases hdash : '-' ∈ symbol.toList
        · exact if_pos hdash
        · rw [if_neg hdash, hsaved.unwritten symbol hseq hdash]
          rfl
      rw [hnone]
      exact .none
    | some seq =>
      obtain ⟨state, hstate, hsource⟩ := hsaved.written symbol seq hseq
      obtain ⟨hid, hsafe⟩ := hharmless symbol seq hseq
      rw [if_neg (hsaved.plain symbol (by rw [hseq]; nofun)), hstate]
      refine .some ?_
      rcases hsource with hsource | rfl
      · -- what the store gives differs from the live one as `Harmless` allows
        obtain ⟨state', hstate', hblurred, hsame⟩ :=
          Sequencer.exists_state (hrecorded.fed symbol seq hseq) hid
        cases hsource.symm.trans hstate'
        rcases hsafe with hintact | hpassive
        · exact .inr (.inl (hsame hintact))
        · exact .inr (.inr ⟨hblurred, hpassive⟩)
      · exact .inl rfl
  obtain ⟨last, hlast, -⟩ := hrecorded.run log maxPathLength fun e he => (hevents e he).1
  have hsame := halike.run log maxPathLength hrecorded hrecorded.restarted hevents
  refine ⟨last.2, ?_, ?_⟩
  · rw [hlast]
    rfl
  · rw [← hsame, hlast]
    rfl

end Saved

/-! ## A pair before and after a restart -/

section Sample

/-- Any state is its own encoding. -/
def plainCodec : GrammarCodec ℚ (SequencerState ℚ) := ⟨id, some, fun _ => rfl⟩

/-- Two pairs take turns. The one makes a rule of `R00 R01` and has it in its root. -/
def sampleTicks : List (String × String) :=
  [("XBT/USD", "R00"), ("XBT/USD", "R01"), ("ETH/USD", "R03"), ("XBT/USD", "R00"),
    ("XBT/USD", "R01"), ("ETH/USD", "R02"), ("XBT/USD", "R00"), ("XBT/USD", "R01")]

def sampleHistory : List Event := sampleTicks.map fun tick => .step tick.1 tick.2 1 true

/-- Both pairs go on with ticks, and only then is one of them reset. -/
def sampleEvents : List Event :=
  [.step "XBT/USD" "R00" 1 true, .step "ETH/USD" "R03" 1 true, .step "XBT/USD" "R02" 1 true,
    .reset "ETH/USD" true, .step "ETH/USD" "R02" 1 true]

theorem regions_sample : ∀ token ∈ ["R00", "R01", "R02", "R03"], Sequencer.Region token := by
  unfold Sequencer.Region
  decide +kernel

theorem mem_sampleTicks : ∀ tick ∈ sampleTicks, tick.1 ∈ ["XBT/USD", "ETH/USD"] ∧
    '-' ∉ tick.1.toList ∧ ¬ (tick.1 = "" ∨ tick.1 = "aggregate") ∧
    tick.2 ∈ ["R00", "R01", "R02", "R03"] := by
  decide

theorem ticks_sampleHistory : ∀ e ∈ sampleHistory, ∃ symbol token brightness written,
    e = .step symbol token brightness written ∧ ¬ (symbol = "" ∨ symbol = "aggregate") ∧
      Sequencer.Region token := by
  intro e he
  obtain ⟨tick, htick, rfl⟩ := List.mem_map.mp he
  obtain ⟨-, -, hname, htoken⟩ := mem_sampleTicks tick htick
  exact ⟨tick.1, tick.2, 1, true, rfl, hname, regions_sample tick.2 htoken⟩

theorem regions_sampleHistory {e : Event} (he : e ∈ sampleHistory) : e.Regions := by
  obtain ⟨_, _, _, _, rfl, -, htoken⟩ := ticks_sampleHistory e he
  exact .inr htoken

/-- A name with a dash is lost in a restart. -/
theorem restart_restores_sample : ∃ r : Training ℚ (SequencerState ℚ) × List (Option Tokens),
    (new plainCodec ∅ []).run id plainCodec 8 (.step "A-B" "R00" 1 true :: sampleHistory) =
        some r ∧
      (new plainCodec r.1.client r.1.writes).sequencers "A-B" = none := by
  obtain ⟨r, hr, hrestored⟩ := restart_restores id 8 plainCodec
    (rfl : (∅ : Objects (SequencerState ℚ)).list grammarSymbolDir = [])
    (.step "A-B" "R00" 1 true :: sampleHistory) fun e he => by
      rcases List.mem_cons.mp he with rfl | he
      · exact .inr (regions_sample "R00" (by decide))
      · exact regions_sampleHistory he
  refine ⟨r, hr, ?_⟩
  rw [hrestored, if_pos (by decide)]

/-- After the history only the two pairs have a sequencer, and neither has lost anything
that a restart would not give back. -/
theorem intact_sampleHistory {live : Training ℚ (SequencerState ℚ) × List (Option Tokens)}
    (hlive : (new plainCodec ∅ []).run id plainCodec 8 sampleHistory = some live)
    {symbol : String} {seq : Sequencer ℚ} (hseq : live.1.sequencers symbol = some seq) :
    seq.mdl.nextID ≠ 0 ∧ Sequencer.Intact seq := by
  have hnew : Recorded plainCodec (new plainCodec ∅ [] : Training ℚ _) := recorded_new rfl
  obtain ⟨q, hq, hrecorded⟩ := hnew.run id 8 fun e he => regions_sampleHistory he
  cases hlive.symm.trans hq
  obtain ⟨l, ts, hinv, -⟩ := (hrecorded.fed symbol seq hseq).inv
  obtain ⟨last, hlast, hafter⟩ := hnew.own_calls id 8 ticks_sampleHistory hlive symbol
  rw [hseq] at hafter
  have hnone : (new plainCodec ∅ [] : Training ℚ _).sequencers symbol = none := rfl
  rw [hnone] at hlast hafter
  -- what the own calls of either symbol leave, found by running them
  have hpairs : ∀ name ∈ ["XBT/USD", "ETH/USD"], ∀ last ∈
      (Sequencer.new : Sequencer ℚ).run id (callsOf 8 name sampleHistory),
      last.1.mdl.nextID ≠ 0 ∧ last.1.sentenceBreak = false ∧
      ∀ p ∈ last.1.grammar.rootNodes,
        last.1.grammar.digrams (last.1.grammar.val p, last.1.grammar.val (last.1.grammar.next p)) =
          last.1.grammar.indexOf last.1.grammar.rootNodes
            (last.1.grammar.val p, last.1.grammar.val (last.1.grammar.next p)) := by
    decide +kernel
  split at hafter
  · cases hafter
  · rename_i hcalls
    cases hafter
    -- a symbol with a sequencer is one of the two
    have hname : symbol ∈ ["XBT/USD", "ETH/USD"] := by
      by_contra hother
      refine hcalls (List.filterMap_eq_nil_iff.mpr fun e he => ?_)
      obtain ⟨tick, htick, rfl⟩ := List.mem_map.mp he
      refine if_neg fun hc => hother ?_
      rw [← hc.1]
      exact (mem_sampleTicks tick htick).1
    obtain ⟨hid, hbreak, hindex⟩ := hpairs symbol hname last hlast
    exact ⟨hid, hbreak, hinv.shape.recoverable hindex⟩

/-- A restart in the middle of two sentences, one of them over a rule, goes unnoticed. -/
theorem restart_resumes_sample :
    ∃ (live : Training ℚ (SequencerState ℚ) × List (Option Tokens)) (cuts : List (Option Tokens)),
      (new plainCodec ∅ []).run id plainCodec 8 sampleHistory = some live ∧
      (live.1.sequencers "XBT/USD").map (fun seq => seq.grammar.rootSequence) = some ["M1"] ∧
      ((new plainCodec live.1.client live.1.writes).run id plainCodec 8 sampleEvents).map
        Prod.snd = some cuts := by
  obtain ⟨live, hlive, hsame⟩ := restart_resumes id 8 plainCodec
    (rfl : (∅ : Objects (SequencerState ℚ)).list grammarSymbolDir = []) sampleHistory sampleEvents
    (fun e he => by
      refine ⟨regions_sampleHistory he, ?_⟩
      obtain ⟨tick, htick, rfl⟩ := List.mem_map.mp he
      exact ⟨(mem_sampleTicks tick htick).2.1, rfl⟩)
    fun e he => by
      simp only [sampleEvents, List.mem_cons, List.not_mem_nil, or_false] at he
      rcases he with rfl | rfl | rfl | rfl | rfl
      · exact ⟨.inr (regions_sample _ (by decide)), nofun⟩
      · exact ⟨.inr (regions_sample _ (by decide)), nofun⟩
      · exact ⟨.inr (regions_sample _ (by decide)), nofun⟩
      · exact ⟨trivial, nofun⟩
      · exact ⟨.inr (regions_sample _ (by decide)), nofun⟩
  -- every sequencer of the history is whole at the restart
  obtain ⟨cuts, -, hcuts⟩ := hsame fun symbol seq hseq => by
    obtain ⟨hid, hintact⟩ := intact_sampleHistory hlive hseq
    exact ⟨hid, .inl hintact⟩
  obtain ⟨last, hlast, hafter⟩ :=
    Recorded.own_calls id 8 (recorded_new rfl) ticks_sampleHistory hlive "XBT/USD"
  -- the root of the pair has been folded into one rule
  have hroot : ∀ last ∈ (Sequencer.new : Sequencer ℚ).run id
      (callsOf 8 "XBT/USD" sampleHistory), last.1.grammar.rootSequence = ["M1"] := by
    decide +kernel
  have hpair : live.1.sequencers "XBT/USD" = some last.1 := hafter
  refine ⟨live, cuts, hlive, ?_, hcuts⟩
  rw [hpair, Option.map_some, hroot last hlast]

end Sample

end Training

end Symm.Strategy
