import Mathlib.Data.List.Sort
import Symm.Lib.Ring
import Symm.Tokenizer.Symbol

/-!
# Sequitur

The grammar over the flat token stream, as the source computes it. Root nodes
live in a heap of cells addressed by `Ptr`; address 0 is Go's `nil`, address 1
is the root sentinel. The digram index maps a pair of symbols to the node it
starts at. Rule bodies never change after they are made and are kept as lists.

`check`, `reduce` and `checkAdjacencies` call each other. `check` takes the
recursion depth it may use and answers `none` when that is not enough;
`Analyze` grants one level per root node, and `SequiturSpec` shows that this is
always enough.

- `check`, `reduce`, `substitute`, `forgetNode`, `checkAdjacencies`: one cascade
  of digram replacement;
- `analyze`, `sentence`, `flush`: the operations of a client;
- `tail`, `rootSequence`, `ruleViews`: what a client reads;
- `learn`, `restoreRoot`: how a restart rebuilds the grammar.

The addresses are what makes the cascade worth modelling: a node that is cut out of the
root keeps its symbol while its links are nil, and the code goes on holding pointers to
it. Whatever the source reads through a pointer is read through the heap here, `nil`
included, so a pointer that leads out of the root does in the model what it does in the
code.

The maps of the source are functions and the rule table is a list, in the order in which
the rules came. Only `ruleViews` reads that order, and it sorts by id.
-/

namespace Symm.Tokenizer

open Symm.Lib

/-- The address of a node. -/
abbrev Ptr := ℕ

/-- Go's `nil`. -/
def nil : Ptr := 0

/-- The sentinel of the root ring. -/
def sentinel : Ptr := 1

structure Node where
  val : Symbol := ""
  prev : Ptr := nil
  next : Ptr := nil
  deriving Repr, DecidableEq

abbrev Digram := Symbol × Symbol

/-- A grammar production; `body` is the ring behind the source's `Head`. -/
structure Rule where
  id : ℕ
  count : ℤ
  body : List Symbol
  deriving Repr, DecidableEq

/-- What the last `Analyze` did. -/
inductive Kind
  | append
  | create
  | reuse
  deriving Repr, DecidableEq

structure Sequitur where
  nextID : ℕ
  rules : List Rule
  digrams : Digram → Option Ptr
  ruleByDigram : Digram → Option ℕ
  /-- The heap of root nodes; unused addresses hold the zero node. -/
  nodes : Ptr → Node
  /-- The next unused address. -/
  fresh : Ptr
  length : ℕ
  pendingLen : ℕ
  lastKind : Kind

namespace Sequitur

def new : Sequitur where
  nextID := 1
  rules := []
  digrams := fun _ => none
  ruleByDigram := fun _ => none
  -- an empty ring: the sentinel is its own neighbour
  nodes := Function.update (fun _ => {}) sentinel { next := sentinel, prev := sentinel }
  fresh := sentinel + 1
  length := 0
  pendingLen := 0
  lastKind := .append

/-! ## The heap -/

def val (s : Sequitur) (p : Ptr) : Symbol := (s.nodes p).val

def next (s : Sequitur) (p : Ptr) : Ptr := (s.nodes p).next

def prev (s : Sequitur) (p : Ptr) : Ptr := (s.nodes p).prev

def setNode (s : Sequitur) (p : Ptr) (node : Node) : Sequitur :=
  { s with nodes := Function.update s.nodes p node }

def setVal (s : Sequitur) (p : Ptr) (v : Symbol) : Sequitur :=
  s.setNode p { s.nodes p with val := v }

def setNext (s : Sequitur) (p q : Ptr) : Sequitur :=
  s.setNode p { s.nodes p with next := q }

def setPrev (s : Sequitur) (p q : Ptr) : Sequitur :=
  s.setNode p { s.nodes p with prev := q }

def isSentinel (n : Ptr) : Prop := n = nil ∨ n = sentinel

instance (n : Ptr) : Decidable (isSentinel n) := inferInstanceAs (Decidable (_ ∨ _))

/-! ## The rule table -/

/-- `sequitur.rules[id]`. -/
def ruleOf (s : Sequitur) (id : ℕ) : Option Rule := s.rules.find? (·.id = id)

/-- `sequitur.rules[rule.ID] = rule`. -/
def setRule (s : Sequitur) (rule : Rule) : Sequitur :=
  { s with rules := s.rules.filter (·.id ≠ rule.id) ++ [rule] }

/-- `rule.Count = count` on the rule of that id. -/
def setCount (s : Sequitur) (id : ℕ) (count : ℤ) : Sequitur :=
  { s with rules := s.rules.map fun r => if r.id = id then { r with count := count } else r }

/-- The rule a digram is the body of. -/
def ruled (s : Sequitur) (digram : Digram) : Option Rule :=
  (s.ruleByDigram digram).bind s.ruleOf

/-! ## Digram replacement -/

/-- Delete the index entry of `digram` if it still points at `n`. -/
def forgetDigram (s : Sequitur) (digram : Digram) (n : Ptr) : Sequitur :=
  if s.digrams digram = some n then
    { s with digrams := Function.update s.digrams digram none }
  else s

/-- Drop the index entries that start at `n` or at the node before it. -/
def forgetNode (s : Sequitur) (n : Ptr) : Sequitur :=
  if isSentinel n then s
  else
    -- the pair that ends in `n`
    let s := if isSentinel (s.prev n) then s
      else s.forgetDigram (s.val (s.prev n), s.val n) (s.prev n)
    if isSentinel (s.next n) then s
    else s.forgetDigram (s.val n, s.val (s.next n)) n

/-- Put the reference to rule `id` in place of `n` and the node behind it. -/
def substitute (s : Sequitur) (n : Ptr) (id : ℕ) : Sequitur :=
  if n = nil ∨ s.next n = nil ∨ s.next (s.next n) = nil then s
  else
    -- the entries of the three pairs that the two nodes are in
    let s := s.forgetNode n
    let s := s.forgetNode (s.next n)
    let victim := s.next n
    let after := s.next victim
    -- `n` takes the symbol of the rule, and what came after the second node
    let s := s.setVal n (ruleSymbol id)
    let s := s.setNext n after
    let s := s.setPrev after n
    -- the second node is taken out of the ring, and leads nowhere from now on
    let s := s.setPrev victim nil
    let s := s.setNext victim nil
    { s with length := s.length - 1 }

/-- `sequitur.check(n)` where `guard` holds, nothing where it does not. -/
def checkIf (check : Sequitur → Ptr → Option (Sequitur × Option ℕ)) (s : Sequitur)
    (guard : Prop) [Decidable guard] (n : Ptr) : Option Sequitur :=
  if guard then (check s n).map Prod.fst else some s

def checkAdjacencies (check : Sequitur → Ptr → Option (Sequitur × Option ℕ))
    (s : Sequitur) (a b : Ptr) : Option Sequitur := do
  -- each test is made in the state that the checks before it have left
  let s ← checkIf check s (¬ isSentinel a ∧ ¬ isSentinel (s.prev a)) (s.prev a)
  let s ← checkIf check s (¬ isSentinel a) a
  -- the second occurrence only if it is another node
  let s ← checkIf check s (¬ isSentinel b ∧ b ≠ a ∧ ¬ isSentinel (s.prev b)) (s.prev b)
  checkIf check s (¬ isSentinel b ∧ b ≠ a) b

/-- A new rule for `d`, counted as used twice. -/
def newRule (s : Sequitur) (d : Digram) : Sequitur :=
  let id := s.nextID
  let s := { s with nextID := s.nextID + 1 }
  let s := s.setRule { id := id, count := 2, body := [d.1, d.2] }
  { s with
    ruleByDigram := Function.update s.ruleByDigram d (some id)
    lastKind := .create }

/-- What `reduce` does before it looks at the neighbours: a new rule, and both
occurrences replaced by it. -/
def replaceBoth (s : Sequitur) (newOccur firstOccur : Ptr) (d : Digram) : Sequitur :=
  let id := s.nextID
  let s := s.newRule d
  let s := s.substitute firstOccur id
  let s := s.substitute newOccur id
  { s with digrams := Function.update s.digrams d none }

def reduce (check : Sequitur → Ptr → Option (Sequitur × Option ℕ))
    (s : Sequitur) (newOccur firstOccur : Ptr) (d : Digram) : Option (Sequitur × Option ℕ) :=
  (checkAdjacencies check (s.replaceBoth newOccur firstOccur d) firstOccur newOccur).map
    fun s' => (s', some s.nextID)

/-- What `check` does with a digram that is the body of `rule`, before it looks
at the neighbours. -/
def replaceRuled (s : Sequitur) (n : Ptr) (rule : Rule) : Sequitur :=
  let s := s.setCount rule.id (rule.count + 1)
  let s := s.substitute n rule.id
  if s.lastKind ≠ .create then { s with lastKind := .reuse } else s

/-- Test the digram that starts at `n`. The answer names the rule involved. -/
def check : ℕ → Sequitur → Ptr → Option (Sequitur × Option ℕ)
  -- the recursion has run out of depth
  | 0, _, _ => none
  | fuel + 1, s, n =>
    if isSentinel n ∨ isSentinel (s.next n) then some (s, none)
    else
      let digram := (s.val n, s.val (s.next n))
      match s.ruled digram with
      -- a digram of a rule becomes that rule at once, on this occurrence alone
      | some rule =>
        (checkAdjacencies (check fuel) (s.replaceRuled n rule) n n).map
          fun s' => (s', some rule.id)
      | none =>
        let index := { s with digrams := Function.update s.digrams digram (some n) }
        match s.digrams digram with
        | none => some (index, none)
        | some found =>
          -- an entry is only taken for a match if it still shows the digram
          if s.next found ≠ nil ∧ s.val found = digram.1 ∧ s.val (s.next found) = digram.2 then
            -- overlapping occurrences do not make a rule
            if found = n ∨ s.next found = n ∨ s.next found = s.next n then some (s, none)
            else reduce (check fuel) s n found digram
          else some (index, none)

/-! ## Feeding the grammar -/

/-- A new node holding `token`, linked in before the sentinel. -/
def appendNode (s : Sequitur) (token : Symbol) : Sequitur :=
  let n := s.fresh
  let last := s.prev sentinel
  let s := { s with fresh := s.fresh + 1 }
  let s := s.setNode n { val := token, prev := last, next := sentinel }
  let s := s.setNext last n
  s.setPrev sentinel n

/-- One turn of the loop of `Analyze`; `created` is the last rule involved. -/
def analyzeToken (s : Sequitur) (created : Option ℕ) (token : String) :
    Option (Sequitur × Option ℕ) :=
  if token = "" then some (s, created)
  else
    let n := s.fresh
    let s := s.appendNode token
    let s := { s with length := s.length + 1, pendingLen := s.pendingLen + 1 }
    -- the pair that the new node ends is tested, with one level for each node
    match check s.length s (s.prev n) with
    | none => none
    | some (s, none) => some (s, created)
    | some (s, some id) => some ({ s with pendingLen := 0 }, some id)

def analyze (s : Sequitur) (tokens : List String) : Option (Sequitur × Option ℕ) :=
  tokens.foldlM (fun r token => analyzeToken r.1 r.2 token) ({ s with lastKind := .append }, none)

/-- Drop the root and keep the rules. -/
def sentence (s : Sequitur) : Sequitur :=
  let s := s.setNext sentinel sentinel
  let s := s.setPrev sentinel sentinel
  { s with digrams := fun _ => none, length := 0, pendingLen := 0, lastKind := .append }

/-- Whether tokens came in since the last boundary. -/
def flush (s : Sequitur) : Sequitur × Bool :=
  ({ s with pendingLen := 0 }, decide (0 < s.pendingLen))

/-! ## Reading the grammar -/

/-- The root nodes, oldest first. -/
def rootNodes (s : Sequitur) : List Ptr :=
  walk s.next isSentinel s.fresh (s.next sentinel)

def rootSequence (s : Sequitur) : List String := s.rootNodes.map fun n => display (s.val n)

/-- The last `n` root symbols, oldest first. -/
def tail (s : Sequitur) (n : ℤ) : List String :=
  if n ≤ 0 ∨ s.length = 0 then []
  else
    -- walked from the end, and put in order after
    let n := min n.toNat s.length
    (walk s.prev isSentinel n (s.prev sentinel)).reverse.map fun n => display (s.val n)

/-- The terminals below one symbol, where `below` reads those of a rule. -/
def namesOf (s : Sequitur) (below : Rule → Option (List String)) (sym : Symbol) :
    Option (List String) :=
  match ruleID sym with
  | none => some [sym]
  | some id =>
    match s.ruleOf id with
    -- a reference to a rule that is not there has no terminals
    | none => some []
    | some nested => below nested

/-- The terminals of a rule. The source has no bound on the nesting; every id is
below `nextID`, so only a cyclic rule table exhausts `nextID` levels. -/
def collectTerminalNames (s : Sequitur) : ℕ → Rule → Option (List String)
  | 0, _ => none
  | fuel + 1, rule =>
    (rule.body.mapM (s.namesOf (s.collectTerminalNames fuel))).map List.flatten

def terminalNames (s : Sequitur) (rule : Rule) : Option (List String) :=
  s.collectTerminalNames s.nextID rule

/-- `TerminalsForRef`: the region terminals a displayed symbol expands to. -/
def terminalsForRef (s : Sequitur) (ref : String) : Option (List String) :=
  match ref.toList with
  | [] => some []
  -- a text with this letter is taken for a reference, and for nothing if it is none
  | 'M' :: digits =>
    match positiveID digits with
    | none => some []
    | some id =>
      match s.ruleOf id with
      | none => some []
      | some rule => s.terminalNames rule
  | _ => some [ref]

/-- The longest chain of rule references below `id`; `stack` holds the ids it is
inside of. -/
def ruleDepth (s : Sequitur) : ℕ → ℕ → List ℕ → Option ℕ
  | 0, _, _ => none
  | fuel + 1, id, stack =>
    -- a cycle counts as a terminal
    if id ∈ stack then some 1
    else
      match s.ruleOf id with
      | none => some 1
      | some rule =>
        (rule.body.filterMap ruleID).foldlM
          (fun depth child => (s.ruleDepth fuel child (id :: stack)).map
            fun nested => max depth (1 + nested)) 1

/-- One production as the dashboard publishes it. -/
structure RuleView where
  id : ℕ
  count : ℤ
  depth : ℕ
  symbols : List String
  terminals : List String
  deriving Repr, DecidableEq

def ruleView (s : Sequitur) (rule : Rule) : Option RuleView := do
  let terminals ← s.terminalNames rule
  let depth ← s.ruleDepth (s.rules.length + 1) rule.id []
  some { id := rule.id
         count := rule.count
         depth := depth
         symbols := rule.body.map display
         terminals := terminals }

/-- Every production, sorted by id. -/
def ruleViews (s : Sequitur) : Option (List RuleView) :=
  (s.rules.mapM s.ruleView).map (List.insertionSort fun a b => a.id ≤ b.id)

/-! ## Rebuilding the grammar -/

/-- Copy one rule in. -/
def learn (s : Sequitur) (id count : ℤ) (symbols : List String) : Sequitur :=
  if id ≤ 0 ∨ symbols = [] then s
  else
    match s.ruleOf id.toNat with
    -- a rule that is there keeps its body, and the greater count
    | some existing => if count > existing.count then s.setCount id.toNat count else s
    | none =>
      let body := symbols.map parseDisplay
      let s := s.setRule { id := id.toNat, count := if count < 2 then 2 else count, body := body }
      -- only a body of two symbols is found by its digram
      let s := match body with
        | [first, second] =>
          { s with ruleByDigram := Function.update s.ruleByDigram (first, second) (some id.toNat) }
        | _ => s
      if id.toNat ≥ s.nextID then { s with nextID := id.toNat + 1 } else s

/-- One turn of the loop of `RestoreRoot`; `prev` is the node before, `nil` at
first. -/
def restoreNode (r : Sequitur × Ptr) (symbol : String) : Sequitur × Ptr :=
  if symbol = "" then r
  else
    let s := r.1
    let prev := r.2
    let node := s.fresh
    let s := s.appendNode (parseDisplay symbol)
    let s := { s with length := s.length + 1 }
    let digram := (s.val prev, s.val node)
    let s :=
      -- the first occurrence of a digram is the one indexed, and none that has a rule
      if prev ≠ nil ∧ s.ruleByDigram digram = none ∧ s.digrams digram = none then
        { s with digrams := Function.update s.digrams digram (some prev) }
      else s
    (s, node)

/-- Install a saved sentence without discovering new rules. -/
def restoreRoot (s : Sequitur) (symbols : List String) : Sequitur :=
  (symbols.foldl restoreNode (s.sentence, nil)).1

end Sequitur

end Symm.Tokenizer
