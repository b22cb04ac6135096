import Mathlib.Algebra.Group.Int.Defs
import Symm.Lib.Threads
import Symm.Tokenizer.Symbol

/-!
# Request nonces (`kraken/nonce.go`)

`AuthNonce` hands out nonces that follow a clock and never repeat, to any number
of concurrent callers, and keeps their high-water mark in a file. `Next` is
split at its atomic operations, so that a run of turns is one interleaving of
the calls; only the rename at the end of `writeAtomic` is seen from outside, so
a write is one turn. `persistValue` is called without `force` only.

- `newAuthNonce`: the mark that a generator starts from;
- `Stage`, `next`: a call of `Next`, one atomic operation a turn: it reads the mark,
  then the clock, exchanges the mark, and may go on to write the file;
- `turn`: one turn of one of the calls, as a step of `Lib.Threads`.

A turn is given what it may read from outside, the two clocks and whether a write
succeeds, so a run is over every clock, also one that goes back, and over every failure
of the disk. The orders of the nonces are in `Kraken.NonceOrder`, what a restart finds
in `Kraken.NonceRestart`.
-/

namespace Symm.Kraken

open Symm.Lib Symm.Tokenizer

/-! ## The file -/

/-- `unicode.IsSpace`. -/
def isSpace (c : Char) : Bool :=
  c.toNat ∈ [0x09, 0x0a, 0x0b, 0x0c, 0x0d, 0x20, 0x85, 0xa0, 0x1680, 0x2028, 0x2029, 0x202f,
    0x205f, 0x3000] ∨ (0x2000 ≤ c.toNat ∧ c.toNat ≤ 0x200a)

/-- `strings.TrimSpace`. -/
def trimSpace (text : List Char) : List Char :=
  ((text.dropWhile isSpace).reverse.dropWhile isSpace).reverse

/-- `strconv.ParseInt(text, 10, 64)`. -/
def parseInt (text : List Char) : Option Int64 :=
  (atoi text).bind fun n => if -2 ^ 63 ≤ n ∧ n < 2 ^ 63 then some (Int64.ofInt n) else none

/-- What `os.ReadFile` finds at the path. -/
inductive NonceFile
  | missing
  | unreadable
  | holds (body : String)
  deriving DecidableEq

/-- The kinds of `errnie.Err` that loading raises. -/
inductive ErrorKind
  | io | validation
  deriving DecidableEq, Repr

structure NonceError where
  kind : ErrorKind
  message : String
  deriving DecidableEq

/-- `loadNonce`: a missing file is the zero state. -/
def loadNonce : NonceFile → Except NonceError Int64
  | .missing => .ok 0
  | .unreadable => .error ⟨.io, "websocket: failed to read auth nonce"⟩
  | .holds body =>
    match parseInt (trimSpace body.toList) with
    | none => .error ⟨.validation, "websocket: invalid auth nonce value"⟩
    | some value =>
      if value < 0 then .error ⟨.validation, "websocket: auth nonce must not be negative"⟩
      else .ok value

/-- What `writeAtomic` writes. -/
def render (value : Int64) : String := toString value.toInt ++ "\n"

/-! ## The generator -/

/-- `AuthNonce`, with the file at its path. `persistErr` is set by the first write
that fails. -/
structure AuthNonce where
  highWater : Int64
  isPersisting : Bool
  lastPersistNs : Int64
  persistErr : Bool
  file : NonceFile

/-- `NewAuthNonce`, at the wall clock `now`. -/
def newAuthNonce (file : NonceFile) (now : Int64) : Except NonceError AuthNonce :=
  match loadNonce file with
  | .error err => .error err
  | .ok highWater =>
    let seed := if now ≤ highWater then highWater + 1 else now
    .ok ⟨seed - 1, false, 0, false, file⟩

/-- Where a call of `Next` stands. -/
inductive Stage
  | idle
  | called
  | loaded (last : Int64)
  | timed (last next : Int64)
  | won (next : Int64)
  | due (next now : Int64)
  | holding (next now : Int64)
  | stamped (next : Int64)
  | written (next : Int64)
  | returned (next : Int64)
  deriving DecidableEq

/-- What a turn may read from outside: the generator's clock, the wall clock, and
whether a write succeeds. -/
structure Outside where
  clock : Int64
  wall : Int64
  writes : Bool

/-- 50 ms. -/
def persistEvery : Int64 := 50000000

/-- `persistValue` leaves this value to a later call. -/
def AuthNonce.throttles (nonce : AuthNonce) (value now : Int64) : Bool :=
  now - nonce.lastPersistNs < persistEvery ∧ value % 128 ≠ 0

/-- The next atomic step of a call of `Next`. -/
def next (x : Outside) (nonce : AuthNonce) : Stage → AuthNonce × Stage
  | .idle => (nonce, .called)
  | .called => (nonce, .loaded nonce.highWater)
  | .loaded last => (nonce, .timed last (max x.clock (last + 1)))
  | .timed last next =>
    -- a lost race starts over
    if nonce.highWater = last then ({ nonce with highWater := next }, .won next)
    else (nonce, .called)
  | .won next =>
    if nonce.throttles next x.wall then (nonce, .returned next) else (nonce, .due next x.wall)
  | .due next now =>
    if nonce.isPersisting then (nonce, .returned next)
    else ({ nonce with isPersisting := true }, .holding next now)
  | .holding next now => ({ nonce with lastPersistNs := now }, .stamped next)
  | .stamped next =>
    if x.writes then ({ nonce with file := .holds (render next) }, .written next)
    else ({ nonce with persistErr := true }, .written next)
  | .written next => ({ nonce with isPersisting := false }, .returned next)
  | .returned next => (nonce, .returned next)

/-- A generator with any number of calls on it. -/
abbrev Calls := Threads AuthNonce Stage

/-- A generator nobody has called. -/
def AuthNonce.fresh (nonce : AuthNonce) : Calls := ⟨nonce, fun _ => .idle⟩

/-- One turn of one call. -/
abbrev turn : Calls → ℕ × Outside → Calls := turns next

/-! ## Reading back what was written -/

theorem isSpace_of_isDigit {c : Char} (h : c.isDigit = true) : isSpace c = false := by
  have hrange : 48 ≤ c.toNat ∧ c.toNat ≤ 57 := by
    simpa [Char.isDigit, UInt32.le_iff_toNat_le] using h
  unfold isSpace
  simp only [List.mem_cons, List.not_mem_nil, or_false, decide_eq_false_iff_not]
  omega

/-- Digits and a line feed, without the line feed. -/
theorem trimSpace_digits {digits : List Char} (hd : ∀ c ∈ digits, c.isDigit = true) :
    trimSpace (digits ++ ['\n']) = digits := by
  have hkeep : ∀ {cs : List Char}, (∀ c ∈ cs, c.isDigit = true) → cs.dropWhile isSpace = cs := by
    intro cs hcs
    cases cs with
    | nil => rfl
    | cons c cs =>
      rw [List.dropWhile_cons, isSpace_of_isDigit (hcs c List.mem_cons_self)]
      rfl
  have hnewline : isSpace '\n' = true := by decide
  cases hlist : digits with
  | nil => decide
  | cons c cs =>
    rw [← hlist]
    have hfirst : (digits ++ ['\n']).dropWhile isSpace = digits ++ ['\n'] := by
      rw [List.dropWhile_append, hkeep hd, hlist]
      rfl
    unfold trimSpace
    rw [hfirst, List.reverse_append, List.reverse_singleton, List.singleton_append,
      List.dropWhile_cons_of_pos hnewline,
      hkeep fun c hc => hd c (List.mem_reverse.mp hc), List.reverse_reverse]

/-- What a write leaves is what a restart loads. -/
theorem loadNonce_render {value : Int64} (h : 0 ≤ value.toInt) :
    loadNonce (.holds (render value)) = .ok value := by
  obtain ⟨n, hn⟩ : ∃ n : ℕ, value.toInt = n := ⟨value.toInt.toNat, (Int.toNat_of_nonneg h).symm⟩
  have hbody : (render value).toList = (Nat.repr n).toList ++ ['\n'] := by
    unfold render
    rw [hn, String.toList_append]
    rfl
  have hdigits : ∀ c ∈ (Nat.repr n).toList, c.isDigit = true := by
    intro c hc
    rw [Nat.toList_repr] at hc
    exact Nat.isDigit_of_mem_toDigits (by decide) (by decide) hc
  have hrange := value.toInt_lt
  have hparse : parseInt (trimSpace (render value).toList) = some value := by
    unfold parseInt
    rw [hbody, trimSpace_digits hdigits, atoi_of_digits (atoiDigits_repr n), Option.bind_some,
      Int.ofNat_eq_natCast, ← hn, if_pos ⟨by omega, hrange⟩, Int64.ofInt_toInt]
  have hsign : ¬ value < 0 := by
    rw [Int64.lt_iff_toInt_lt, Int64.toInt_zero]
    omega
  unfold loadNonce
  dsimp only
  rw [hparse]
  exact if_neg hsign

/-- A loaded mark is not negative. -/
theorem loadNonce_nonneg {file : NonceFile} {value : Int64} (h : loadNonce file = .ok value) :
    0 ≤ value.toInt := by
  unfold loadNonce at h
  split at h
  · cases h
    exact Int.le_refl 0
  · cases h
  · split at h
    · cases h
    · split at h
      · cases h
      · rename_i hsign
        cases h
        rw [Int64.lt_iff_toInt_lt, Int64.toInt_zero] at hsign
        omega

/-- A new generator starts at the mark of its file, or right below the wall clock
if that is later. -/
theorem highWater_newAuthNonce {file : NonceFile} {now persisted : Int64} {nonce : AuthNonce}
    (hload : loadNonce file = .ok persisted) (hnew : newAuthNonce file now = .ok nonce) :
    nonce.highWater.toInt = max persisted.toInt (now.toInt - 1) ∧ nonce.file = file ∧
      nonce.isPersisting = false := by
  have hsign := loadNonce_nonneg hload
  have hrange := persisted.toInt_lt
  have hclock := now.toInt_lt
  have hone : Int64.toInt 1 = 1 := by decide
  unfold newAuthNonce at hnew
  rw [hload] at hnew
  cases hnew
  refine ⟨?_, rfl, rfl⟩
  dsimp only
  rw [Int64.toInt_sub, hone]
  by_cases hle : now ≤ persisted
  · rw [if_pos hle, Int64.toInt_add, hone, Int.bmod_sub_bmod, Int.add_sub_cancel,
      Int.bmod_eq_of_le (by omega) (by omega)]
    rw [Int64.le_iff_toInt_le] at hle
    omega
  · rw [if_neg hle, Int.bmod_eq_of_le]
    · rw [Int64.le_iff_toInt_le] at hle
      omega
    · rw [Int64.le_iff_toInt_le] at hle
      omega
    · omega

end Symm.Kraken
