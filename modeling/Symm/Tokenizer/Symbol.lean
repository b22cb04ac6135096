import Mathlib.Data.List.Basic
import Mathlib.Data.Int.Basic

/-!
# Grammar symbols

A symbol is one string: a terminal such as `R08`, or an internal rule reference
made of a reserved prefix and the decimal rule id. Outside the grammar a
reference is displayed as `M` and the id. `int` is read as unbounded here, as
everywhere in the tokenizer: ids count rules that are held in memory.

- `ruleSymbol`, `ruleID`: the internal form and its parser;
- `RuleRef`, `displayRuleID`, `parseDisplay`: the display form and its parser;
- `parseDisplay_ruleRef`, `parseDisplay_plain`: what is displayed is read back.

The two parsers accept more than the two writers produce: `Atoi` takes a sign and
leading zeros. So a round trip is stated from the id, and the other way round only for
texts that are `Plain`: a terminal that looks like a displayed reference is read as one,
which is where clients can be misunderstood (`Tokenizer.Views`).
-/

namespace Symm.Tokenizer

/-- One terminal string or an internal rule reference. -/
abbrev Symbol := String

def rulePrefix : String := "\x00rule:"

def ruleSymbol (id : ℕ) : Symbol := rulePrefix ++ toString id

/-! ## Decimal numbers -/

/-- The digits of `strconv.Atoi`, after the sign. -/
def atoiDigits (ds : List Char) : Option ℕ :=
  if ds ≠ [] ∧ ds.all Char.isDigit then some (Nat.ofDigitChars 10 ds 0) else none

/-- `strconv.Atoi`: an optional sign and at least one decimal digit. -/
def atoi : List Char → Option ℤ
  | '-' :: ds => (atoiDigits ds).map fun n => -Int.ofNat n
  | '+' :: ds => (atoiDigits ds).map Int.ofNat
  | ds => (atoiDigits ds).map Int.ofNat

/-- `id, err := strconv.Atoi(raw)`, refused when `err != nil || id <= 0`. -/
def positiveID (raw : List Char) : Option ℕ :=
  match atoi raw with
  | none => none
  | some id => if id ≤ 0 then none else some id.toNat

/-- A number is read back from its digits. -/
theorem atoiDigits_repr (id : ℕ) : atoiDigits (Nat.repr id).toList = some id := by
  rw [Nat.toList_repr, atoiDigits, if_pos, Nat.ofDigitChars_ten_toDigits]
  refine ⟨Nat.toDigits_ne_nil, List.all_eq_true.mpr fun c hc => ?_⟩
  exact Nat.isDigit_of_mem_toDigits (by decide) (by decide) hc

theorem atoi_of_digits {ds : List Char} {id : ℕ} (h : atoiDigits ds = some id) :
    atoi ds = some (Int.ofNat id) := by
  unfold atoi
  split
  · rw [atoiDigits, if_neg] at h
    · cases h
    · simp
  · rw [atoiDigits, if_neg] at h
    · cases h
    · simp
  · rw [h, Option.map_some]

/-- A positive id is read back from its text. -/
theorem positiveID_repr {id : ℕ} (h : 0 < id) : positiveID (Nat.repr id).toList = some id := by
  have hpos : ¬ Int.ofNat id ≤ 0 := by
    rw [Int.ofNat_eq_natCast]
    omega
  rw [positiveID, atoi_of_digits (atoiDigits_repr id)]
  exact if_neg hpos

/-! ## Internal references -/

def ruleID (sym : Symbol) : Option ℕ :=
  if rulePrefix.toList <+: sym.toList then positiveID (sym.toList.drop rulePrefix.length)
  else none

/-- A string a client may feed: it does not start with the reserved prefix. -/
def Plain (token : String) : Prop := ¬ rulePrefix.toList <+: token.toList

instance (token : String) : Decidable (Plain token) :=
  inferInstanceAs (Decidable (¬ _))

theorem prefix_ruleSymbol (id : ℕ) : rulePrefix.toList <+: (ruleSymbol id).toList := by
  rw [ruleSymbol, String.toList_append]
  exact List.prefix_append _ _

@[simp] theorem ruleID_ruleSymbol {id : ℕ} (h : 0 < id) : ruleID (ruleSymbol id) = some id := by
  rw [ruleID, if_pos (prefix_ruleSymbol id), ruleSymbol, String.toList_append]
  exact positiveID_repr h

theorem ruleID_plain {token : String} (h : Plain token) : ruleID token = none := if_neg h

theorem Plain.ne_ruleSymbol {token : String} (h : Plain token) (id : ℕ) :
    token ≠ ruleSymbol id := by
  rintro rfl
  exact h (prefix_ruleSymbol id)

/-- Rule symbols tell their rules. -/
theorem ruleSymbol_injective : Function.Injective ruleSymbol := by
  intro a b h
  have hlist := congrArg String.toList h
  rw [ruleSymbol, ruleSymbol, String.toList_append, String.toList_append] at hlist
  have hdigits : (Nat.repr a).toList = (Nat.repr b).toList := List.append_cancel_left hlist
  have hread := atoiDigits_repr a
  rw [hdigits, atoiDigits_repr b] at hread
  exact (Option.some.inj hread).symm

theorem ruleSymbol_ne_empty (id : ℕ) : ruleSymbol id ≠ "" := by
  intro h
  have := prefix_ruleSymbol id
  rw [h] at this
  revert this
  decide

/-! ## Displayed references -/

/-- The display form of a rule symbol: M1, M2, … -/
def RuleRef (id : ℕ) : String := if id = 0 then "S" else "M" ++ toString id

/-- A symbol as clients see it. -/
def display (sym : Symbol) : String :=
  match ruleID sym with
  | some id => RuleRef id
  | none => sym

def displayRuleID (symbol : String) : Option ℕ :=
  match symbol.toList with
  | 'M' :: digits => positiveID digits
  | _ => none

def parseDisplay (symbol : String) : Symbol :=
  match displayRuleID symbol with
  | some id => ruleSymbol id
  | none => symbol

/-- A displayed reference gives its rule back. -/
theorem displayRuleID_ruleRef {id : ℕ} (h : 0 < id) : displayRuleID (RuleRef id) = some id := by
  rw [RuleRef, if_neg (by omega), displayRuleID, String.toList_append]
  exact positiveID_repr h

theorem display_plain {token : String} (h : Plain token) : display token = token := by
  rw [display, ruleID_plain h]

theorem display_ruleSymbol {id : ℕ} (h : 0 < id) : display (ruleSymbol id) = RuleRef id := by
  rw [display, ruleID_ruleSymbol h]

theorem parseDisplay_ruleRef {id : ℕ} (h : 0 < id) :
    parseDisplay (RuleRef id) = ruleSymbol id := by
  rw [parseDisplay, displayRuleID_ruleRef h]

/-- A terminal that does not look like a displayed reference is read back. -/
theorem parseDisplay_plain {token : String} (h : displayRuleID token = none) :
    parseDisplay token = token := by
  rw [parseDisplay, h]

/-- No displayed reference is the empty string. -/
theorem RuleRef_ne_empty (id : ℕ) : RuleRef id ≠ "" := by
  unfold RuleRef
  split
  · decide
  · intro h
    have := congrArg String.toList h
    rw [String.toList_append] at this
    cases this

end Symm.Tokenizer
