import Mathlib.Data.Rat.Floor

/-!
# shopspring decimals

A decimal is read as the rational it denotes: addition, subtraction,
multiplication and comparison of `shopspring/decimal` are exact, so they are
those of `ℚ`. Only division rounds: `Div` keeps 16 fraction digits and rounds
half away from zero (`DivRound(d2, DivisionPrecision)`). `NewFromFloat` takes a
float64 for the rational it denotes. `Float64` rounds to the nearest float64
(`Lib/Doubles`); where only one value is read, as by a stop, it is taken as exact.

Every property of a rounded quotient below is about one half of the sixteenth digit:
whether the quotient is rounded up (`div_le_iff`), that it does not pass a number of
sixteen digits (`le_div_of_le`), and from which dividend on the quotient, multiplied
back, reaches a bound (`div_mul_lt_iff`). The modules on walks and sizes use these and
do not unfold `div`.
-/

namespace Symm.Broker

abbrev Decimal := ℚ

namespace Decimal

/-- Round to `digits` fraction digits, halves away from zero. -/
def roundHalfAway (x : ℚ) (digits : Nat) : ℚ :=
  let scaled : ℚ := x * 10 ^ digits
  if 0 ≤ scaled then (⌊scaled + 1 / 2⌋ : ℚ) / 10 ^ digits
  else -((⌊-scaled + 1 / 2⌋ : ℚ) / 10 ^ digits)

/-- `Decimal.Div`. -/
def div (a b : ℚ) : ℚ := roundHalfAway (a / b) 16

/-- `Decimal.Truncate(scale)`: drop the digits past `scale`, toward zero. -/
def truncate (x : ℚ) (scale : Nat) : ℚ :=
  let scaled : ℚ := x * 10 ^ scale
  if 0 ≤ scaled then (⌊scaled⌋ : ℚ) / 10 ^ scale else -((⌊-scaled⌋ : ℚ) / 10 ^ scale)

/-- What is dropped of a positive decimal is not added. -/
theorem truncate_le {x : ℚ} (hx : 0 ≤ x) (scale : Nat) : truncate x scale ≤ x := by
  have hpow : (0 : ℚ) < 10 ^ scale := by positivity
  have hscaled : 0 ≤ x * 10 ^ scale := mul_nonneg hx hpow.le
  unfold truncate
  dsimp only
  rw [if_pos hscaled, div_le_iff₀ hpow]
  exact Int.floor_le _

/-- A quotient that is not positive is not rounded to one that is. -/
theorem div_nonpos {a b : ℚ} (ha : a ≤ 0) (hb : 0 < b) : div a b ≤ 0 := by
  have hpow : (0 : ℚ) < 10 ^ 16 := by positivity
  have hscaled : a / b * 10 ^ 16 ≤ 0 :=
    mul_nonpos_of_nonpos_of_nonneg (div_nonpos_of_nonpos_of_nonneg ha hb.le) hpow.le
  unfold div roundHalfAway
  dsimp only
  split
  · rename_i hnonneg
    have hzero : a / b * 10 ^ 16 = 0 := le_antisymm hscaled hnonneg
    rw [hzero]
    norm_num
  · have hfloor : (0 : ℚ) ≤ ⌊-(a / b * 10 ^ 16) + 1 / 2⌋ := by
      exact_mod_cast Int.floor_nonneg.mpr (by linarith)
    exact neg_nonpos.mpr (div_nonneg hfloor hpow.le)

/-- A quotient that is rounded to a positive number is rounded to one of sixteen digits. -/
theorem le_div_of_pos {a b : ℚ} (h : 0 < div a b) : 1 / 10 ^ 16 ≤ div a b := by
  have hpow : (0 : ℚ) < 10 ^ 16 := by positivity
  unfold div roundHalfAway at h ⊢
  dsimp only at h ⊢
  split
  · rename_i hnonneg
    rw [if_pos hnonneg, div_pos_iff_of_pos_right hpow] at h
    have hone : 1 ≤ ⌊a / b * 10 ^ 16 + 1 / 2⌋ := by exact_mod_cast h
    rw [div_le_div_iff_of_pos_right hpow]
    exact_mod_cast hone
  · rename_i hneg
    rw [if_neg hneg] at h
    have hfloor : (0 : ℚ) ≤ ⌊-(a / b * 10 ^ 16) + 1 / 2⌋ := by
      exact_mod_cast Int.floor_nonneg.mpr (by linarith)
    exact absurd h (not_lt.mpr (neg_nonpos.mpr (div_nonneg hfloor hpow.le)))

/-! ## Where a quotient is rounded to -/

section Quotient

variable {a b : ℚ} (ha : 0 ≤ a) (hb : 0 < b)

include ha hb

/-- A quotient that is not negative is rounded by its floor. -/
theorem div_eq : div a b = (⌊a / b * 10 ^ 16 + 1 / 2⌋ : ℚ) / 10 ^ 16 := by
  have hscaled : 0 ≤ a / b * 10 ^ 16 := by positivity
  simp only [div, roundHalfAway, if_pos hscaled]

/-- A quotient is not rounded up exactly when its seventeenth digit is below
five. -/
theorem div_le_iff : div a b ≤ a / b ↔ Int.fract (a / b * 10 ^ 16) < 1 / 2 := by
  rw [div_eq ha hb, div_le_iff₀ (by positivity : (0 : ℚ) < 10 ^ 16)]
  generalize a / b * 10 ^ 16 = x
  calc (⌊x + 1 / 2⌋ : ℚ) ≤ x ↔ ⌊x + 1 / 2⌋ ≤ ⌊x⌋ := Int.le_floor.symm
    _ ↔ ⌊x + 1 / 2⌋ < ⌊x⌋ + 1 := Int.lt_add_one_iff.symm
    _ ↔ x + 1 / 2 < (⌊x⌋ : ℚ) + 1 := by rw [Int.floor_lt, Int.cast_add, Int.cast_one]
    _ ↔ Int.fract x < 1 / 2 := by
      rw [Int.fract]
      constructor <;> intro h <;> linarith

/-- Rounding does not pass a number of sixteen digits. -/
theorem le_div_of_le {n : ℤ} (h : (n : ℚ) / 10 ^ 16 ≤ a / b) : (n : ℚ) / 10 ^ 16 ≤ div a b := by
  have hscaled : (n : ℚ) ≤ a / b * 10 ^ 16 := (div_le_iff₀ (by positivity)).mp h
  have hfloor : n ≤ ⌊a / b * 10 ^ 16 + 1 / 2⌋ := Int.le_floor.mpr (by linarith)
  rw [div_eq ha hb]
  gcongr

/-- The rounded quotient, multiplied back, stays below a bound exactly when the
dividend is below half a unit of the sixteenth digit under the least quotient
that reaches the bound. -/
theorem div_mul_lt_iff (c : ℚ) :
    div a b * b < c ↔ a < b * (((⌈c / b * 10 ^ 16⌉ : ℚ) - 1 / 2) / 10 ^ 16) := by
  have hpow : (0 : ℚ) < 10 ^ 16 := by positivity
  rw [div_eq ha hb]
  generalize hn : ⌊a / b * 10 ^ 16 + 1 / 2⌋ = n
  calc (n : ℚ) / 10 ^ 16 * b < c ↔ (n : ℚ) < c / b * 10 ^ 16 := by
        rw [← lt_div_iff₀ hb, div_lt_iff₀ hpow]
    _ ↔ n < ⌈c / b * 10 ^ 16⌉ := Int.lt_ceil.symm
    _ ↔ a / b * 10 ^ 16 + 1 / 2 < (⌈c / b * 10 ^ 16⌉ : ℚ) := by rw [← hn, Int.floor_lt]
    _ ↔ a / b < ((⌈c / b * 10 ^ 16⌉ : ℚ) - 1 / 2) / 10 ^ 16 := by
      rw [lt_div_iff₀ hpow, lt_sub_iff_add_lt]
    _ ↔ _ := by rw [div_lt_iff₀ hb, mul_comm]

end Quotient

example : div 1 3 = 3333333333333333 / 10 ^ 16 := by decide +kernel

end Decimal

end Symm.Broker
