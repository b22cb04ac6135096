import Symm.Lib.Float64
import Mathlib.Algebra.Order.Field.Power
import Mathlib.Tactic.Linarith
import Mathlib.Tactic.NormNum
import Mathlib.Tactic.Positivity

/-!
# Arithmetic on numbers of 64 bits

An operation gives the exact result, rounded to the nearest number of 64 bits. So a sum
depends on the order of its terms, and a number that is none compares with nothing.

- `nearest`: rounding without an upper end, which keeps the order (`nearest_le_nearest`),
  the sign and the powers of two;
- `double`, `ofInt`, `add`, `sub`, `div`, `lt`, `le`: the operations of a language with such
  numbers;
- `total`, `average`: a loop that adds up a list from the left, and its quotient by the
  length;
- `lt_two_mul_of_half_lt`: what the quotient of two counts says about the counts.

Rounding is to nearest, with ties to even, on the grid of the exponent of the number;
below the smallest exponent the grid stays. The operations round once, after computing
exactly.
-/

namespace Symm.Lib

/-! ## Powers of two -/

theorem two_zpow_pos (e : ℤ) : (0 : ℚ) < 2 ^ e := zpow_pos two_pos e

theorem two_zpow_le_iff {e e' : ℤ} : (2 : ℚ) ^ e ≤ 2 ^ e' ↔ e ≤ e' :=
  zpow_le_zpow_iff_right₀ one_lt_two

theorem two_zpow_lt_iff {e e' : ℤ} : (2 : ℚ) ^ e < 2 ^ e' ↔ e < e' :=
  zpow_lt_zpow_iff_right₀ one_lt_two

theorem two_zpow_add_one (e : ℤ) : (2 : ℚ) ^ (e + 1) = 2 * 2 ^ e := by
  rw [zpow_add_one₀ two_ne_zero, mul_comm]

/-- A natural number lies between two powers of two. -/
theorem two_zpow_log2_le {n : ℕ} (hn : n ≠ 0) : (2 : ℚ) ^ (n.log2 : ℤ) ≤ n := by
  rw [zpow_natCast]
  exact_mod_cast Nat.log2_self_le hn

/-- The logarithm is rounded down: one more bit is enough. -/
theorem lt_two_zpow_log2 (n : ℕ) : (n : ℚ) < 2 ^ ((n.log2 : ℤ) + 1) := by
  have hlt : n < 2 ^ (n.log2 + 1) := Nat.lt_log2_self
  rw [show ((n.log2 : ℤ) + 1) = ((n.log2 + 1 : ℕ) : ℤ) by push_cast; rfl, zpow_natCast]
  exact_mod_cast hlt

/-- Between two powers of two lies every positive number. -/
theorem floorLog2_bounds {q : ℚ} (hq : 0 < q) :
    (2 : ℚ) ^ floorLog2 q ≤ q ∧ q < 2 ^ (floorLog2 q + 1) := by
  have hnum : q.num.natAbs ≠ 0 := Int.natAbs_ne_zero.mpr (Rat.num_pos.mpr hq).ne'
  have hden : (0 : ℚ) < q.den := by exact_mod_cast q.den_pos
  have hq' : q = (q.num.natAbs : ℚ) / q.den := by
    have habs : ((q.num.natAbs : ℤ) : ℚ) = q.num := by
      rw [Int.natAbs_of_nonneg (Rat.num_pos.mpr hq).le]
    rw [← Int.cast_natCast, habs, Rat.num_div_den]
  set a : ℤ := (q.num.natAbs.log2 : ℤ)
  set b : ℤ := (q.den.log2 : ℤ)
  -- the logarithms of numerator and denominator leave two candidates
  have hlow : (2 : ℚ) ^ (a - b - 1) ≤ q := by
    rw [hq', le_div_iff₀ hden]
    calc (2 : ℚ) ^ (a - b - 1) * q.den ≤ 2 ^ (a - b - 1) * 2 ^ (b + 1) :=
          mul_le_mul_of_nonneg_left (lt_two_zpow_log2 q.den).le (two_zpow_pos _).le
      _ = 2 ^ a := by rw [← zpow_add₀ two_ne_zero]; congr 1; ring
      _ ≤ q.num.natAbs := two_zpow_log2_le hnum
  have hhigh : q < 2 ^ (a - b + 1) := by
    rw [hq', div_lt_iff₀ hden]
    calc (q.num.natAbs : ℚ) < 2 ^ (a + 1) := lt_two_zpow_log2 _
      _ = 2 ^ (a - b + 1) * 2 ^ b := by rw [← zpow_add₀ two_ne_zero]; congr 1; ring
      _ ≤ 2 ^ (a - b + 1) * q.den :=
          mul_le_mul_of_nonneg_left (two_zpow_log2_le q.den_nz) (two_zpow_pos _).le
  -- the test picks the one that is below
  show (2 : ℚ) ^ (if (2 : ℚ) ^ (a - b) ≤ q then a - b else a - b - 1) ≤ q ∧
    q < 2 ^ ((if (2 : ℚ) ^ (a - b) ≤ q then a - b else a - b - 1) + 1)
  split
  · rename_i hle
    exact ⟨hle, hhigh⟩
  · rename_i hlt
    rw [sub_add_cancel]
    exact ⟨hlow, not_le.mp hlt⟩

theorem floorLog2_eq {q : ℚ} {e : ℤ} (hle : 2 ^ e ≤ q) (hlt : q < 2 ^ (e + 1)) :
    floorLog2 q = e := by
  obtain ⟨hle', hlt'⟩ := floorLog2_bounds ((two_zpow_pos e).trans_le hle)
  have h1 : floorLog2 q < e + 1 := two_zpow_lt_iff.mp (hle'.trans_lt hlt)
  have h2 : e < floorLog2 q + 1 := two_zpow_lt_iff.mp (hle.trans_lt hlt')
  omega

/-- A greater number has no smaller exponent. -/
theorem floorLog2_mono {q q' : ℚ} (hq : 0 < q) (h : q ≤ q') : floorLog2 q ≤ floorLog2 q' := by
  have hle := (floorLog2_bounds hq).1
  have hlt := (floorLog2_bounds (hq.trans_le h)).2
  exact Int.lt_add_one_iff.mp (two_zpow_lt_iff.mp ((hle.trans h).trans_lt hlt))

@[simp] theorem floorLog2_two_zpow (e : ℤ) : floorLog2 (2 ^ e) = e :=
  floorLog2_eq le_rfl (two_zpow_lt_iff.mpr (lt_add_one e))

/-- Doubling adds one to the exponent. -/
theorem floorLog2_two_mul {q : ℚ} (hq : 0 < q) : floorLog2 (2 * q) = floorLog2 q + 1 := by
  obtain ⟨hle, hlt⟩ := floorLog2_bounds hq
  refine floorLog2_eq ?_ ?_
  · rw [two_zpow_add_one]
    linarith
  · rw [two_zpow_add_one]
    linarith

/-! ## Rounding to an integer -/

/-- Rounding to even goes to one of the two integers next to a number. -/
theorem floor_le_roundEven (q : ℚ) : ⌊q⌋ ≤ roundEven q := by
  unfold roundEven
  dsimp only
  split
  · exact le_rfl
  · exact (lt_add_one _).le

theorem roundEven_le_floor_add_one (q : ℚ) : roundEven q ≤ ⌊q⌋ + 1 := by
  unfold roundEven
  dsimp only
  split
  · exact (lt_add_one _).le
  · exact le_rfl

@[simp] theorem roundEven_intCast (n : ℤ) : roundEven n = n := by
  simp [roundEven]

/-- It keeps the order: where it goes up for one number it does for all greater ones. -/
theorem roundEven_mono {q q' : ℚ} (h : q ≤ q') : roundEven q ≤ roundEven q' := by
  rcases (Int.floor_mono h).lt_or_eq with hlt | heq
  · exact (roundEven_le_floor_add_one q).trans
      ((Int.add_one_le_iff.mpr hlt).trans (floor_le_roundEven q'))
  · -- the same floor: what is rounded up leaves the larger rest
    unfold roundEven
    dsimp only
    rw [heq]
    split
    · split
      · exact le_rfl
      · exact (lt_add_one _).le
    · rename_i hup
      rw [if_neg]
      intro hdown
      refine hup ?_
      rcases hdown with hdown | ⟨hhalf, heven⟩
      · exact .inl (by linarith)
      · rcases (show q - ⌊q'⌋ ≤ 1 / 2 by linarith).lt_or_eq with hlt | heq'
        · exact .inl hlt
        · exact .inr ⟨heq', heven⟩

/-! ## Rounding to a number -/

section Nearest

variable (bits least : ℤ)

/-- What the last bit of a number is worth. -/
def unitOf (q : ℚ) : ℚ := 2 ^ max (floorLog2 |q| - bits) least

/-- The nearest number with one bit more than `bits`, none of them worth less than
`2 ^ least`. -/
def nearest (q : ℚ) : ℚ := roundEven (q / unitOf bits least q) * unitOf bits least q

theorem unitOf_pos (q : ℚ) : 0 < unitOf bits least q := two_zpow_pos _

@[simp] theorem nearest_zero : nearest bits least 0 = 0 := by
  have hzero : roundEven 0 = 0 := roundEven_intCast 0
  rw [nearest, zero_div, hzero, Int.cast_zero, zero_mul]

/-- What the rounding of a number text gives is the nearest double, unless that is too
large. -/
theorem roundFloat_eq (most : ℤ) (q : ℚ) :
    roundFloat bits least most q =
      if |nearest bits least q| < 2 ^ most then some (nearest bits least q) else none := by
  unfold roundFloat
  split
  · rename_i hq
    rw [hq, nearest_zero, abs_zero, if_pos (two_zpow_pos most)]
  · rfl

/-- Rounding changes no sign. -/
theorem nearest_nonneg {q : ℚ} (hq : 0 ≤ q) : 0 ≤ nearest bits least q := by
  have hround : roundEven 0 ≤ roundEven (q / unitOf bits least q) :=
    roundEven_mono (div_nonneg hq (unitOf_pos bits least q).le)
  have hzero : roundEven 0 = 0 := roundEven_intCast 0
  rw [hzero] at hround
  exact mul_nonneg (by exact_mod_cast hround) (unitOf_pos bits least q).le

theorem nearest_nonpos {q : ℚ} (hq : q ≤ 0) : nearest bits least q ≤ 0 := by
  have hround : roundEven (q / unitOf bits least q) ≤ roundEven 0 :=
    roundEven_mono (div_nonpos_of_nonpos_of_nonneg hq (unitOf_pos bits least q).le)
  have hzero : roundEven 0 = 0 := roundEven_intCast 0
  rw [hzero] at hround
  exact mul_nonpos_of_nonpos_of_nonneg (by exact_mod_cast hround) (unitOf_pos bits least q).le

variable {bits least} {q x : ℚ}

/-- A number on the grid of a rational below it is not rounded past. -/
theorem le_nearest (hx : ∃ m : ℤ, x = m * unitOf bits least q) (h : x ≤ q) :
    x ≤ nearest bits least q := by
  obtain ⟨m, rfl⟩ := hx
  have hunit := unitOf_pos bits least q
  have hround := roundEven_mono ((le_div_iff₀ hunit).mpr h)
  rw [roundEven_intCast] at hround
  exact mul_le_mul_of_nonneg_right (by exact_mod_cast hround) hunit.le

theorem nearest_le (hx : ∃ m : ℤ, x = m * unitOf bits least q) (h : q ≤ x) :
    nearest bits least q ≤ x := by
  obtain ⟨m, rfl⟩ := hx
  have hunit := unitOf_pos bits least q
  have hround := roundEven_mono ((div_le_iff₀ hunit).mpr h)
  rw [roundEven_intCast] at hround
  exact mul_le_mul_of_nonneg_right (by exact_mod_cast hround) hunit.le

/-- A power of two is on every grid that is not coarser. -/
theorem two_zpow_on_grid {e : ℤ} (h : max (floorLog2 |q| - bits) least ≤ e) :
    ∃ m : ℤ, (2 : ℚ) ^ e = m * unitOf bits least q := by
  obtain ⟨k, hk⟩ := Int.eq_ofNat_of_zero_le (sub_nonneg.mpr h)
  refine ⟨2 ^ k, ?_⟩
  unfold unitOf
  push_cast
  rw [← zpow_natCast, ← zpow_add₀ two_ne_zero]
  congr 1
  omega

/-- Rounding keeps the order. -/
theorem nearest_le_nearest (hbits : 0 ≤ bits) {q' : ℚ} (hq : 0 ≤ q) (h : q ≤ q') :
    nearest bits least q ≤ nearest bits least q' := by
  rcases hq.eq_or_lt with rfl | hq
  · rw [nearest_zero]
    exact nearest_nonneg bits least h
  have hq' := hq.trans_le h
  have hexp := floorLog2_mono hq h
  by_cases hgrid : max (floorLog2 |q| - bits) least = max (floorLog2 |q'| - bits) least
  · -- one grid for both
    have hunit : unitOf bits least q = unitOf bits least q' := by
      unfold unitOf
      rw [hgrid]
    have hround := roundEven_mono (div_le_div_of_nonneg_right h (unitOf_pos bits least q').le)
    unfold nearest
    rw [hunit]
    exact mul_le_mul_of_nonneg_right (by exact_mod_cast hround) (unitOf_pos bits least q').le
  · -- a power of two lies between, on both grids
    rw [abs_of_pos hq, abs_of_pos hq'] at hgrid
    have hlt : floorLog2 q < floorLog2 q' := by omega
    calc nearest bits least q ≤ 2 ^ floorLog2 q' := by
          refine nearest_le (two_zpow_on_grid ?_) ?_
          · rw [abs_of_pos hq]
            omega
          · exact (floorLog2_bounds hq).2.le.trans (two_zpow_le_iff.mpr hlt)
      _ ≤ nearest bits least q' := by
          refine le_nearest (two_zpow_on_grid ?_) (floorLog2_bounds hq').1
          rw [abs_of_pos hq']
          omega

/-- A power of two is a number of the format. -/
theorem nearest_two_zpow (hbits : 0 ≤ bits) {e : ℤ} (he : least ≤ e) :
    nearest bits least (2 ^ e) = 2 ^ e := by
  have hgrid : max (floorLog2 |(2 : ℚ) ^ e| - bits) least ≤ e := by
    rw [abs_of_pos (two_zpow_pos e), floorLog2_two_zpow]
    omega
  exact le_antisymm (nearest_le (two_zpow_on_grid hgrid) le_rfl)
    (le_nearest (two_zpow_on_grid hgrid) le_rfl)

/-- Away from the least number, doubling commutes with rounding. -/
theorem nearest_two_mul (hq : 0 < q) (h : least ≤ floorLog2 q - bits) :
    nearest bits least (2 * q) = 2 * nearest bits least q := by
  have hunit : unitOf bits least (2 * q) = 2 * unitOf bits least q := by
    unfold unitOf
    rw [abs_of_pos hq, abs_of_pos (mul_pos two_pos hq), floorLog2_two_mul hq, ← two_zpow_add_one]
    congr 1
    omega
  unfold nearest
  rw [hunit, mul_div_mul_left _ _ two_ne_zero]
  ring

end Nearest

/-! ## Operations -/

namespace Floating

/-- The number of 64 bits nearest to a rational. -/
def double (q : ℚ) : Floating := of toFloat64 q

/-- The constant `0.8`, which is a little above four fifths. -/
def eightTenths : ℚ := 3602879701896397 / 4503599627370496

example : double (4 / 5) = .finite eightTenths := by decide +kernel

/-- The conversion of an integer, which has too few digits to overflow. -/
def ofInt (n : ℤ) : Floating := .finite (nearest 52 (-1074) n)

def neg : Floating → Floating
  | .finite a => .finite (-a)
  | .infinite negative => .infinite !negative
  | .nan => .nan

def add : Floating → Floating → Floating
  | .finite a, .finite b => double (a + b)
  | .infinite negative, .finite _ => .infinite negative
  | .finite _, .infinite negative => .infinite negative
  | .infinite negative, .infinite negative' =>
    if negative = negative' then .infinite negative else .nan
  | _, _ => .nan

def sub (a b : Floating) : Floating := a.add b.neg

/-- A quotient; a divisor of zero is a positive zero. -/
def div : Floating → Floating → Floating
  | .finite a, .finite b =>
    if b ≠ 0 then double (a / b) else if a = 0 then .nan else .infinite (decide (a < 0))
  | .infinite negative, .finite b => .infinite (negative ^^ decide (b < 0))
  | .finite _, .infinite _ => .finite 0
  | _, _ => .nan

/-- The comparison `a < b`. -/
def lt : Floating → Floating → Bool
  | .finite a, .finite b => a < b
  | .infinite negative, .finite _ => negative
  | .finite _, .infinite negative => !negative
  | .infinite negative, .infinite negative' => negative && !negative'
  | _, _ => false

/-- The comparison `a <= b`. -/
def le : Floating → Floating → Bool
  | .finite a, .finite b => a ≤ b
  | .infinite negative, .finite _ => negative
  | .finite _, .infinite negative => !negative
  | .infinite negative, .infinite negative' => negative || !negative'
  | _, _ => false

/-- What a loop over a list adds up. -/
def total (numbers : List Floating) : Floating := numbers.foldl add (.finite 0)

/-- The sum of a list by its length. -/
def average (numbers : List Floating) : Floating := (total numbers).div (ofInt numbers.length)

/-! ### Rounding an operation -/

/-- In range, a number becomes the nearest double. -/
theorem double_of_lt {q : ℚ} (h : |nearest 52 (-1074) q| < 2 ^ (1024 : ℤ)) :
    double q = .finite (nearest 52 (-1074) q) := by
  unfold double of toFloat64
  rw [roundFloat_eq, if_pos h]

/-- Out of range, it becomes an infinity of its sign. -/
theorem double_of_not_lt {q : ℚ} (h : ¬ |nearest 52 (-1074) q| < 2 ^ (1024 : ℤ)) :
    double q = .infinite (decide (q < 0)) := by
  unfold double of toFloat64
  rw [roundFloat_eq, if_neg h]

theorem double_cases (q : ℚ) :
    double q = .finite (nearest 52 (-1074) q) ∨ double q = .infinite (decide (q < 0)) := by
  by_cases h : |nearest 52 (-1074) q| < 2 ^ (1024 : ℤ)
  · exact .inl (double_of_lt h)
  · exact .inr (double_of_not_lt h)

theorem double_ne_nan (q : ℚ) : double q ≠ .nan := by
  rcases double_cases q with h | h <;> rw [h] <;> exact nofun

/-- Up to a power of two that is a number, what is not negative is rounded to a number up
to it. -/
theorem double_of_le {q : ℚ} {e : ℤ} (hq : 0 ≤ q) (hle : q ≤ 2 ^ e) (hleast : -1074 ≤ e)
    (hmost : e < 1024) :
    double q = .finite (nearest 52 (-1074) q) ∧ nearest 52 (-1074) q ≤ 2 ^ e := by
  have hnearest : nearest 52 (-1074) q ≤ 2 ^ e := by
    rw [← nearest_two_zpow (by decide : (0 : ℤ) ≤ 52) hleast]
    exact nearest_le_nearest (by decide) hq hle
  refine ⟨double_of_lt ?_, hnearest⟩
  rw [abs_of_nonneg (nearest_nonneg _ _ hq)]
  exact hnearest.trans_lt (two_zpow_lt_iff.mpr hmost)

/-- A positive double comes from a positive number. -/
theorem pos_of_lt_double {q : ℚ} (h : lt (.finite 0) (double q) = true) : 0 < q := by
  by_contra hq
  rw [not_lt] at hq
  rcases double_cases q with hd | hd
  · rw [hd] at h
    exact absurd (of_decide_eq_true h) (not_lt.mpr (nearest_nonpos _ _ hq))
  · rcases hq.lt_or_eq with hneg | rfl
    · rw [hd, decide_eq_true hneg] at h
      cases h
    · rw [double_of_lt (by rw [nearest_zero, abs_zero]; exact two_zpow_pos _)] at hd
      cases hd

/-- But only a number that is no smaller than the least positive double gives one for sure.
-/
theorem lt_double_of_pos {q : ℚ} (h : 2 ^ (-1074 : ℤ) ≤ q) :
    lt (.finite 0) (double q) = true := by
  have hq : 0 < q := (two_zpow_pos _).trans_le h
  have hnearest : (2 : ℚ) ^ (-1074 : ℤ) ≤ nearest 52 (-1074) q := by
    rw [← nearest_two_zpow (by decide : (0 : ℤ) ≤ 52) (le_refl (-1074 : ℤ))]
    exact nearest_le_nearest (by decide) (two_zpow_pos _).le h
  rcases double_cases q with hd | hd
  · rw [hd]
    exact decide_eq_true ((two_zpow_pos _).trans_le hnearest)
  · rw [hd, decide_eq_false (not_lt.mpr hq.le)]
    rfl

/-! ### Comparing -/

/-- What compares is a number. -/
theorem ne_nan_of_le {a b : Floating} (h : a.le b = true) : a ≠ .nan ∧ b ≠ .nan := by
  refine ⟨?_, ?_⟩
  · rintro rfl
    cases h
  · rintro rfl
    cases a <;> cases h

@[simp] theorem lt_nan (a : Floating) : a.lt .nan = false := by
  cases a <;> rfl

/-- Numbers that are some are in order. -/
theorem lt_eq_false_iff {a b : Floating} (ha : a ≠ .nan) (hb : b ≠ .nan) :
    a.lt b = false ↔ b.le a = true := by
  cases a with
  | nan => exact absurd rfl ha
  | finite x =>
    cases b with
    | nan => exact absurd rfl hb
    | finite y => simp [lt, le]
    | infinite negative => cases negative <;> simp [lt, le]
  | infinite negative =>
    cases b with
    | nan => exact absurd rfl hb
    | finite y => cases negative <;> simp [lt, le]
    | infinite negative' => cases negative <;> cases negative' <;> decide

/-! ### Sums -/

/-- A finite number turns no number into none. -/
theorem add_finite_ne_nan {a : Floating} (h : a ≠ .nan) (q : ℚ) : a.add (.finite q) ≠ .nan := by
  cases a with
  | nan => exact absurd rfl h
  | finite x => exact double_ne_nan _
  | infinite negative => exact nofun

/-- A sum of finite numbers may grow past all of them, but it is some number. -/
theorem foldl_add_ne_nan {numbers : List Floating} (h : ∀ a ∈ numbers, ∃ q, a = .finite q) :
    ∀ {start : Floating}, start ≠ .nan → numbers.foldl add start ≠ .nan := by
  induction numbers with
  | nil => exact fun hstart => hstart
  | cons a rest ih =>
    intro start hstart
    obtain ⟨q, rfl⟩ := h a List.mem_cons_self
    exact ih (fun b hb => h b (List.mem_cons_of_mem _ hb)) (add_finite_ne_nan hstart q)

theorem total_ne_nan {numbers : List Floating} (h : ∀ a ∈ numbers, ∃ q, a = .finite q) :
    total numbers ≠ .nan := foldl_add_ne_nan h nofun

/-! ### Counts -/

/-- A positive count is one at least, rounded too. -/
theorem one_le_nearest {n : ℕ} (hn : 0 < n) : 1 ≤ nearest 52 (-1074) n := by
  have hone : (2 : ℚ) ^ (0 : ℤ) = 1 := zpow_zero 2
  rw [← hone, ← nearest_two_zpow (by decide : (0 : ℤ) ≤ 52) (by decide : (-1074 : ℤ) ≤ 0)]
  refine nearest_le_nearest (by decide) (two_zpow_pos _).le ?_
  rw [hone]
  exact_mod_cast hn

theorem ofInt_natCast (n : ℕ) : ofInt n = .finite (nearest 52 (-1074) n) := by
  rw [ofInt, Int.cast_natCast]

/-- Nor does a count that is not zero. -/
theorem div_ofInt_ne_nan {a : Floating} (h : a ≠ .nan) {n : ℕ} (hn : 0 < n) :
    a.div (ofInt n) ≠ .nan := by
  have hlen := one_le_nearest hn
  rw [ofInt_natCast]
  cases a with
  | nan => exact absurd rfl h
  | infinite negative => exact nofun
  | finite x =>
    show (if _ then _ else _ : Floating) ≠ _
    rw [if_pos (by linarith : nearest 52 (-1074) (n : ℚ) ≠ 0)]
    exact double_ne_nan _

theorem average_ne_nan {numbers : List Floating} (hne : numbers ≠ [])
    (h : ∀ a ∈ numbers, ∃ q, a = .finite q) : average numbers ≠ .nan :=
  div_ofInt_ne_nan (total_ne_nan h) (List.length_pos_iff.mpr hne)

/-- The share of a part is above a half only if the part is more than half of the whole. -/
theorem lt_two_mul_of_half_lt {part whole : ℕ}
    (h : lt (.finite (1 / 2)) (div (ofInt part) (ofInt whole)) = true) : whole < 2 * part := by
  by_contra hle
  rw [not_lt] at hle
  rw [ofInt_natCast, ofInt_natCast] at h
  rcases Nat.eq_zero_or_pos whole with rfl | hwhole
  · obtain rfl : part = 0 := by omega
    simp [div, lt] at h
  · have hlen := one_le_nearest hwhole
    have hpart := nearest_nonneg 52 (-1074) (Nat.cast_nonneg (α := ℚ) part)
    -- rounding keeps the order, and doubling commutes with it
    have htwice : 2 * nearest 52 (-1074) (part : ℚ) ≤ nearest 52 (-1074) (whole : ℚ) := by
      rcases Nat.eq_zero_or_pos part with rfl | hpos
      · rw [Nat.cast_zero, nearest_zero, mul_zero]
        linarith
      · have hcast : (0 : ℚ) < part := by exact_mod_cast hpos
        have hone : (1 : ℚ) ≤ part := by exact_mod_cast hpos
        have hlog : 0 ≤ floorLog2 (part : ℚ) := by
          rw [← zpow_zero (2 : ℚ)] at hone
          have hmono := floorLog2_mono (two_zpow_pos 0) hone
          rwa [floorLog2_two_zpow] at hmono
        rw [← nearest_two_mul hcast (by omega)]
        exact nearest_le_nearest (by decide) (by positivity) (by exact_mod_cast hle)
    have hhalf : (1 / 2 : ℚ) = 2 ^ (-1 : ℤ) := by norm_num
    obtain ⟨hdouble, hround⟩ := double_of_le (e := -1)
      (div_nonneg hpart (by linarith : (0 : ℚ) ≤ nearest 52 (-1074) (whole : ℚ)))
      (by rw [← hhalf, div_le_iff₀ (by linarith)]; linarith) (by decide) (by decide)
    rw [div, if_pos (by linarith : nearest 52 (-1074) (whole : ℚ) ≠ 0), hdouble] at h
    rw [← hhalf] at hround
    exact absurd (of_decide_eq_true h) (not_lt.mpr hround)

end Floating

end Symm.Lib
