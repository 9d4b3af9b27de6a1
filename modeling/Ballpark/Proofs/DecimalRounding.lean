import Mathlib.Algebra.Order.Field.Power
import Mathlib.Algebra.Order.Ring.Cast
import Mathlib.Data.Rat.Floor
import Mathlib.Tactic.FieldSimp
import Mathlib.Tactic.Linarith
import Mathlib.Tactic.Positivity
import Mathlib.Tactic.Ring
import Ballpark.Decimal.Rounding

/-!
# Rounding to decimal places, as numbers

The roundings of `Decimal.roundDiv` and `Decimal.roundAt` work on the digits of quotients. Here they
are read as numbers: the rounded number is a multiple of the place's step, no farther than half a step
from the number (`abs_rounded_sub_le`), and a multiple of the step is left as it is
(`rounded_of_isMultiple`).
-/

namespace Ballpark.Decimal

/-- The step between neighbours at decimal places: a power of ten. -/
def step (places : ℤ) : ℚ :=
  10 ^ (-places)

/-- Is the number a whole number of steps? -/
def IsMultiple (places : ℤ) (x : ℚ) : Prop :=
  ∃ k : ℤ, x = k * step places

/-- A number rounded to decimal places. -/
def rounded (places : ℤ) (x : ℚ) : ℚ :=
  let size := atPlace (roundAt |x| places) places
  if x < 0 then -size else size

theorem step_pos (places : ℤ) : 0 < step places :=
  zpow_pos (by decide) _

theorem step_mul_zpow (places : ℤ) : step places * 10 ^ places = 1 := by
  rw [step, ← zpow_add₀ (by decide), neg_add_cancel, zpow_zero]

/-- A quotient is rounded to a whole number at most a half away. -/
theorem abs_roundDiv_sub_le (num : Nat) {den : Nat} (hden : 0 < den) :
    |(roundDiv num den : ℚ) - num / den| ≤ 1 / 2 := by
  have hpos : (0 : ℚ) < den := by exact_mod_cast hden
  -- what is rounded away is the remainder over the denominator
  have hsplit : (num : ℚ) / den = (num / den : Nat) + (num % den : Nat) / den := by
    field_simp
    exact_mod_cast (Nat.div_add_mod num den).symm
  have hlt : (num % den : Nat) / (den : ℚ) < 1 :=
    (div_lt_one hpos).mpr (by exact_mod_cast Nat.mod_lt num hden)
  have hdown : 2 * (num % den) ≤ den → (num % den : Nat) / (den : ℚ) ≤ 1 / 2 := fun h => by
    rw [div_le_div_iff₀ hpos two_pos]
    exact_mod_cast (by omega : num % den * 2 ≤ 1 * den)
  have hup : den ≤ 2 * (num % den) → 1 / 2 ≤ (num % den : Nat) / (den : ℚ) := fun h => by
    rw [div_le_div_iff₀ two_pos hpos]
    exact_mod_cast (by omega : 1 * den ≤ num % den * 2)
  have hnonneg : 0 ≤ (num % den : Nat) / (den : ℚ) := by positivity
  rw [hsplit, abs_le]
  unfold roundDiv
  dsimp only
  split_ifs with hlow hhigh heven
  · -- below the half, above it, and at the half to the even one
    have := hdown hlow.le
    constructor <;> linarith
  · have := hup hhigh.le
    push_cast
    constructor <;> linarith
  · have := hdown (not_lt.mp hhigh)
    constructor <;> linarith
  · have := hup (not_lt.mp hlow)
    push_cast
    constructor <;> linarith

theorem roundDiv_mul (n : Nat) {den : Nat} (hden : 0 < den) : roundDiv (n * den) den = n := by
  simp [roundDiv, Nat.mul_div_cancel n hden, hden]

theorem cast_tenPow (n : Nat) : (tenPow n : ℚ) = 10 ^ n := by
  rw [tenPow, Nat.pow_eq, Nat.cast_pow, Nat.cast_ofNat]

theorem den_shifted_pos (x : ℚ) (places : ℤ) : 0 < (shifted x places).2 := by
  unfold shifted
  split
  · exact Nat.mul_pos x.den_pos (Nat.pow_pos (by decide))
  · exact x.den_pos

/-- The shifted quotient is the size of the number with its point moved. -/
theorem shifted_eq (x : ℚ) (places : ℤ) :
    ((shifted x places).1 : ℚ) / (shifted x places).2 = |x| * 10 ^ places := by
  have hsize : (x.num.natAbs : ℚ) / x.den = |x| := by
    conv_rhs => rw [← Rat.num_div_den x]
    rw [abs_div, Nat.abs_cast, Nat.cast_natAbs, Int.cast_abs]
  unfold shifted
  split
  · rename_i hneg
    have hplaces : places = -(places.natAbs : ℤ) := by omega
    conv_rhs => rw [hplaces, zpow_neg, zpow_natCast]
    rw [Nat.cast_mul, cast_tenPow, ← div_div, hsize, div_eq_mul_inv]
  · rename_i hpos
    have hplaces : places = (places.natAbs : ℤ) := by omega
    conv_rhs => rw [hplaces, zpow_natCast]
    rw [Nat.cast_mul, cast_tenPow, mul_div_right_comm, hsize]

theorem atPlace_eq (n : Nat) (places : ℤ) : atPlace n places = n * step places := by
  unfold atPlace step
  split
  · rename_i hneg
    have hplaces : -places = (places.natAbs : ℤ) := by omega
    rw [hplaces, zpow_natCast, Nat.cast_mul, cast_tenPow]
  · rename_i hpos
    have hplaces : places = (places.natAbs : ℤ) := by omega
    conv_rhs => rw [hplaces, zpow_neg, zpow_natCast]
    rw [Rat.mkRat_eq_div, Int.cast_natCast, cast_tenPow, div_eq_mul_inv]

theorem abs_roundAt_sub_le (x : ℚ) (places : ℤ) :
    |(roundAt x places : ℚ) - |x| * 10 ^ places| ≤ 1 / 2 := by
  rw [← shifted_eq]
  exact abs_roundDiv_sub_le _ (den_shifted_pos x places)

/-- A whole number of steps is rounded to that number. -/
theorem roundAt_of_abs_eq {x : ℚ} {n : Nat} {places : ℤ} (h : |x| = n * step places) :
    roundAt x places = n := by
  have hpos := den_shifted_pos x places
  have hquotient : ((shifted x places).1 : ℚ) / (shifted x places).2 = n := by
    rw [shifted_eq, h, mul_assoc, step_mul_zpow, mul_one]
  have hnum : (shifted x places).1 = n * (shifted x places).2 := by
    exact_mod_cast (div_eq_iff (by exact_mod_cast hpos.ne')).mp hquotient
  rw [roundAt, hnum]
  exact roundDiv_mul n hpos

/-- A rounded size is half a step away at most. -/
theorem abs_atPlace_sub_le {x : ℚ} (hx : 0 ≤ x) (places : ℤ) :
    |atPlace (roundAt x places) places - x| ≤ step places / 2 := by
  have hpos := step_pos places
  have hscaled : x = x * 10 ^ places * step places := by
    rw [mul_assoc, mul_comm (10 ^ places), step_mul_zpow, mul_one]
  have hnear := abs_roundAt_sub_le x places
  rw [abs_of_nonneg hx] at hnear
  calc |atPlace (roundAt x places) places - x|
      = |(roundAt x places - x * 10 ^ places) * step places| := by rw [sub_mul, ← hscaled, atPlace_eq]
    _ = |(roundAt x places : ℚ) - x * 10 ^ places| * step places := by rw [abs_mul, abs_of_pos hpos]
    _ ≤ 1 / 2 * step places := mul_le_mul_of_nonneg_right hnear hpos.le
    _ = step places / 2 := by ring

theorem isMultiple_rounded (places : ℤ) (x : ℚ) : IsMultiple places (rounded places x) := by
  unfold rounded
  rw [atPlace_eq]
  dsimp only
  split
  · exact ⟨-(roundAt |x| places : ℤ), by push_cast; ring⟩
  · exact ⟨(roundAt |x| places : ℤ), by push_cast; rfl⟩

/-- **A rounded number is half a step away at most.** -/
theorem abs_rounded_sub_le (places : ℤ) (x : ℚ) : |rounded places x - x| ≤ step places / 2 := by
  have hsize := abs_atPlace_sub_le (abs_nonneg x) places
  unfold rounded
  dsimp only
  split
  · rename_i hneg
    rwa [← abs_neg, neg_sub, sub_neg_eq_add, add_comm, ← sub_neg_eq_add, ← abs_of_neg hneg]
  · rename_i hpos
    rwa [abs_of_nonneg (not_lt.mp hpos)] at hsize ⊢

theorem IsMultiple.exists_abs {places : ℤ} {x : ℚ} (h : IsMultiple places x) :
    ∃ n : Nat, |x| = n * step places := by
  obtain ⟨k, rfl⟩ := h
  exact ⟨k.natAbs, by rw [abs_mul, abs_of_pos (step_pos places), Nat.cast_natAbs, Int.cast_abs]⟩

/-- Two whole numbers of steps that are nearer than a step are the same. -/
theorem IsMultiple.eq_of_abs_sub_lt {places : ℤ} {x y : ℚ} (hx : IsMultiple places x)
    (hy : IsMultiple places y) (h : |x - y| < step places) : x = y := by
  obtain ⟨k, rfl⟩ := hx
  obtain ⟨l, rfl⟩ := hy
  rw [← sub_mul, abs_mul, abs_of_pos (step_pos places)] at h
  have hcount : |k - l| < 1 := by exact_mod_cast (mul_lt_iff_lt_one_left (step_pos places)).mp h
  rw [sub_eq_zero.mp (Int.abs_lt_one_iff.mp hcount)]

/-- A whole number of steps is rounded to itself. -/
theorem rounded_of_isMultiple {places : ℤ} {x : ℚ} (h : IsMultiple places x) : rounded places x = x := by
  obtain ⟨n, hn⟩ := h.exists_abs
  unfold rounded
  rw [roundAt_of_abs_eq ((abs_abs x).trans hn), atPlace_eq, ← hn]
  dsimp only
  split
  · rename_i hneg
    rw [abs_of_neg hneg, neg_neg]
  · rename_i hpos
    exact abs_of_nonneg (not_lt.mp hpos)

/-- Tens, hundreds and so on are whole numbers. -/
theorem IsMultiple.toNat {places : ℤ} {x : ℚ} (h : IsMultiple places x) : IsMultiple places.toNat x := by
  obtain ⟨k, rfl⟩ := h
  rcases Int.le_total 0 places with hpos | hneg
  · exact ⟨k, by rw [Int.toNat_of_nonneg hpos]⟩
  · refine ⟨k * 10 ^ places.natAbs, ?_⟩
    have hplaces : -places = (places.natAbs : ℤ) := by omega
    rw [Int.toNat_of_nonpos hneg, step, hplaces, zpow_natCast, step]
    push_cast
    simp

end Ballpark.Decimal
