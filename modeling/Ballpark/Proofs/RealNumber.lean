import Mathlib.Analysis.SpecialFunctions.Arcosh
import Mathlib.Analysis.SpecialFunctions.Arsinh
import Mathlib.Analysis.SpecialFunctions.Artanh
import Mathlib.Analysis.SpecialFunctions.Pow.Real
import Mathlib.Analysis.SpecialFunctions.Trigonometric.Arctan
import Mathlib.Analysis.SpecialFunctions.Complex.Arg
import Mathlib.Analysis.SpecialFunctions.Log.Base
import Ballpark.Proofs.ErrorFunction
import Ballpark.Arithmetic

/-!
# The reals as a number type

Statements about quantities are read over exact numbers. This module makes the reals a `Scalar`: every
number is finite, comparisons are those of the order, powers are real powers and the elementary
functions are the real ones. Checked arithmetic then fails in two cases only, a quotient by zero and a
negative power of zero, so on positive numbers it never fails (`Checked.powRat_of_pos`,
`Checked.div_of_ne_zero`).
-/

namespace Ballpark

namespace RealNumber

/-- The nearest whole number, a half to the even neighbour. -/
noncomputable def roundEven (x : ℝ) : ℝ :=
  if Int.fract x < 1 / 2 then ⌊x⌋
  else if 1 / 2 < Int.fract x then ⌊x⌋ + 1
  else if Even ⌊x⌋ then ⌊x⌋ else ⌊x⌋ + 1

/-- The elementary functions on the reals. -/
noncomputable def apply : Elementary → ℝ → ℝ
  | .abs, x => |x|
  | .sign, x => SignType.sign x
  | .floor, x => ⌊x⌋
  | .ceil, x => ⌈x⌉
  | .round, x => roundEven x
  | .trunc, x => if x < 0 then ⌈x⌉ else ⌊x⌋
  | .sqrt, x => √x
  | .cbrt, x => SignType.sign x * |x| ^ (1 / 3 : ℝ)
  | .exp, x => Real.exp x
  | .expm1, x => Real.exp x - 1
  | .log, x => Real.log x
  | .log10, x => Real.logb 10 x
  | .log2, x => Real.logb 2 x
  | .log1p, x => Real.log (1 + x)
  | .sin, x => Real.sin x
  | .cos, x => Real.cos x
  | .tan, x => Real.tan x
  | .asin, x => Real.arcsin x
  | .acos, x => Real.arccos x
  | .atan, x => Real.arctan x
  | .sinh, x => Real.sinh x
  | .cosh, x => Real.cosh x
  | .tanh, x => Real.tanh x
  | .asinh, x => Real.arsinh x
  | .acosh, x => Real.arcosh x
  | .atanh, x => Real.artanh x

open Classical in
/-- The fraction that a real is; for one that is no fraction its whole part. -/
noncomputable def fraction (x : ℝ) : Rat :=
  if h : ∃ q : ℚ, (q : ℝ) = x then h.choose else ⌊x⌋

theorem fraction_ratCast (q : ℚ) : fraction (q : ℝ) = q := by
  have h : ∃ r : ℚ, (r : ℝ) = (q : ℝ) := ⟨q, rfl⟩
  rw [fraction, dif_pos h]
  exact_mod_cast h.choose_spec

/-- A number and the fraction that it is read as have the same whole part. -/
theorem floor_fraction (x : ℝ) : ⌊fraction x⌋ = ⌊x⌋ := by
  by_cases h : ∃ q : ℚ, (q : ℝ) = x
  · obtain ⟨q, rfl⟩ := h
    rw [fraction_ratCast, Rat.floor_cast]
  · rw [fraction, dif_neg h, Int.floor_intCast]

end RealNumber

noncomputable instance : Scalar ℝ where
  ofRat q := q
  ofDecimal d := d.value
  exact x := .finite (decide (x < 0)) (RealNumber.fraction |x|)
  isFinite _ := true
  eq x y := decide (x = y)
  lt x y := decide (x < y)
  le x y := decide (x ≤ y)
  pow x y := x ^ y
  apply := RealNumber.apply
  atan2 y x := Complex.arg ⟨x, y⟩
  hypot x y := √(x ^ 2 + y ^ 2)
  erfInv := erfInv
  pi := Real.pi
  euler := Real.exp 1

namespace Scalar

@[simp] theorem ofRat_real (q : Rat) : (ofRat q : ℝ) = q := rfl

@[simp] theorem ofNat_real (n : Nat) : (ofNat n : ℝ) = n := by
  simp [ofNat]

@[simp] theorem ofInt_real (n : Int) : (ofInt n : ℝ) = n := by
  simp [ofInt]

@[simp] theorem ofDecimal_real (d : Decimal) : (ofDecimal d : ℝ) = d.value := rfl

@[simp] theorem isFinite_real (x : ℝ) : isFinite x = true := rfl

@[simp] theorem eq_real (x y : ℝ) : eq x y = decide (x = y) := rfl

@[simp] theorem lt_real (x y : ℝ) : lt x y = decide (x < y) := rfl

@[simp] theorem le_real (x y : ℝ) : le x y = decide (x ≤ y) := rfl

@[simp] theorem pow_real (x y : ℝ) : pow x y = x ^ y := rfl

@[simp] theorem isUndefined_real (x : ℝ) : isUndefined x = false := by
  simp [isUndefined]

@[simp] theorem isInfinite_real (x : ℝ) : isInfinite x = false := by
  simp [isInfinite]

@[simp] theorem isZero_real (x : ℝ) : isZero x = decide (x = 0) := by
  simp [isZero]

@[simp] theorem isPositive_real (x : ℝ) : isPositive x = decide (0 < x) := by
  simp [isPositive]

@[simp] theorem isNonnegative_real (x : ℝ) : isNonnegative x = decide (0 ≤ x) := by
  simp [isNonnegative]

@[simp] theorem minimum_real (x y : ℝ) : minimum x y = min x y := by
  rcases lt_or_ge x y with h | h
  · simp [minimum, h, h.le]
  · simp [minimum, h, not_lt.mpr h]

@[simp] theorem maximum_real (x y : ℝ) : maximum x y = max x y := by
  rcases lt_or_ge y x with h | h
  · simp [maximum, h, h.le]
  · simp [maximum, h, not_lt.mpr h]

@[simp] theorem exact_real (x : ℝ) :
    exact x = .finite (decide (x < 0)) (RealNumber.fraction |x|) := rfl

theorem exact_ratCast (q : ℚ) : exact (q : ℝ) = .finite (decide (q < 0)) |q| := by
  rw [exact_real, ← Rat.cast_abs, RealNumber.fraction_ratCast]
  simp only [Rat.cast_lt_zero]

theorem toRat_ratCast (q : ℚ) : toRat (q : ℝ) = q := by
  rw [toRat, exact_ratCast]
  show (if decide (q < 0) = true then -|q| else |q|) = q
  by_cases h : q < 0
  · rw [if_pos (decide_eq_true h), abs_of_neg h, neg_neg]
  · rw [if_neg (by simpa using h), abs_of_nonneg (not_lt.mp h)]

theorem floor_toRat {x : ℝ} (h : 0 ≤ x) : (toRat x).floor = ⌊x⌋ := by
  rw [toRat, exact_real, abs_of_nonneg h, decide_eq_false h.not_gt]
  exact RealNumber.floor_fraction x

theorem ofDecimal_ofNat (n : Nat) : (ofDecimal (.ofNat n) : ℝ) = n := by
  simp [Decimal.ofNat, Decimal.value, Decimal.magnitude, Decimal.tenPow]

end Scalar

/-- A fraction is used as an exponent with its exact value. -/
theorem Exponent.ofScalar_ratCast (q : Rat) :
    Exponent.ofScalar (q : ℝ) = .ok (Exponent.snap q) := by
  have hvalue : (Exact.finite (decide (q < 0)) |q|).toRat = q := Scalar.exact_ratCast q ▸ Scalar.toRat_ratCast q
  rw [Exponent.ofScalar, Scalar.exact_ratCast]
  exact congrArg (fun r => Except.ok (Exponent.snap r)) hvalue

namespace Checked

theorem div_of_ne_zero {x y : ℝ} (hy : y ≠ 0) : div x y = .ok (x / y) := by
  simp [div, hy]

theorem pow_of_pos {x y : ℝ} (hx : 0 < x) : pow x y = .ok (x ^ y) := by
  simp [pow, hx.ne']

@[simp] theorem ofRat_real (q : Rat) : (ofRat q : Except (Fault ℝ) ℝ) = .ok (q : ℝ) := by
  simp [ofRat, withinRange]

@[simp] theorem ofInt_real (n : Int) : (ofInt n : Except (Fault ℝ) ℝ) = .ok (n : ℝ) := by
  simp [ofInt, withinRange]

theorem powRat_of_pos {x : ℝ} (hx : 0 < x) (q : Rat) : powRat x q = .ok (x ^ (q : ℝ)) := by
  simp only [powRat, ofRat_real]
  exact pow_of_pos hx

end Checked

end Ballpark
