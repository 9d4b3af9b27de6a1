import Ballpark.Binary64
import Ballpark.Scalar

/-!
# Machine numbers

The 64-bit floating-point numbers as a number type. Functions that the machine does not offer are
computed from those it does, in forms that keep their precision near zero.
-/

namespace Ballpark.Machine

/-- The nearest whole number, a half to the even neighbour. -/
def roundEven (x : Float) : Float :=
  let low := x.floor
  let rest := x - low
  let even := (low / 2).floor * 2 == low
  let r := if 0.5 < rest || (rest == 0.5 && !even) then low + 1 else low
  if r == 0 && (x < 0 || 1 / x < 0) then -0.0 else r

/-- The whole number next to `x` on the side of zero. -/
def truncate (x : Float) : Float :=
  if x < 0 then x.ceil else x.floor

/-- One, zero or minus one as the number is. -/
def sign (x : Float) : Float :=
  if 0 < x then 1 else if x < 0 then -1 else if x == 0 then 0 else x

/-- The logarithm of `1 + x`. -/
def log1p (x : Float) : Float :=
  let u := 1 + x
  if u == 1 then x
  else if u == 1 / 0 then u
  else u.log * (x / (u - 1))

/-- `exp x - 1`. -/
def expm1 (x : Float) : Float :=
  let u := x.exp
  if u == 1 then x
  else if u - 1 == -1 then -1
  else if u == 1 / 0 then u
  else (u - 1) * (x / u.log)

/-- The length of the hypotenuse, without a step beyond the range of numbers. -/
def hypot (x y : Float) : Float :=
  let a := x.abs
  let b := y.abs
  if a == 1 / 0 || b == 1 / 0 then 1 / 0
  else if !(a == a) || !(b == b) then 0 / 0
  else
    let long := if a < b then b else a
    let short := if a < b then a else b
    if long == 0 then 0
    else if long < 1e150 && 1e-150 < short then (long * long + short * short).sqrt
    else
      let ratio := short / long
      long * (1 + ratio * ratio).sqrt

/-- The value of a polynomial, coefficients of the highest power first. -/
def polynomial (coefficients : List Float) (x : Float) : Float :=
  coefficients.foldl (fun acc c => acc * x + c) 0

/-- Numerator and denominator of the normal quantile near the median. -/
def quantileCenter : List Float × List Float :=
  ([2.5090809287301226727e3, 3.3430575583588128105e4, 6.7265770927008700853e4,
    4.5921953931549871457e4, 1.3731693765509461125e4, 1.9715909503065514427e3,
    1.3314166789178437745e2, 3.3871328727963666080e0],
   [5.2264952788528545610e3, 2.8729085735721942674e4, 3.9307895800092710610e4,
    2.1213794301586595867e4, 5.3941960214247511077e3, 6.8718700749205790830e2,
    4.2313330701600911252e1, 1])

/-- Numerator and denominator of the normal quantile in the tails. -/
def quantileTail : List Float × List Float :=
  ([7.74545014278341407640e-4, 2.27238449892691845833e-2, 2.41780725177450611770e-1,
    1.27045825245236838258e0, 3.64784832476320460504e0, 5.76949722146069140550e0,
    4.63033784615654529590e0, 1.42343711074968357734e0],
   [1.05075007164441684324e-9, 5.47593808499534494600e-4, 1.51986665636164571966e-2,
    1.48103976427480074590e-1, 6.89767334985100004550e-1, 1.67638483018380384940e0,
    2.05319162663775882187e0, 1])

/-- Numerator and denominator of the normal quantile far out. -/
def quantileFar : List Float × List Float :=
  ([2.01033439929228813265e-7, 2.71155556874348757815e-5, 1.24266094738807843860e-3,
    2.65321895265761230930e-2, 2.96560571828504891230e-1, 1.78482653991729133580e0,
    5.46378491116411436990e0, 6.65790464350110377720e0],
   [2.04426310338993978564e-15, 1.42151175831644588870e-7, 1.84631831751005468180e-5,
    7.86869131145613259100e-4, 1.48753612908506148525e-2, 1.36929880922735805310e-1,
    5.99832206555887937690e-1, 1])

/-- A quotient of two polynomials. -/
def quotientAt (parts : List Float × List Float) (x : Float) : Float :=
  polynomial parts.1 x / polynomial parts.2 x

/-- The bound of a central interval of the standard normal that holds the given mass. -/
def centralBound (mass : Float) : Float :=
  let q := mass / 2
  if q.abs ≤ 0.425 then q * quotientAt quantileCenter (0.180625 - q * q)
  else
    let tail := (1 - mass.abs) / 2
    let r := (-tail.log).sqrt
    let bound := if r ≤ 5 then quotientAt quantileTail (r - 1.6) else quotientAt quantileFar (r - 5)
    if q < 0 then -bound else bound

/-- The inverse of the error function. -/
def erfInv (x : Float) : Float :=
  if x == 1 then 1 / 0 else if x == -1 then -(1 / 0)
  else centralBound x / (2 : Float).sqrt

/-- The elementary functions on machine numbers. -/
def apply : Elementary → Float → Float
  | .abs => Float.abs
  | .sign => sign
  | .floor => Float.floor
  | .ceil => Float.ceil
  | .round => roundEven
  | .trunc => truncate
  | .sqrt => Float.sqrt
  | .cbrt => Float.cbrt
  | .exp => Float.exp
  | .expm1 => expm1
  | .log => Float.log
  | .log10 => Float.log10
  | .log2 => Float.log2
  | .log1p => log1p
  | .sin => Float.sin
  | .cos => Float.cos
  | .tan => Float.tan
  | .asin => Float.asin
  | .acos => Float.acos
  | .atan => Float.atan
  | .sinh => Float.sinh
  | .cosh => Float.cosh
  | .tanh => Float.tanh
  | .asinh => Float.asinh
  | .acosh => Float.acosh
  | .atanh => Float.atanh

end Ballpark.Machine

namespace Ballpark

instance : Scalar Float where
  ofRat := Binary64.ofRat
  ofDecimal := Binary64.ofDecimal
  exact := Binary64.exact
  isFinite := Float.isFinite
  eq x y := x == y
  lt x y := x < y
  le x y := x ≤ y
  pow := Float.pow
  apply := Machine.apply
  atan2 := Float.atan2
  hypot := Machine.hypot
  erfInv := Machine.erfInv
  pi := 3.141592653589793
  euler := 2.718281828459045

end Ballpark
