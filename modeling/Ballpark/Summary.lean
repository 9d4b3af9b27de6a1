import Ballpark.Quantity

/-!
# Summaries

Values with an uncertainty are shown to the place that the uncertainty knows: the uncertainty in one
significant figure, in two if it starts with a one, and the value to the same place.
-/

namespace Ballpark.Summary

variable {R : Type} [Scalar R]

/-- A number rounded correctly to decimal places, a half to the even neighbour; fewer than none round
to tens, hundreds and so on. From the 324th place on the decimals are finer than machine numbers are,
which then stay as they are. -/
def roundPlaces (x : R) (places : Int) : Except (Fault R) R :=
  match Scalar.exact x with
  | .finite negative size =>
    let rounded : R := Scalar.ofRat (Decimal.atPlace (Decimal.roundAt size places) places)
    if Scalar.isInfinite rounded then .error (.arithmetic .roundedTooLarge)
    else .ok (if negative then -rounded else rounded)
  | _ => .ok x

/-- A power of ten: exact if it is whole, else nearest. -/
def tenTo (e : Int) : R :=
  if 0 ≤ e then Scalar.ofNat (Decimal.tenPow e.toNat) else Scalar.pow (Scalar.ofNat 10) (Scalar.ofInt e)

/-- The whole part of the decimal logarithm. -/
def leadingPlace (u : R) : Int :=
  (Scalar.toRat (Scalar.apply .floor (Scalar.apply .log10 u))).floor

/-- An uncertainty rounded for display and the places it is rounded to. -/
structure Rounding (R : Type) where
  uncertainty : R
  places : Int

/-- The places that show the first figure of an uncertainty, and the second if the first is a one. -/
def figurePlaces (u : R) : Except (Fault R) Int := do
  let place := leadingPlace u
  let leading ← Checked.div u (tenTo place)
  let figures : Int :=
    if Scalar.le (Scalar.ofNat 1) leading && Scalar.lt leading (Scalar.ofNat 2) then 2 else 1
  return figures - 1 - place

/-- How an uncertainty is rounded: a second time and to one more place if that gives a zero. One that
is not above zero, or not finite, is left as it is. -/
def roundUncertainty (u : R) : Except (Fault R) (Rounding R) := do
  if Scalar.le u (Scalar.ofNat 0) || !Scalar.isFinite u then return ⟨u, 0⟩
  else
    let places ← figurePlaces u
    let rounded ← roundPlaces u places
    if Scalar.isZero rounded then return ⟨← roundPlaces u (places + 1), places + 1⟩
    else return ⟨rounded, places⟩

/-- The size of an uncertainty, rounded. -/
def roundSize (u : R) : Except (Fault R) (Rounding R) :=
  roundUncertainty (Scalar.apply .abs u)

/-- Does a rounded uncertainty give no place to round to? -/
def Rounding.isIdle (r : Rounding R) : Bool :=
  Scalar.isZero r.uncertainty || !Scalar.isFinite r.uncertainty

/-- A value and its uncertainty, both rounded to the uncertainty's place. -/
def roundedPair (value uncertainty : R) : Except (Fault R) (R × R) := do
  let r ← roundSize uncertainty
  if r.isIdle then return (value, uncertainty)
  else return (← roundPlaces value r.places, r.uncertainty)

/-- A number in six significant figures. -/
def sixFigures (x : R) : String :=
  Decimal.generalText 6 (Scalar.exact x)

/-- A number rounded to some places, written with as many decimals. -/
def placesText (x : R) (places : Int) : Except (Fault R) String := do
  return Decimal.fixedText places.toNat (Scalar.exact (← roundPlaces x places))

/-- A value, its uncertainty and its unit. -/
def withUncertainty (value uncertainty : R) (unit : String) : Except (Fault R) String := do
  let r ← roundSize uncertainty
  let (v, u) ←
    if r.isIdle then pure (sixFigures value, sixFigures uncertainty)
    else pure (← placesText value r.places, ← placesText r.uncertainty r.places)
  return Text.trimText (v ++ " ± " ++ u ++ " " ++ unit)

/-- A quantity for display: its mean and deviation, or its exact number. -/
def display (q : Quantity R) : Except (Fault R) String :=
  match q.value with
  | .scalar x => .ok (Text.trimText (sixFigures x ++ " " ++ q.unit.text))
  | .sample _ => withUncertainty q.mean q.deviation q.unit.text

/-- An uncertainty relative to its value, as a fraction and in percent; none if the value is zero or
one of them is not finite. -/
def relativeForms (value uncertainty : R) : Option (R × R) :=
  if !Scalar.isFinite value || !Scalar.isFinite uncertainty || Scalar.isZero value then none
  else
    let fraction := Scalar.apply .abs (uncertainty / value)
    some (fraction, fraction * Scalar.ofNat 100)

/-- The figures that describe a quantity. -/
structure Description (R : Type) where
  unit : String
  dimension : Option String
  samples : Nat
  mean : R
  deviation : R
  p5 : R
  median : R
  p95 : R
  min : R
  max : R
  display : String

/-- The description of a quantity, in its own unit. -/
def describe (q : Quantity R) : Except (Fault R) (Description R) := do
  return {
    unit := q.unit.text
    dimension := q.unit.dimension.name?
    samples := q.size
    mean := q.mean
    deviation := q.deviation
    p5 := q.percentileAt 0.05
    median := q.percentileAt 0.5
    p95 := q.percentileAt 0.95
    min := q.min
    max := q.max
    display := ← display q }

/-- The number that a probability argument stands for. -/
def argument (p : Quantity R) : R :=
  p.mean

/-- The particle at a given probability, as a quantity. -/
def quantile (q p : Quantity R) : Except (Fault R) (Quantity R) := do
  let share := argument p
  if Quantity.isProbability share then return ⟨.scalar (← q.percentile share), q.unit⟩
  else throw (.quantile share)

/-- The particle at a fixed share, as a quantity. -/
def fixedQuantile (share : Rat) (q : Quantity R) : Quantity R :=
  ⟨.scalar (q.percentileAt share), q.unit⟩

/-- The mean, as a quantity. -/
def mean (q : Quantity R) : Quantity R :=
  ⟨.scalar q.mean, q.unit⟩

/-- The standard deviation, as a quantity. -/
def deviation (q : Quantity R) : Quantity R :=
  ⟨.scalar q.deviation, q.unit⟩

end Ballpark.Summary
