import Ballpark.Quantity
import Ballpark.Settings

/-!
# Chart data

What a chart of particles shows: how many fall into each of some equal bins between the smallest and
the largest, or the particles at the centers of some equal shares of the order. Charts of lists need
at least one number.
-/

namespace Ballpark

/-- Particles counted in equal bins. -/
structure Histogram (R : Type) where
  counts : List Nat
  /-- the bounds of the bins, one more than there are bins -/
  edges : List R
  low : R
  high : R
  unit : String
  deriving Repr

/-- Particles at the centers of equal shares of the order. -/
structure Dotplot (R : Type) where
  quantiles : List R
  low : R
  high : R
  unit : String
  deriving Repr

namespace Histogram

variable {R : Type} [Scalar R]

/-- The number of bins when none is asked for. -/
def usualBins : Nat := 50

/-- The place of the bin that a number falls into; the largest number falls into the last. -/
def binOf (bins : Nat) (low span x : R) : Nat :=
  min (Sample.wholePart ((x - low) / span * Scalar.ofNat bins)) (bins - 1)

/-- How many of the given places are each of the first `bins` places. -/
def tally (bins : Nat) (places : List Nat) : List Nat :=
  (List.range bins).map places.count

/-- The edges of equal bins. -/
def equalEdges (bins : Nat) (low span : R) : List R :=
  (List.range (bins + 1)).map fun i => low + Scalar.ofNat i / Scalar.ofNat bins * span

/-- A sample counted in `bins` bins; if all particles are equal the first bin has them all. -/
def ofSample (bins : Nat) (unit : String) (s : Sample R) : Except (Fault R) (Histogram R) :=
  let low := s.min
  let high := s.max
  let span := high - low
  let edges := equalEdges bins low span
  if Scalar.isZero span then .ok ⟨tally bins (s.toList.map fun _ => 0), edges, low, high, unit⟩
  else if !Scalar.isFinite span then .error (.value .negativeCount)
  else .ok ⟨tally bins (s.toList.map (binOf bins low span)), edges, low, high, unit⟩

/-- Goes on only with at least one bin. -/
def requireBins (bins : Written R) : Except (Fault R) PUnit :=
  if Scalar.lt bins.toScalar (Scalar.ofNat 1) then .error (.parameter (.bins bins.text)) else .ok ⟨⟩

/-- A number of bins that must be whole. -/
def wholeBins (bins : Written R) : Except (Fault R) Nat :=
  match bins with
  | .whole n => .ok n.toNat
  | .truth b => .ok b.toNat
  | .decimal _ => .error .wrongSort

/-- A sample counted in as many bins as are asked for. -/
def make (bins : Written R) (unit : String) (s : Sample R) : Except (Fault R) (Histogram R) := do
  requireBins bins
  ofSample (← wholeBins bins) unit s

end Histogram

/-- The numbers of a list, if there are any. -/
def chartedSample {R : Type} (xs : List R) : Except (Fault R) (Sample R) :=
  match Sample.ofList? xs with
  | some s => .ok s
  | none => .error (.parameter .emptySummary)

namespace Histogram

variable {R : Type} [Scalar R]

/-- The numbers of a list counted in bins. -/
def ofList (bins : Written R) (unit : String) (xs : List R) : Except (Fault R) (Histogram R) := do
  requireBins bins
  make bins unit (← chartedSample xs)

end Histogram

namespace Dotplot

variable {R : Type} [Scalar R]

/-- The number of dots when none is asked for. -/
def usualDots : Nat := 20

/-- The share at the center of place `i`. -/
def share (dots : R) (i : Nat) : R :=
  (Scalar.ofNat i + Scalar.ofRat 0.5) / dots

/-- The particles at the centers of the first `count` of `dots` equal shares. -/
def ofSample (count : Nat) (dots : R) (unit : String) (s : Sample R) : Dotplot R :=
  let ordered := s.sorted
  let quantile (i : Nat) :=
    Sample.itemAt s.head ordered (Sample.wholePart (share dots i * Scalar.ofNat s.size))
  ⟨(List.range count).map quantile, ordered.headD s.head, ordered.getLastD s.head, unit⟩

/-- Goes on only with at least one dot. -/
def requireDots (dots : Written R) : Except (Fault R) PUnit :=
  if Scalar.lt dots.toScalar (Scalar.ofNat 1) then .error (.parameter (.dots dots.text)) else .ok ⟨⟩

/-- How many places a number of dots has; a part of a dot has a place of its own. -/
def places (dots : Written R) : Except (Fault R) Nat :=
  let x : R := dots.toScalar
  if Scalar.isFinite x then .ok (Scalar.toRat x).ceil.toNat else .error .wrongSort

/-- The dots of a sample, as many as are asked for. -/
def make (dots : Written R) (unit : String) (s : Sample R) : Except (Fault R) (Dotplot R) := do
  requireDots dots
  return ofSample (← places dots) dots.toScalar unit s

/-- The dots of a list. -/
def ofList (dots : Written R) (unit : String) (xs : List R) : Except (Fault R) (Dotplot R) := do
  requireDots dots
  make dots unit (← chartedSample xs)

end Dotplot

/-- From this ratio of the largest to the smallest particle on, a logarithmic axis is used. -/
def logScaleRatio : Rat := 100

/-- Are the particles all above zero and spread so widely that a logarithmic axis is better? -/
def Sample.suitsLogScale {R : Type} [Scalar R] (s : Sample R) : Bool :=
  !Scalar.le s.min (Scalar.ofNat 0) && !Scalar.le s.max (Scalar.ofNat 0) &&
    Scalar.lt (Scalar.ofRat logScaleRatio) (s.max / s.min)

end Ballpark
