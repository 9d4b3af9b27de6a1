import Ballpark.Chart
import Ballpark.Chart.FileName

/-!
# Figures

The contents of a figure: bars and percentile markers of a histogram, or stacked dots. A histogram on
a logarithmic axis has bins of equal ratios.
-/

namespace Ballpark

/-- What a figure is asked to show beside its quantity. -/
structure FigureOptions where
  title : Option String
  /-- the label of the axis, by default the unit with its dimension -/
  label : Option String
  /-- whether the axis is logarithmic, by default as suits the particles -/
  logScale : Option Bool
  deriving Repr

namespace FigureOptions

/-- Nothing but the quantity itself. -/
def none : FigureOptions :=
  ⟨.none, .none, .none⟩

end FigureOptions

/-- The axis and the texts of a figure. -/
structure FigureFrame where
  title : String
  label : String
  logScale : Bool
  deriving Repr

/-- A bar of a histogram. -/
structure Bar (R : Type) where
  left : R
  width : R
  height : Nat
  deriving Repr

/-- A figure of a histogram. -/
structure HistogramFigure (R : Type) where
  frame : FigureFrame
  bars : List (Bar R)
  /-- where the percentiles are marked -/
  markers : List R
  deriving Repr

/-- A dot: its place on the axis and how many dots are below it. -/
structure Dot (R : Type) where
  x : R
  below : Nat
  deriving Repr

/-- Where a dot stands on the vertical axis. -/
def Dot.y {R : Type} (d : Dot R) : Rat :=
  d.below + 0.5

/-- A figure of dots. -/
structure DotplotFigure (R : Type) where
  frame : FigureFrame
  dots : List (Dot R)
  deriving Repr

namespace Figure

/-- The width of a figure. -/
def width : Rat := 6

/-- The height of a figure. -/
def height : Rat := 3.2

variable {R : Type} [Scalar R]

/-- The frame of a figure of a quantity. -/
def frameOf (q : Quantity R) (options : FigureOptions) : FigureFrame :=
  ⟨options.title.getD "", options.label.getD q.unit.textWithDimension,
    options.logScale.getD q.value.particles.suitsLogScale⟩

/-! ## Bars -/

/-- The shares whose percentiles a histogram marks. -/
def markedShares : List Rat := [0.05, 0.5, 0.95]

/-- Bars between edges. -/
def barsBetween : List R → List Nat → List (Bar R)
  | left :: right :: edges, count :: counts =>
    ⟨left, right - left, count⟩ :: barsBetween (right :: edges) counts
  | _, _ => []

/-- Bars of equal width, one each if all particles are equal. -/
def linearBars (h : Histogram R) : List (Bar R) :=
  if Scalar.lt h.low h.high then barsBetween h.edges h.counts
  else (h.edges.zip h.counts).map fun (left, count) => ⟨left, Scalar.ofNat 1, count⟩

/-- Equal steps from one number to another. -/
def equalSteps (low high : R) (steps : Nat) : List R :=
  let step := (high - low) / Scalar.ofNat steps
  (List.range steps).map (fun i => Scalar.ofNat i * step + low) ++ [high]

/-- Steps of equal ratio from one number to another of the same sign. -/
def ratioSteps (low high : R) (steps : Nat) : Except (Fault R) (List R) :=
  if Scalar.isZero low || Scalar.isZero high then .error (.value .geometricZero)
  else
    let sign := Scalar.apply .sign low
    let logs := equalSteps (Scalar.apply .log10 (low / sign)) (Scalar.apply .log10 (high / sign)) steps
    let inner := ((logs.drop 1).take (steps - 1)).map fun y =>
      Scalar.pow (Scalar.ofNat 10) y * sign
    .ok (if steps = 0 then [low] else low :: inner ++ [high])

/-- Do the edges never decrease? -/
def areOrdered : List R → Bool
  | x :: y :: rest => !Scalar.lt y x && areOrdered (y :: rest)
  | _ => true

/-- How many particles are below an edge; all of them below an undefined one. -/
def countBelow (xs : List R) (edge : R) : Nat :=
  xs.countP fun x => !Scalar.sortsBefore edge x

/-- How many particles are not above an edge. -/
def countUpTo (xs : List R) (edge : R) : Nat :=
  xs.countP fun x => Scalar.sortsBefore x edge

/-- How many particles are below each edge, at the last edge together with those at it. -/
def cumulativeCounts (xs : List R) (edges : List R) : List Nat :=
  match edges.reverse with
  | [] => []
  | last :: before => before.reverse.map (countBelow xs) ++ [countUpTo xs last]

/-- The differences of neighbours. -/
def differences : List Nat → List Nat
  | a :: b :: rest => (b - a) :: differences (b :: rest)
  | _ => []

/-- Bars between edges that are given. -/
def countedBars (xs edges : List R) : Except (Fault R) (List (Bar R)) :=
  if areOrdered edges then .ok (barsBetween edges (differences (cumulativeCounts xs edges)))
  else .error (.value .binEdges)

/-- Bars of particles that all equal `x`: equal bins around it, one of which has them all. -/
def barsAround (x : R) (count bins : Nat) : Except (Fault R) (List (Bar R)) :=
  if bins = 0 then .error (.value .noBins)
  else
    let half : R := Scalar.ofRat 0.5
    let low := x - half
    let high := x + half
    let edges := equalSteps low high bins
    let guess := Histogram.binOf bins low (high - low) x
    let guess := if Scalar.lt x (edges.getD guess x) then guess - 1 else guess
    let place :=
      if Scalar.le (edges.getD (guess + 1) x) x && guess + 1 != bins then guess + 1 else guess
    .ok (barsBetween edges ((List.range bins).map fun i => if i = place then count else 0))

/-- Bars of equal ratios. -/
def ratioBars (bins : Written R) (s : Sample R) : Except (Fault R) (List (Bar R)) := do
  let n ← Histogram.wholeBins bins
  if Scalar.eq s.min s.max then barsAround s.head s.size n
  else countedBars s.toList (← ratioSteps s.min s.max n)

/-- The histogram of a quantity. -/
def histogram (q : Quantity R) (bins : Written R) (options : FigureOptions) :
    Except (Fault R) (HistogramFigure R) := do
  let s := q.value.particles
  let frame := frameOf q options
  let bars ← if frame.logScale then ratioBars bins s
    else linearBars <$> Histogram.make bins q.unit.text s
  return ⟨frame, bars, markedShares.map q.percentileAt⟩

/-! ## Dots -/

/-- The columns that positions fall into when the whole width has `dots` columns; none for a position
that has no column. -/
def columns (dots : R) (positions : Sample R) : List (Option Int) :=
  let low := positions.min
  let span := positions.max - low
  let one : R := Scalar.ofNat 1
  let width := if Scalar.isPositive span then span / Scalar.maximum dots one else one
  positions.toList.map fun p =>
    let c := Scalar.apply .round ((p - low) / width)
    if Scalar.isFinite c then some (Scalar.toRat c).floor else none

/-- How often each item of a list stands before itself. -/
def repetitions (before : List (Option Int)) : List (Option Int) → List Nat
  | [] => []
  | c :: rest => before.count c :: repetitions (c :: before) rest

/-- The dots of a quantity, those of one column above each other. -/
def dotplot (q : Quantity R) (dots : Written R) (options : FigureOptions) :
    Except (Fault R) (DotplotFigure R) := do
  let data ← Dotplot.make dots q.unit.text q.value.particles
  let frame := frameOf q options
  let place (x : R) := if frame.logScale then Scalar.apply .log10 x else x
  let heights := match Sample.ofList? (data.quantiles.map place) with
    | some positions => repetitions [] (columns dots.toScalar positions)
    | none => []
  return ⟨frame, (data.quantiles.zip heights).map fun (x, below) => ⟨x, below⟩⟩

/-- The top of the vertical axis of dots. -/
def top (dots : List (Dot R)) : Rat :=
  let highest : Rat := (dots.map (·.below)).foldl max 0 + 1.5
  if highest < 3 then 3 else highest

end Figure

end Ballpark
