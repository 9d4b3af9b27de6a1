import Ballpark.Scalar

/-!
# Totals

The order in which a list is added up shows in the last digits of machine numbers. Up to 128 terms
are added in eight interleaved lanes, longer lists half by half; over exact numbers all of this is the
plain sum.
-/

namespace Ballpark.Scalar

variable {R : Type} [Scalar R]

/-- Adds the terms one after the other. -/
def runningTotal (start : R) (xs : List R) : R :=
  xs.foldl (· + ·) start

/-- Adds groups of eight terms to eight lanes; gives the lanes and the terms left over. -/
def addLanes (lanes xs : List R) : List R × List R :=
  if xs.length < 8 then (lanes, xs)
  else addLanes (lanes.zipWith (· + ·) (xs.take 8)) (xs.drop 8)
termination_by xs.length

/-- The total of eight lanes, added in pairs. -/
def joinLanes : List R → R
  | [a, b, c, d, e, f, g, h] => ((a + b) + (c + d)) + ((e + f) + (g + h))
  | xs => runningTotal (ofRat 0) xs

/-- The total of a short list. -/
def blockTotal (xs : List R) : R :=
  if xs.length < 8 then runningTotal (ofRat 0) xs
  else
    let (lanes, rest) := addLanes (xs.take 8) (xs.drop 8)
    runningTotal (joinLanes lanes) rest

/-- The total of a list. -/
def total (xs : List R) : R :=
  if xs.length ≤ 128 then blockTotal xs
  else
    -- the halves are cut at multiples of eight
    let half := xs.length / 2 - xs.length / 2 % 8
    total (xs.take half) + total (xs.drop half)
termination_by xs.length
decreasing_by all_goals simp only [List.length_take, List.length_drop]; omega

/-- The arithmetic mean. -/
def mean (xs : List R) : R :=
  total xs / ofNat xs.length

/-- The mean of the squared distances from the mean. -/
def variance (xs : List R) : R :=
  let m := mean xs
  mean (xs.map fun x => (x - m) * (x - m))

/-- The totals of the list up to each of its places. -/
def cumulative : List R → List R
  | [] => []
  | x :: xs => x :: go x xs
where
  /-- Goes on from the total so far. -/
  go (sum : R) : List R → List R
    | [] => []
    | y :: ys => (sum + y) :: go (sum + y) ys

end Ballpark.Scalar
