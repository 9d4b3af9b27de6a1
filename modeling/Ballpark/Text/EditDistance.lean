/-!
# Edit distance

The least number of single-character insertions, deletions and replacements that turn one text into
another, computed row by row: the row of a text `a` holds the distances from `a` to the beginnings of
the other text, shortest first. The rows are as long as the shorter text.
-/

namespace Ballpark.Text

/-- The rest of a row, given its entry to the `left` and the row of the text without its last
character `c`. -/
def rowAfter (c : Char) : List Char → List Nat → Nat → List Nat
  | x :: xs, corner :: above :: more, left =>
    let here := min (min (above + 1) (left + 1)) (corner + if c = x then 0 else 1)
    here :: rowAfter c xs (above :: more) here
  | _, _, _ => []

/-- The row of a text with one more character at its end. -/
def nextRow (target : List Char) (row : List Nat) (c : Char) : List Nat :=
  match row with
  | [] => []
  | corner :: _ => (corner + 1) :: rowAfter c target row (corner + 1)

/-- The row of a text. -/
def distanceRow (source target : List Char) : List Nat :=
  source.foldl (nextRow target) (List.range (target.length + 1))

/-- The edit distance of two lists of characters. -/
def editDistanceList (source target : List Char) : Nat :=
  -- the distance is symmetric, so the shorter text makes the row
  let row := if source.length < target.length then distanceRow target source else distanceRow source target
  row.getLastD 0

/-- The edit distance of two texts. -/
def editDistance (source target : String) : Nat :=
  editDistanceList source.toList target.toList

end Ballpark.Text
