import Ballpark.Bindings
import Ballpark.Summary

/-!
# Summary tables

A table of quantities, one a row, with their statistics in their own units. It can be written as
comma-separated text, in which an undefined number is an empty cell.
-/

namespace Ballpark

/-- A cell of a table. -/
inductive Cell (R : Type) where
  | text (t : String)
  | number (x : R)
  | count (n : Nat)
  deriving Repr

/-- A table: the names of its columns, and rows with a cell for each. -/
structure Table (R : Type) where
  columns : List String
  rows : List (List (Cell R))
  deriving Repr

namespace Report

/-- The columns that a summary must have. -/
def requiredColumns : List String :=
  ["name", "unit", "dimension", "mean", "std", "p5", "median", "p95", "samples", "reported"]

/-- The columns of a summary. -/
def columns : List String :=
  requiredColumns ++ ["fractional spread", "percentage spread (%)"]

variable {R : Type} [Scalar R]

/-- The number that stands where there is none. -/
def undefinedNumber : R :=
  Scalar.ofNat 0 / Scalar.ofNat 0

/-- The row of a quantity. -/
def row (name : String) (q : Quantity R) : Except (Fault R) (List (Cell R)) := do
  let reported ← Summary.withUncertainty q.mean q.deviation q.unit.text
  let (fraction, percent) :=
    (Summary.relativeForms q.mean q.deviation).getD (undefinedNumber, undefinedNumber)
  return [.text name, .text q.unit.text, .text (q.unit.dimension.name?.getD ""),
    .number q.mean, .number q.deviation, .number (q.percentileAt 0.05),
    .number (q.percentileAt 0.5), .number (q.percentileAt 0.95), .count q.size, .text reported,
    .number fraction, .number percent]

/-- The summary of quantities under their names. -/
def summarize (quantities : Bindings (Quantity R)) : Except (Fault R) (Table R) := do
  return ⟨columns, ← quantities.entries.mapM fun (name, q) => row name q⟩

end Report

namespace Table

variable {R : Type}

/-- The items of a row that stand in columns that are kept. -/
def keep {α : Type} (columns dropped : List String) (row : List α) : List α :=
  (columns.zip row).filterMap fun (column, item) =>
    if dropped.contains column then none else some item

/-- A table without some of its columns. -/
def dropColumns (t : Table R) (dropped : List String) : Table R :=
  ⟨keep t.columns dropped t.columns, t.rows.map (keep t.columns dropped)⟩

/-- A table that has all columns of a summary. -/
def requireColumns (t : Table R) : Except (Fault R) (Table R) :=
  let missing := Report.requiredColumns.filter (!t.columns.contains ·)
  if missing.isEmpty then .ok t else .error (.missingColumns missing)

/-- A text as a cell of comma-separated text: in quotes if it holds a comma, a quote or the end of a
line. -/
def quotedCell (text : String) : String :=
  let chars := text.toList
  if chars.any [',', '"', '\n', '\r'].contains then
    String.ofList ('"' :: chars.flatMap (fun c => if c = '"' then ['"', '"'] else [c]) ++ ['"'])
  else text

/-- The text of a cell. -/
def cellText [Scalar R] : Cell R → String
  | .text t => quotedCell t
  | .number x => if Scalar.isUndefined x then "" else numberText x
  | .count n => toString n

/-- The lines of a table as comma-separated text. -/
def lines [Scalar R] (t : Table R) : List String :=
  (t.columns.map quotedCell :: t.rows.map (·.map cellText)).map (",".intercalate ·)

end Table

end Ballpark
