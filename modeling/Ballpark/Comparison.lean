/-!
# Comparisons

The six ways to compare two numbers, and how they are written.
-/

namespace Ballpark

/-- The comparisons. -/
inductive Comparison where
  | greater | less | greaterEqual | lessEqual | equal | unequal
  deriving DecidableEq, Repr

namespace Comparison

/-- The text of a comparison. -/
def text : Comparison → String
  | greater => ">" | less => "<" | greaterEqual => ">=" | lessEqual => "<=" | equal => "=="
  | unequal => "!="

/-- All comparisons. -/
def all : List Comparison :=
  [greaterEqual, lessEqual, equal, unequal, greater, less]

/-- The comparison that a text writes. -/
def ofText? (text : String) : Option Comparison :=
  all.find? (·.text == text)

end Comparison

end Ballpark
