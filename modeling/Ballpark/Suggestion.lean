import Ballpark.Text.CharClass
import Ballpark.Text.EditDistance

/-!
# Suggestions for misspelled names

A name that is not known is answered with the known names nearest to it, by edit distance without
regard to case. Names at distance zero are no suggestions: they differ in case only.
-/

namespace Ballpark.Suggestion

/-- The largest distance of a suggestion. -/
def maxDistance : Int := 3

/-- The most names that a message offers. -/
def maxNames : Int := 3

/-- A candidate with its distance. -/
structure Scored where
  distance : Nat
  name : String
  deriving DecidableEq, Repr

/-- The candidates without repetitions, in the order of their first occurrences. -/
def distinct (names : List String) : List String :=
  names.foldl (fun seen name => if seen.contains name then seen else seen ++ [name]) []

/-- The candidates near enough to the name, each with its distance. -/
def qualifying (name : String) (candidates : List String) (limit : Int) : List Scored :=
  let target := Text.lower name.toList
  (distinct candidates).filterMap fun candidate =>
    let distance := Text.editDistanceList target (Text.lower candidate.toList)
    -- the name itself is no suggestion
    if 0 < distance && (distance : Int) ≤ limit then some ⟨distance, candidate⟩ else none

/-- The first `count` items; a negative count drops as many at the end. -/
def firstItems {α : Type} (count : Int) (items : List α) : List α :=
  items.take (if count < 0 then items.length - count.natAbs else count.natAbs)

/-- The names nearest to `name`, nearest first, equally near ones in the order of the candidates. -/
def nearest (name : String) (candidates : List String) (limit : Int) (count : Int) : List String :=
  let ranked := (qualifying name candidates limit).mergeSort fun a b => a.distance ≤ b.distance
  firstItems count (ranked.map (·.name))

/-- The names that a message suggests. -/
def suggest (name : String) (candidates : List String) : List String :=
  nearest name candidates maxDistance maxNames

/-- The question that ends a message, empty when there is nothing to suggest. -/
def hint (names : List String) : String :=
  match names.map fun name => "'" ++ name ++ "'" with
  | [] => ""
  | [only] => ". Did you mean " ++ only ++ "?"
  | several => ". Did you mean " ++ ", ".intercalate several.dropLast ++ " or " ++
      several.getLastD "" ++ "?"

end Ballpark.Suggestion
