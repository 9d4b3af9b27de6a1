import Ballpark.Fault
import Ballpark.Text.CharClass

/-!
# File names of charts

A name becomes a part of a file name by keeping ASCII letters, digits, points, hyphens and single
underscores; everything else becomes an underscore, and points and underscores at either end are cut
off.
-/

namespace Ballpark.FileName

/-- Characters that a file name may hold. -/
def isAllowed (c : Char) : Bool :=
  c.isAlphanum || c == '.' || c == '_' || c == '-'

/-- Characters that a file name neither starts nor ends with. -/
def isEdge (c : Char) : Bool :=
  c == '.' || c == '_'

/-- One underscore in place of each longest run of characters of a kind. -/
def joinRuns (isOf : Char → Bool) : List Char → List Char
  | [] => []
  | c :: rest =>
    if isOf c && rest.head?.any isOf then joinRuns isOf rest
    else (if isOf c then '_' else c) :: joinRuns isOf rest

/-- The characters between points and underscores at the ends. -/
def trimEdges (text : List Char) : List Char :=
  ((text.dropWhile isEdge).reverse.dropWhile isEdge).reverse

/-- What is left of a text without the blanks at its ends: one underscore for each run of blanks, then for
each run of what is not allowed, then for each run of underscores, and no point or underscore at an end. -/
def tidied (text : List Char) : List Char :=
  let words := joinRuns Text.isBlank (Text.trim text)
  let allowed := joinRuns (!isAllowed ·) words
  trimEdges (joinRuns (· == '_') allowed)

/-- The name of what has no name left. -/
def fallback : String := "figure"

/-- A name as a part of a file name. -/
def ofName (name : String) : String :=
  let text := tidied name.toList
  if text.isEmpty then fallback else String.ofList text

/-- The formats that charts are saved in. -/
def formats : List String := ["png", "pdf", "svg"]

/-- A file name without its ending: what stands behind its last point, unless that point is its first
or its last character. -/
def withoutEnding (name : String) : String :=
  let text := name.toList
  let ending := (text.reverse.takeWhile (· != '.')).length
  if ending = 0 || text.length ≤ ending + 1 then name
  else String.ofList (text.take (text.length - ending - 1))

/-- A file name with the ending of a format in place of its own. -/
def withFormat (name format : String) : String :=
  withoutEnding name ++ "." ++ format

/-- The file name in a path: what stands behind its last slash. -/
def ofPath (path : String) : String :=
  String.ofList (path.toList.reverse.takeWhile (· != '/')).reverse

/-- The file names that a chart is saved under, one for each format, when its path is given without
them. -/
def saved {R : Type} (path : String) (wanted : List String) : Except (Fault R) (List String) :=
  let unknown := wanted.filter (!formats.contains ·)
  if wanted.isEmpty then .error (.value .noFormats)
  else if !unknown.isEmpty then .error (.value (.unknownFormats unknown formats))
  else .ok (wanted.map (withFormat (ofPath path)))

end Ballpark.FileName
