import Ballpark.Fault

/-!
# Tokens of a program

A program's text is cut into newlines, numbers, names, labels with a tick and operators; blanks and
comments separate them. A newline ends a statement only where no bracket is open, so inside brackets
it is dropped. Each token knows its line and column, counted from one.
-/

namespace Ballpark

/-- The sorts of tokens. -/
inductive TokenKind where
  | newline | number | label | name | mark | finish
  deriving DecidableEq, Repr

/-- A token with its place. -/
structure Token where
  kind : TokenKind
  text : String
  line : Nat
  column : Nat
  deriving DecidableEq, Repr

/-- A piece of the text: a token, or what separates tokens. -/
inductive Piece where
  | token (kind : TokenKind) (text : List Char)
  | gap (text : List Char)
  deriving DecidableEq, Repr

namespace Piece

/-- The characters of a piece. -/
def chars : Piece → List Char
  | token _ text | gap text => text

/-- A sign that a name may hold, outside ASCII. -/
def isNameSign (c : Char) : Bool :=
  c == 'µ' || c == 'μ' || c == '°' || c == 'Ω' || c == '$'

/-- May a label go on with this character behind its tick? -/
def startsLabel (c : Char) : Bool :=
  c.isAlpha || c == '_'

/-- May a name start with this character? -/
def startsName (c : Char) : Bool :=
  startsLabel c || isNameSign c

/-- May a name go on with this character? -/
def continuesName (c : Char) : Bool :=
  Text.isWord c || isNameSign c

/-- Characters that separate tokens. -/
def isGap (c : Char) : Bool :=
  c == ' ' || c == '\t' || c == '\r'

/-- The digits and the point of a number at the start of a text. Two points are no decimal point, so
`1..2` starts with `1`. -/
def mantissaFront (text : List Char) : List Char :=
  let whole := text.takeWhile Text.isDigit
  match text.drop whole.length with
  | '.' :: rest =>
    let places := rest.takeWhile Text.isDigit
    if whole.isEmpty then (if places.isEmpty then [] else '.' :: places)
    else if rest.head? == some '.' then whole
    else whole ++ '.' :: places
  | _ => whole

/-- The number at the start of a text, if there is one. -/
def numberFront (text : List Char) : List Char :=
  match mantissaFront text with
  | [] => []
  | mantissa => mantissa ++ Decimal.powerFront (text.drop mantissa.length)

/-- The label at the start of a text, if there is one. -/
def labelFront : List Char → List Char
  | '\'' :: c :: rest => if startsLabel c then '\'' :: c :: rest.takeWhile Text.isWord else []
  | _ => []

/-- The name at the start of a text, if there is one. -/
def nameFront : List Char → List Char
  | c :: rest => if startsName c then c :: rest.takeWhile continuesName else []
  | [] => []

/-- The operators of two characters. -/
def longMarks : List (List Char) :=
  ["**", "->", "..", "+-", ">=", "<=", "==", "!="].map String.toList

/-- The operators of one character. -/
def shortMarks : List Char :=
  ['±', '-', '+', '*', '/', '^', '(', ')', '\x7b', '\x7d', '<', '>', ',', ':', '=', '~', '%', ';']

/-- The operator at the start of a text, if there is one. -/
def markFront (text : List Char) : List Char :=
  if longMarks.contains (text.take 2) then text.take 2
  else match text with
    | c :: _ => if shortMarks.contains c then [c] else []
    | [] => []

/-- The first piece of a text. -/
def front? (text : List Char) : Option Piece :=
  match text with
  | [] => none
  | '\n' :: _ => some (.token .newline ['\n'])
  | '#' :: rest => some (.gap ('#' :: rest.takeWhile (· != '\n')))
  | c :: _ =>
    if isGap c then some (.gap (text.takeWhile isGap))
    -- a point in front of a digit begins a number, and else it may begin an operator
    else if !(numberFront text).isEmpty then some (.token .number (numberFront text))
    else if !(labelFront text).isEmpty then some (.token .label (labelFront text))
    else if !(nameFront text).isEmpty then some (.token .name (nameFront text))
    else if !(markFront text).isEmpty then some (.token .mark (markFront text))
    else none

end Piece

/-- Where the tokenizer stands: the place of the next character and the number of open brackets. -/
structure ScanPlace where
  line : Nat
  column : Nat
  depth : Nat
  deriving DecidableEq, Repr

namespace ScanPlace

/-- The place at the start of a text. -/
def start : ScanPlace :=
  ⟨1, 1, 0⟩

/-- The place behind a piece. A closing bracket that nothing opened is not counted. -/
def after (p : ScanPlace) : Piece → ScanPlace
  | .gap text => { p with column := p.column + text.length }
  | .token .newline _ => { p with line := p.line + 1, column := 1 }
  | .token _ text =>
    let depth :=
      if text == ['('] || text == ['\x7b'] then p.depth + 1
      else if text == [')'] || text == ['\x7d'] then p.depth - 1
      else p.depth
    { p with column := p.column + text.length, depth }

/-- The token that a piece at this place is, if it counts. -/
def token? (p : ScanPlace) : Piece → Option Token
  | .gap _ => none
  -- inside brackets a newline separates no statements
  | .token .newline text => if p.depth = 0 then some ⟨.newline, String.ofList text, p.line, p.column⟩
    else none
  | .token kind text => some ⟨kind, String.ofList text, p.line, p.column⟩

end ScanPlace

namespace Token

/-- The tokens of the rest of a text, at most `limit` pieces of it. -/
def scan : Nat → ScanPlace → List Char → Except ProgramFault (List Token)
  | _, p, [] => .ok [⟨.finish, "", p.line, p.column⟩]
  | 0, p, c :: _ => .error ⟨.character c, p.line, p.column⟩
  | limit + 1, p, c :: rest =>
    match Piece.front? (c :: rest) with
    | none => .error ⟨.character c, p.line, p.column⟩
    | some piece => do
      let later ← scan limit (p.after piece) ((c :: rest).drop piece.chars.length)
      return (p.token? piece).toList ++ later

/-- The tokens of a program's text; the last one marks its end. -/
def ofText (source : String) : Except ProgramFault (List Token) :=
  scan source.toList.length .start source.toList

/-- How a message names a token. -/
def shown (t : Token) : String :=
  match t.kind with
  | .finish => "end of input"
  | .newline => "end of line"
  | _ => "'" ++ t.text ++ "'"

end Token

end Ballpark
