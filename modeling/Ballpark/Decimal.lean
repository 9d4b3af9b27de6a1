import Ballpark.Decimal.Rounding
import Ballpark.Text.CharClass

/-!
# Decimal literals

A literal is kept exactly, as its digits times a power of ten, and becomes a number only where one is
computed with. Digits may come from any script.
-/

namespace Ballpark

/-- The number `digits · 10 ^ exponent`, or its opposite. -/
structure Decimal where
  /-- is it the opposite? a zero may be, too -/
  negative : Bool
  /-- the written digits as one number -/
  digits : Nat
  /-- the power of ten that the digits are multiplied by -/
  exponent : Int
  deriving DecidableEq, Repr, Inhabited

namespace Decimal

/-- A whole number as a literal. -/
def ofNat (n : Nat) : Decimal :=
  ⟨false, n, 0⟩

/-- The value without its sign. -/
def magnitude (d : Decimal) : Rat :=
  if d.exponent < 0 then mkRat d.digits (tenPow d.exponent.natAbs)
  else ((d.digits * tenPow d.exponent.natAbs : Nat) : Rat)

/-- The exact value. -/
def value (d : Decimal) : Rat :=
  if d.negative then -d.magnitude else d.magnitude

/-- The number that a list of digits writes. -/
def ofDigits (digits : List Nat) : Nat :=
  digits.foldl (fun n d => 10 * n + d) 0

/-- The digits at the start of a text. -/
def leadingDigits (text : List Char) : List Nat :=
  (text.takeWhile Text.isDigit).filterMap Text.digitValue?

/-- A whole number with an optional sign, as after the mark of an exponent. -/
def signedWhole? (text : List Char) : Option Int :=
  let (negative, digits) := match text with
    | '-' :: rest => (true, rest)
    | '+' :: rest => (false, rest)
    | rest => (false, rest)
  if digits.isEmpty || !digits.all Text.isDigit then none
  else
    let n : Int := ofDigits (leadingDigits digits)
    some (if negative then -n else n)

/-- Does the text go on with the mark of an exponent? -/
def isExponentMark (c : Char) : Bool :=
  c == 'e' || c == 'E'

/-- The characters of a power of ten, when the text goes on with one. -/
def powerFront (text : List Char) : List Char :=
  match text with
  | e :: rest =>
    if isExponentMark e then
      let (sign, digits) := match rest with
        | '-' :: more => (['-'], more)
        | '+' :: more => (['+'], more)
        | more => ([], more)
      match digits.takeWhile Text.isDigit with
      | [] => []
      | ds => e :: sign ++ ds
    else []
  | [] => []

/-- Reads a literal without a sign: digits, at most one point and an optional power of ten. -/
def ofLiteral? (text : List Char) : Option Decimal := do
  let mantissa := text.takeWhile (!isExponentMark ·)
  let power := (text.dropWhile (!isExponentMark ·)).drop 1
  let shift ← if text.any isExponentMark then signedWhole? power else some 0
  let whole := mantissa.takeWhile (· != '.')
  let places := (mantissa.dropWhile (· != '.')).drop 1
  if whole.isEmpty && places.isEmpty then none
  else if !(whole ++ places).all Text.isDigit then none
  else some ⟨false, ofDigits (leadingDigits (whole ++ places)), shift - places.length⟩

/-- The value of a literal's text, zero if it is none. -/
def ofText (text : String) : Decimal :=
  (ofLiteral? text.toList).getD (ofNat 0)

end Decimal

end Ballpark
