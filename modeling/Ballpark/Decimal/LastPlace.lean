import Ballpark.Decimal

/-!
# The last significant place

Which place of a written number its last significant digit stands at: behind a point every digit
counts, without a point the zeros at the end do not.
-/

namespace Ballpark.Decimal

/-- How many zeros end a text. -/
def endZeros (digits : List Char) : Nat :=
  (digits.reverse.takeWhile (· == '0')).length

/-- The place of the last significant digit of a mantissa. -/
def mantissaPlace (mantissa : List Char) : Int :=
  if mantissa.contains '.' then -(((mantissa.dropWhile (· != '.')).drop 1).length : Int)
  else if mantissa.all (· == '0') then 0
  else endZeros mantissa

/-- The power of ten that the last significant digit of a literal stands for. -/
def lastPlace (literal : String) : Int :=
  let text := literal.toList
  let mantissa := text.takeWhile (!isExponentMark ·)
  let power := (text.dropWhile (!isExponentMark ·)).drop 1
  mantissaPlace mantissa + (signedWhole? power).getD 0

end Ballpark.Decimal
