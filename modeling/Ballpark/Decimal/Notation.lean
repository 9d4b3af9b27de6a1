import Ballpark.Decimal.Rounding
import Ballpark.Exact

/-!
# Decimal notations

Three ways to write an exact value: with a fixed number of decimal places, as one digit times a power
of ten, and in significant figures, where the size of the number decides between the two. All are
rounded correctly from the exact value, a half to the even neighbour.
-/

namespace Ballpark.Decimal

/-- The digits of a number, with zeros in front up to the given width. -/
def padded (width n : Nat) : List Char :=
  let digits := Nat.toDigits 10 n
  List.replicate (width - digits.length) '0' ++ digits

/-- Puts a point in front of the last `places` digits. -/
def pointed (places : Nat) (digits : List Char) : List Char :=
  if places == 0 then digits
  else digits.take (digits.length - places) ++ '.' :: digits.drop (digits.length - places)

/-- Drops the zeros at the end. -/
def dropZeros (digits : List Char) : List Char :=
  (digits.reverse.dropWhile (· == '0')).reverse

/-- Drops the zeros after the point, and the point if nothing is left behind it. -/
def dropEndZeros (text : List Char) : List Char :=
  if text.contains '.' then
    let kept := (text.reverse.dropWhile (· == '0')).reverse
    if kept.getLast? == some '.' then kept.dropLast else kept
  else text

/-- A power of ten: the mark, the sign and at least two digits. -/
def powerText (e : Int) : List Char :=
  'e' :: (if e < 0 then '-' else '+') :: padded 2 e.natAbs

/-- A size with a fixed number of decimal places. -/
def fixed (places : Nat) (q : Rat) : String :=
  String.ofList (pointed places (padded (places + 1) (roundAt q places)))

/-- A size as a digit, `places` decimals and a power of ten. -/
def scientific (places : Nat) (q : Rat) : String :=
  let f : Figures := if q.num == 0 then ⟨0, 0⟩ else significant (places + 1) q
  String.ofList (pointed places (padded (places + 1) f.digits) ++ powerText f.place)

/-- A size in significant figures: positional from 10⁻⁴ up to the number of figures, else with a power
of ten; zeros that end the decimals are dropped. -/
def general (figures : Nat) (q : Rat) : String :=
  if q.num == 0 then "0"
  else
    let f := significant figures q
    if -4 ≤ f.place && f.place < figures then
      let places := (figures - 1 - f.place).toNat
      String.ofList (dropEndZeros (pointed places (padded (places + 1) f.digits)))
    else
      String.ofList
        (dropEndZeros (pointed (figures - 1) (padded figures f.digits)) ++ powerText f.place)

/-- A value with a fixed number of decimal places. -/
def fixedText (places : Nat) (x : Exact) : String :=
  x.text (fixed places)

/-- A value as a digit, decimals and a power of ten. -/
def scientificText (places : Nat) (x : Exact) : String :=
  x.text (scientific places)

/-- A value in significant figures. -/
def generalText (figures : Nat) (x : Exact) : String :=
  x.text (general figures)

end Ballpark.Decimal
