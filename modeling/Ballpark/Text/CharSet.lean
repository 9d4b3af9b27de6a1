/-!
# Sets of code points

A set of characters is a list of closed ranges. Tables of a standard are written as lines of
hexadecimal ranges, `41-5a 5f …`, which `CharSet.ofHex` reads.
-/

namespace Ballpark.Text

/-- The words of a text, that is its longest pieces without a space. -/
def splitWords (text : List Char) : List (List Char) :=
  text.foldr
    (fun c words => if c == ' ' then [] :: words else
      match words with
      | [] => [[c]]
      | w :: ws => (c :: w) :: ws)
    [[]] |>.filter (!·.isEmpty)

/-- The value of a hexadecimal digit, zero for any other character. -/
def hexDigit (c : Char) : Nat :=
  if '0' ≤ c ∧ c ≤ '9' then c.toNat - '0'.toNat
  else if 'a' ≤ c ∧ c ≤ 'f' then c.toNat - 'a'.toNat + 10
  else 0

/-- The value of a hexadecimal number. -/
def hexValue (digits : List Char) : Nat :=
  digits.foldl (fun n c => 16 * n + hexDigit c) 0

/-- A set of characters as closed ranges of code points. -/
abbrev CharSet := List (Nat × Nat)

namespace CharSet

/-- One range, `first-last` or a single code point. -/
def range (text : List Char) : Nat × Nat :=
  let first := text.takeWhile (· != '-')
  let last := (text.dropWhile (· != '-')).drop 1
  (hexValue first, hexValue (if last.isEmpty then first else last))

/-- The set written as lines of hexadecimal ranges with spaces between them. -/
def ofHex (lines : List String) : CharSet :=
  (lines.flatMap fun line => splitWords line.toList).map range

/-- Is the character in one of the ranges? -/
def holds (set : CharSet) (c : Char) : Bool :=
  set.any fun r => r.1 ≤ c.toNat && c.toNat ≤ r.2

end CharSet

end Ballpark.Text
