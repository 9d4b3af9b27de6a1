import Ballpark.Text.CharSet
import Ballpark.Text.WordTable
import Ballpark.Text.HiddenTable
import Ballpark.Text.CaseTable

/-!
# Classes of characters

The character classes that programs and unit texts are read with: decimal digits of any script,
word characters, blanks, characters with a visible form, and small letters. ASCII is decided by rule,
so that statements about ASCII texts never meet a table.
-/

namespace Ballpark.Text

/-- The zeros of the scripts outside ASCII whose ten digits follow one another. -/
def foreignZeros : List Nat :=
  [0x660, 0x6f0, 0x7c0, 0x966, 0x9e6, 0xa66, 0xae6, 0xb66, 0xbe6, 0xc66, 0xce6, 0xd66, 0xde6, 0xe50,
   0xed0, 0xf20, 0x1040, 0x1090, 0x17e0, 0x1810, 0x1946, 0x19d0, 0x1a80, 0x1a90, 0x1b50, 0x1bb0,
   0x1c40, 0x1c50, 0xa620, 0xa8d0, 0xa900, 0xa9d0, 0xa9f0, 0xaa50, 0xabf0, 0xff10, 0x104a0, 0x10d30,
   0x11066, 0x110f0, 0x11136, 0x111d0, 0x112f0, 0x11450, 0x114d0, 0x11650, 0x116c0, 0x11730, 0x118e0,
   0x11950, 0x11c50, 0x11d50, 0x11da0, 0x16a60, 0x16ac0, 0x16b50, 0x1d7ce, 0x1d7d8, 0x1d7e2, 0x1d7ec,
   0x1d7f6, 0x1e140, 0x1e2f0, 0x1e950, 0x1fbf0]

/-- The value of a decimal digit of any script. -/
def digitValue? (c : Char) : Option Nat :=
  if c.isDigit then some (c.toNat - '0'.toNat)
  else if c.toNat < 0x80 then none
  else (foreignZeros.find? fun z => z ≤ c.toNat && c.toNat ≤ z + 9).map (c.toNat - ·)

/-- A decimal digit of any script. -/
def isDigit (c : Char) : Bool :=
  (digitValue? c).isSome

/-- A letter, a numeric character or the underscore. -/
def isWord (c : Char) : Bool :=
  if c.toNat < 0x80 then c.isAlphanum || c == '_' else wordTable.holds c

/-- White space of any script, line ends included. -/
def isBlank (c : Char) : Bool :=
  let n := c.toNat
  (0x09 ≤ n && n ≤ 0x0d) || (0x1c ≤ n && n ≤ 0x20) || n == 0x85 || n == 0xa0 || n == 0x1680
    || (0x2000 ≤ n && n ≤ 0x200a) || n == 0x2028 || n == 0x2029 || n == 0x202f || n == 0x205f
    || n == 0x3000

/-- Is the character shown as it is in a quoted text? -/
def isVisible (c : Char) : Bool :=
  if c.toNat < 0x80 then 0x20 ≤ c.toNat && c.toNat < 0x7f else !hiddenTable.holds c

/-- The small form of a character; a capital I with a dot becomes two characters. -/
def lowerChar (c : Char) : List Char :=
  if c.toNat < 0x80 then [c.toLower]
  else if c.toNat == 0x130 then ['i', Char.ofNat 0x307]
  else match caseTable.find? (·.holds c.toNat) with
    | some r => [Char.ofNat ((c.toNat : Int) + r.shift).toNat]
    | none => [c]

/-- Small letters throughout; a capital sigma that ends a word takes its final form. -/
def lower (text : List Char) : List Char :=
  go none text
where
  /-- Goes through the text with the character before it. -/
  go : Option Char → List Char → List Char
    | _, [] => []
    | before, c :: rest =>
      let final := c.toNat == 0x3a3 && before.any isWord && !rest.head?.any isWord
      (if final then [Char.ofNat 0x3c2] else lowerChar c) ++ go (some c) rest

/-- Drops the blanks at the start. -/
def trimStart (text : List Char) : List Char :=
  text.dropWhile isBlank

/-- Drops the blanks at the end. -/
def trimEnd (text : List Char) : List Char :=
  (text.reverse.dropWhile isBlank).reverse

/-- Drops the blanks at both ends. -/
def trim (text : List Char) : List Char :=
  trimEnd (trimStart text)

/-- A text without the blanks at its ends. -/
def trimText (text : String) : String :=
  String.ofList (trim text.toList)

/-- A text in small letters. -/
def lowerText (text : String) : String :=
  String.ofList (lower text.toList)

end Ballpark.Text
