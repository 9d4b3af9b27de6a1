import Ballpark.Unit.Compound

/-!
# Reading units

The text of a unit is a quotient of products: `kg m / s^2`, `mile per hour`, `1 / (kg m^3)`. A slash
divides by the whole product that follows it, and one slash after another goes from left to right.

    quotient := product (("/" | "per") product)*
    product  := power (("*" | "·")? power)*
    power    := atom (("^" | "**") exponent)?
    atom     := name | number | "(" quotient ")"

Reading gives the factors of the unit and a number, which prefixes and written numbers contribute to.
-/

namespace Ballpark

/-- A token of a unit text. -/
inductive UnitToken where
  | number (text : String)
  | name (text : String)
  | mark (text : String)
  deriving DecidableEq, Repr

namespace UnitToken

/-- The text of a token. -/
def text : UnitToken → String
  | number t | name t | mark t => t

/-- A letter that a name may start with, outside ASCII. -/
def isUnitSign (c : Char) : Bool :=
  c == '°' || c == 'µ' || c == 'μ' || c == 'Ω' || c == '$'

/-- May a name start with this character? -/
def startsName (c : Char) : Bool :=
  c.isAlpha || c == '_' || isUnitSign c

/-- May a name go on with this character? -/
def continuesName (c : Char) : Bool :=
  startsName c || c.isDigit

/-- The characters of a number, when the text starts with one. -/
def numberFront (text : List Char) : List Char :=
  let whole := text.takeWhile Text.isDigit
  let rest := text.drop whole.length
  let places := (rest.drop 1).takeWhile Text.isDigit
  let point := rest.head? == some '.'
  let mantissa :=
    if point && !(whole.isEmpty && places.isEmpty) then whole ++ '.' :: places else whole
  if mantissa.isEmpty then [] else mantissa ++ Decimal.powerFront (text.drop mantissa.length)

/-- The characters of a name, when the text starts with one. -/
def nameFront (text : List Char) : List Char :=
  let (tick, rest) := match text with
    | '\'' :: more => (['\''], more)
    | more => ([], more)
  match rest with
  | c :: _ => if startsName c then tick ++ rest.takeWhile continuesName else []
  | [] => []

/-- The characters of a mark, when the text starts with one. -/
def markFront : List Char → List Char
  | '*' :: '*' :: _ => ['*', '*']
  | c :: _ => if ['*', '/', '^', '(', ')', '·', '-'].contains c then [c] else []
  | [] => []

/-- The first token of a text that has no blank in front. -/
def front? (text : List Char) : Option UnitToken :=
  match numberFront text with
  | _ :: _ => some (.number (String.ofList (numberFront text)))
  | [] => match nameFront text with
    | _ :: _ =>
      let name := String.ofList (nameFront text)
      -- the word for a slash has the letters of a name
      some (if name == "per" then .mark "/" else .name name)
    | [] => match markFront text with
      | _ :: _ => some (.mark (String.ofList (markFront text)))
      | [] => none

/-- How many characters the first token takes. -/
def frontLength (text : List Char) : Nat :=
  (if (numberFront text).isEmpty then
    if (nameFront text).isEmpty then markFront text else nameFront text
  else numberFront text).length

/-- The first token of a text that starts with `c`, and how many characters it takes with the blanks in
front of it. -/
def next {R : Type} (unit : String) (column : Nat) (c : Char) (text : List Char) :
    Except (Fault R) (UnitToken × Nat) :=
  let blanks := (text.takeWhile Text.isBlank).length
  let body := text.drop blanks
  match front? body with
  | none => .error (.unitText unit (.character c column))
  | some token => .ok (token, blanks + frontLength body)

/-- The tokens of a text; at most `limit` of them. -/
def scan {R : Type} (unit : String) : Nat → Nat → List Char → Except (Fault R) (List UnitToken)
  | _, _, [] => .ok []
  | 0, _, _ => .ok []
  | limit + 1, column, c :: rest => do
    let (token, length) ← next unit column c (c :: rest)
    return token :: (← scan unit limit (column + length) ((c :: rest).drop length))

/-- The tokens of a unit's text. -/
def ofText {R : Type} (unit : String) : Except (Fault R) (List UnitToken) :=
  let text := Text.trimEnd unit.toList
  scan (String.ofList text) text.length 1 text

end UnitToken

/-- The factors of a unit and the number they come with. -/
structure ScaledTerms (R : Type) where
  terms : List (UnitTerm R)
  scale : R

namespace ScaledTerms

variable {R : Type} [Scalar R]

/-- The product of two. -/
def multiply (a b : ScaledTerms R) : ScaledTerms R :=
  ⟨a.terms ++ b.terms, a.scale * b.scale⟩

/-- The quotient of two. -/
def divide (a b : ScaledTerms R) : Except (Fault R) (ScaledTerms R) := do
  let scale ← Checked.div a.scale b.scale
  return ⟨a.terms ++ b.terms.map fun t => { t with power := -t.power }, scale⟩

/-- A power of one. -/
def pow (a : ScaledTerms R) (k : Rat) : Except (Fault R) (ScaledTerms R) := do
  let scale ← Checked.powRat a.scale k
  return ⟨a.terms.map fun t => { t with power := t.power * k }, scale⟩

end ScaledTerms

/-- Readers of unit tokens. -/
abbrev UnitReader (R : Type) := StateT (List UnitToken) (Except (Fault R))

namespace UnitReader

variable {R : Type}

/-- Is this the next token? -/
def at? (marks : List String) : UnitReader R Bool := do
  match (← get).head? with
  | some (.mark m) => return marks.contains m
  | _ => return false

/-- Takes the next token. -/
def take (unit : String) : UnitReader R UnitToken := do
  match ← get with
  | [] => throw (.unitText unit .ended)
  | token :: rest =>
    set rest
    return token

/-- Takes a token with a given text. -/
def expect (unit text : String) : UnitReader R PUnit := do
  let token ← take unit
  if token.text == text then return ⟨⟩ else throw (.unitText unit (.expected text token.text))

variable [Scalar R]

/-- The sign of a fraction's numerator. -/
def signOf (q : Rat) : Int :=
  q.num.sign

/-- Reads an exponent: a number with an optional sign, or a quotient of exponents in parentheses. -/
def exponent (unit : String) : Nat → UnitReader R Rat
  | 0 => throw .exhausted
  | limit + 1 => do
    if ← at? ["("] then
      let _ ← take unit
      let k ← exponent unit limit
      let k ← if ← at? ["/"] then do
          let _ ← take unit
          let d ← exponent unit limit
          if d = 0 then throw (.arithmetic (.fractionOverZero (signOf k))) else pure (k / d)
        else pure k
      expect unit ")"
      return k
    else
      let negative ← at? ["-"]
      if negative then
        let _ ← take unit
      match ← take unit with
      | .number text =>
        let k ← Exponent.ofScalar (Scalar.ofDecimal (Decimal.ofText text) : R)
        return if negative then -k else k
      | token => throw (.unitText unit (.expectedExponent token.text))

/-- The factor that a name stands for. -/
def named (name : String) : Except (Fault R) (ScaledTerms R) :=
  match UnitName.resolve? name with
  | some r => .ok ⟨[⟨r.symbol, r.meaning.toUnit, 1⟩], r.scale⟩
  | none => .error (.unknownUnit name (UnitName.hints name))

mutual

/-- Reads a quotient of products. -/
def quotient (unit : String) : Nat → UnitReader R (ScaledTerms R)
  | 0 => throw .exhausted
  | limit + 1 => do quotientRest unit limit (← product unit limit)

/-- Goes on dividing by products. -/
def quotientRest (unit : String) : Nat → ScaledTerms R → UnitReader R (ScaledTerms R)
  | 0, _ => throw .exhausted
  | limit + 1, left => do
    if ← at? ["/"] then
      let _ ← take unit
      let right ← product unit limit
      quotientRest unit limit (← left.divide right)
    else return left

/-- Reads a product of powers. -/
def product (unit : String) : Nat → UnitReader R (ScaledTerms R)
  | 0 => throw .exhausted
  | limit + 1 => do productRest unit limit (← power unit limit)

/-- Goes on multiplying by powers. -/
def productRest (unit : String) : Nat → ScaledTerms R → UnitReader R (ScaledTerms R)
  | 0, _ => throw .exhausted
  | limit + 1, left => do
    match (← get).head? with
    | some (.mark m) =>
      if m == "*" || m == "·" then
        let _ ← take unit
        productRest unit limit (left.multiply (← power unit limit))
      -- a factor without a sign: a parenthesis begins one, and so does all that is no mark
      else if m == "(" then productRest unit limit (left.multiply (← power unit limit))
      else return left
    | some _ => productRest unit limit (left.multiply (← power unit limit))
    | none => return left

/-- Reads an atom with an optional exponent. -/
def power (unit : String) : Nat → UnitReader R (ScaledTerms R)
  | 0 => throw .exhausted
  | limit + 1 => do
    let base ← atom unit limit
    if ← at? ["^", "**"] then
      let _ ← take unit
      base.pow (← exponent unit limit)
    else return base

/-- Reads a name, a number or a quotient in parentheses. -/
def atom (unit : String) : Nat → UnitReader R (ScaledTerms R)
  | 0 => throw .exhausted
  | limit + 1 => do
    match ← take unit with
    | .number text => return ⟨[], Scalar.ofDecimal (Decimal.ofText text)⟩
    | .name name => liftM (named name : Except (Fault R) (ScaledTerms R))
    | .mark "(" =>
      let inner ← quotient unit limit
      expect unit ")"
      return inner
    | .mark m => throw (.unitText unit (.unexpected m))

end

/-- Reads all tokens of a unit's text. -/
def all (unit : String) (tokens : List UnitToken) : Except (Fault R) (ScaledTerms R) := do
  let (result, rest) ← (quotient unit (5 * tokens.length + 5)).run tokens
  match rest with
  -- what no rule has taken is out of place
  | [] => return result
  | token :: _ => throw (.unitText unit (.unexpected token.text))

end UnitReader

/-- Reads a unit: its canonical form and the number that values come with. A blank text is the unit of
plain numbers. -/
def CompoundUnit.ofText {R : Type} [Scalar R] (text : String) :
    Except (Fault R) (CompoundUnit R × R) := do
  let unit := Text.trimText text
  if unit.isEmpty then return (CompoundUnit.one, Scalar.ofNat 1)
  else
    let read ← UnitReader.all unit (← UnitToken.ofText unit)
    let (canonical, scale) ← CompoundUnit.canonicalize read.terms
    return (canonical, read.scale * scale)

end Ballpark
