import Ballpark.Unit.Vocabulary

/-!
# Names of units

What a single name in a unit text stands for. The rules are tried in a fixed order: a label with a
tick, an informal name, a name of the vocabulary, the same without its plural ending, and last a
decimal prefix in front of a name that does not take one by itself; the prefix then becomes a scale of
the value.
-/

namespace Ballpark

/-- An entry of the vocabulary. -/
inductive VocabularyEntry where
  | base (unit : BaseUnit)
  | withPrefix (front : DecimalPrefix) (unit : BaseUnit)
  | count (word : String) (factor : Rat)
  deriving DecidableEq, Repr

/-- The meaning of a name. -/
inductive UnitMeaning where
  /-- an opaque unit of the program's own -/
  | label (name : String)
  | entry (entry : VocabularyEntry)
  /-- an informal name for a number times powers of entries -/
  | product (name : String) (scale : Rat) (factors : List (VocabularyEntry × Int))
  deriving DecidableEq, Repr

/-- A unit as a factor of a product: its size in base units, and the key that it shares with the units
it differs from by a number alone. -/
structure NamedUnit (R : Type) where
  name : String
  dimension : Dimension
  factor : R
  base : String
  takesPrefix : Bool
  deriving Repr

namespace VocabularyEntry

/-- The dimension of an entry. -/
def dimension : VocabularyEntry → Dimension
  | base unit | withPrefix _ unit => Dimension.ofList unit.powers
  | count .. => Dimension.one

/-- The unit that an entry is. -/
def toUnit {R : Type} [Scalar R] : VocabularyEntry → NamedUnit R
  | base unit =>
    ⟨unit.name, Dimension.ofList unit.powers, unit.size.toScalar, unit.name, unit.takesPrefix⟩
  | withPrefix front unit =>
    ⟨front.name ++ unit.name, Dimension.ofList unit.powers,
      unit.size.toScalar * Scalar.pow (Scalar.ofNat 10) (Scalar.ofInt front.power), unit.name, false⟩
  | count word factor => ⟨word, Dimension.one, Scalar.ofRat factor, word, false⟩

end VocabularyEntry

namespace UnitMeaning

/-- The dimension of a product of entries. -/
def productDimension (factors : List (VocabularyEntry × Int)) : Dimension :=
  factors.foldl (fun d f => d.multiply (f.1.dimension.pow f.2)) Dimension.one

/-- The size of a product of entries. -/
def productFactor {R : Type} [Scalar R] (factors : List (VocabularyEntry × Int)) : R :=
  factors.foldl
    (fun x f => x * Scalar.pow (f.1.toUnit (R := R)).factor (Scalar.ofInt f.2)) (Scalar.ofNat 1)

/-- The dimension of a meaning. -/
def dimension : UnitMeaning → Dimension
  | label name => Dimension.label name
  | entry e => e.dimension
  | product _ _ factors => productDimension factors

/-- The unit that a meaning is. -/
def toUnit {R : Type} [Scalar R] : UnitMeaning → NamedUnit R
  | label name => ⟨name, Dimension.label name, Scalar.ofNat 1, "'" ++ name, false⟩
  | entry e => e.toUnit
  | product name scale factors =>
    ⟨name, productDimension factors, productFactor factors * Scalar.ofRat scale, name, false⟩

end UnitMeaning

namespace Vocabulary

/-- The names that a unit is entered under. -/
def plainForms (unit : BaseUnit) : List (String × VocabularyEntry) :=
  (unit.name :: unit.symbols ++ unit.plurals).map (·, .base unit)

/-- The names that a unit is entered under with a given prefix. -/
def prefixedForms (unit : BaseUnit) (front : DecimalPrefix) : List (String × VocabularyEntry) :=
  -- whole prefixes stand in front of words, signs in front of symbols
  let long := unit.name :: unit.symbols.filter (3 < ·.length) ++ unit.plurals
  let short := unit.symbols ++ (extraPrefixForms.filter (·.1 == unit.name)).map (·.2)
  let signs := front.symbol :: (if front.name == "micro" then microSigns else [])
  long.map (fun form => (front.name ++ form, .withPrefix front unit)) ++
    signs.flatMap fun sign => short.map fun form => (sign ++ form, .withPrefix front unit)

/-- All names; of two entries under one name the first holds. -/
def entries : List (String × VocabularyEntry) :=
  let plain := baseUnits.flatMap plainForms
  let counts := countingWords.map fun w => (w.1, VocabularyEntry.count w.1 w.2)
  let longer := (baseUnits.filter (·.takesPrefix)).flatMap fun unit =>
    decimalPrefixes.flatMap (prefixedForms unit)
  (plain ++ counts ++ longer).filter (!reservedNames.contains ·.1)

/-- The entry of a name. -/
def lookup? (name : String) : Option VocabularyEntry :=
  (entries.find? (·.1 == name)).map (·.2)

/-- The number that a counting word counts. -/
def countingWord? (name : String) : Option Rat :=
  (countingWords.find? (·.1 == name)).map (·.2)

/-- A name without its plural ending. -/
def singular (name : String) : String :=
  match irregularPlurals.find? (·.1 == Text.lowerText name) with
  | some entry => entry.2
  | none =>
    let text := name.toList
    if 1 < text.length && text.getLast? == some 's' then String.ofList text.dropLast else name

/-- Cuts off a front of as many characters as `form` has, if something is left behind it. -/
def cut? (form : String) (text name : List Char) : Option String :=
  if form.toList.isPrefixOf text && form.length < name.length then
    some (String.ofList (name.drop form.length))
  else none

/-- The symbols of prefixes, longest first. -/
def prefixSymbols : List (String × Int) :=
  let all := decimalPrefixes.map (fun p => (p.symbol, p.power)) ++ microSigns.map (·, -6)
  all.mergeSort fun a b => b.1.length ≤ a.1.length

/-- Splits a name into the power of a prefix and the rest: full names of prefixes first, in any case,
then symbols. -/
def splitPrefix? (name : String) : Option (Int × String) :=
  let text := name.toList
  let small := Text.lower text
  match decimalPrefixes.findSome? fun p => (cut? p.name small text).map (p.power, ·) with
  | some found => some found
  | none => prefixSymbols.findSome? fun s => (cut? s.1 text text).map (s.2, ·)

/-- The meaning of an informal name. -/
def alias? (name : String) : Option UnitMeaning :=
  match aliases.find? (·.1 == name) with
  | none => none
  | some (_, .same other) => (lookup? other).map .entry
  | some (_, .product scale factors) =>
    some (.product name scale (factors.filterMap fun f => (lookup? f.1).map (·, f.2)))

/-- The names that are offered as suggestions. -/
def knownNames : List String :=
  Suggestion.distinct (
    baseUnits.flatMap (fun unit => unit.name :: unit.symbols) ++
    ["kilometer", "km", "centimeter", "cm", "millimeter", "mm", "kilogram", "kg"] ++
    aliases.map (·.1) ++ countingWords.map (·.1))

end Vocabulary

/-- What a name was resolved to: its meaning, the power of ten that scales the value, and the symbol
to show. -/
structure ResolvedName where
  meaning : UnitMeaning
  power : Option Int
  symbol : String
  deriving DecidableEq, Repr

namespace UnitName

open Vocabulary

/-- The name of a label behind its ticks. -/
def labelName (name : String) : String :=
  String.ofList (name.toList.dropWhile (· == '\''))

/-- A prefix in front of a name that has a dimension. -/
def resolveWithPrefix? (name : String) : Option ResolvedName := do
  let (power, rest) ← splitPrefix? name
  let meaning ← [rest, singular rest].findSome? fun candidate =>
    match ((lookup? candidate).map UnitMeaning.entry).or (alias? candidate) with
    -- a number by itself takes no prefix
    | some meaning => if meaning.dimension.isOne then none else some meaning
    | none => none
  some ⟨meaning, some power, rest⟩

/-- What a name stands for. -/
def resolve? (name : String) : Option ResolvedName :=
  if name.toList.head? == some '\'' then some ⟨.label (labelName name), none, name⟩
  else if reservedNames.contains name then none
  else match alias? name with
    | some meaning => some ⟨meaning, none, name⟩
    | none => match lookup? name with
      | some e => some ⟨.entry e, none, name⟩
      | none => match lookup? (singular name) with
        | some e => some ⟨.entry e, none, name⟩
        | none => resolveWithPrefix? name

/-- Does a name stand for a unit? -/
def isKnown (name : String) : Bool :=
  (resolve? name).isSome

/-- The names to suggest for one that is not known. -/
def hints (name : String) : List String :=
  if reservedNames.contains name then [] else Suggestion.suggest name knownNames

end UnitName

/-- The scale of the value that a resolved name brings along. -/
def ResolvedName.scale {R : Type} [Scalar R] (r : ResolvedName) : R :=
  match r.power with
  | none => Scalar.ofNat 1
  | some power => Scalar.pow (Scalar.ofNat 10) (Scalar.ofInt power)

end Ballpark
