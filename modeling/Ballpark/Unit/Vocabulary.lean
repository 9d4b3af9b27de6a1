import Ballpark.Dimension

/-!
# The vocabulary of units

The units that a program may name: base and derived units with their symbols and plurals, the forms
of prefixable units with a decimal prefix in front, counting words, and informal names for products of
them. All of it is data, with exact sizes.
-/

namespace Ballpark

/-- The size of a unit in base units. -/
inductive Size where
  | exact (value : Rat)
  /-- half a turn divided by a number -/
  | piOver (parts : Nat)
  deriving DecidableEq, Repr

/-- The number that a size is. -/
def Size.toScalar {R : Type} [Scalar R] : Size → R
  | exact value => Scalar.ofRat value
  | piOver parts => Scalar.pi / Scalar.ofNat parts

/-- A unit of the vocabulary. -/
structure BaseUnit where
  name : String
  symbols : List String
  plurals : List String
  powers : List (Base × Rat)
  size : Size
  /-- may a decimal prefix stand in front of it? -/
  takesPrefix : Bool
  deriving DecidableEq, Repr

/-- A decimal prefix. -/
structure DecimalPrefix where
  name : String
  symbol : String
  /-- the power of ten that it stands for -/
  power : Int
  deriving DecidableEq, Repr

namespace Vocabulary

/-- The decimal prefixes, largest first. -/
def decimalPrefixes : List DecimalPrefix := [
  ⟨"yotta", "Y", 24⟩,
  ⟨"zetta", "Z", 21⟩,
  ⟨"exa", "E", 18⟩,
  ⟨"peta", "P", 15⟩,
  ⟨"tera", "T", 12⟩,
  ⟨"giga", "G", 9⟩,
  ⟨"mega", "M", 6⟩,
  ⟨"kilo", "k", 3⟩,
  ⟨"hecto", "h", 2⟩,
  ⟨"deca", "da", 1⟩,
  ⟨"deka", "da", 1⟩,
  ⟨"deci", "d", -1⟩,
  ⟨"centi", "c", -2⟩,
  ⟨"milli", "m", -3⟩,
  ⟨"micro", "u", -6⟩,
  ⟨"nano", "n", -9⟩,
  ⟨"pico", "p", -12⟩,
  ⟨"femto", "f", -15⟩,
  ⟨"atto", "a", -18⟩,
  ⟨"zepto", "z", -21⟩,
  ⟨"yocto", "y", -24⟩]

/-- Signs that stand for a millionth beside its letter. -/
def microSigns : List String := ["μ", "µ"]

/-- The counting words and what they count. -/
def countingWords : List (String × Rat) := [
  ("hundred", 1e2),
  ("thousand", 1e3),
  ("million", 1e6),
  ("billion", 1e9),
  ("trillion", 1e12),
  ("quadrillion", 1e15),
  ("quintillion", 1e18),
  ("sextillion", 1e21),
  ("septillion", 1e24)]

/-- The units, in the order in which their names are tried. -/
def baseUnits : List BaseUnit := [
  ⟨"meter", ["m", "metre"], ["meters", "metres"], [(.length, 1)], .exact 1.0, true⟩,
  ⟨"inch", ["in"], ["inches"], [(.length, 1)], .exact 0.0254, false⟩,
  ⟨"foot", ["ft"], ["feet"], [(.length, 1)], .exact 0.3048, false⟩,
  ⟨"yard", ["yd"], ["yards"], [(.length, 1)], .exact 0.9144, false⟩,
  ⟨"mile", ["mi"], ["miles"], [(.length, 1)], .exact 1609.344, false⟩,
  ⟨"nauticalmile", ["nmi"], ["nauticalmiles"], [(.length, 1)], .exact 1852.0, false⟩,
  ⟨"angstrom", [], ["angstroms"], [(.length, 1)], .exact 1e-10, false⟩,
  ⟨"lightyear", ["ly"], ["lightyears"], [(.length, 1)], .exact 9.4607304725808e15, false⟩,
  ⟨"parsec", ["pc"], ["parsecs"], [(.length, 1)], .exact 3.0856775814913673e16, false⟩,
  ⟨"AU", ["au"], [], [(.length, 1)], .exact 149597870700.0, false⟩,
  ⟨"gram", ["g", "gramme"], ["grams", "grammes"], [(.mass, 1)], .exact 1e-3, true⟩,
  ⟨"tonne", ["t"], ["tonnes"], [(.mass, 1)], .exact 1000.0, true⟩,
  ⟨"ton", [], ["tons"], [(.mass, 1)], .exact 907.18474, false⟩,
  ⟨"pound", ["lb"], ["pounds"], [(.mass, 1)], .exact 0.45359237, false⟩,
  ⟨"ounce", ["oz"], ["ounces"], [(.mass, 1)], .exact 0.028349523125, false⟩,
  ⟨"stone", [], ["stones"], [(.mass, 1)], .exact 6.35029318, false⟩,
  ⟨"second", ["s", "sec"], ["seconds"], [(.time, 1)], .exact 1.0, true⟩,
  ⟨"minute", [], ["minutes"], [(.time, 1)], .exact 60.0, false⟩,
  ⟨"hour", ["h"], ["hours"], [(.time, 1)], .exact 3600.0, false⟩,
  ⟨"day", [], ["days"], [(.time, 1)], .exact 86400.0, false⟩,
  ⟨"week", [], ["weeks"], [(.time, 1)], .exact 604800.0, false⟩,
  ⟨"month", [], ["months"], [(.time, 1)], .exact 2629800.0, false⟩,
  ⟨"year", [], ["years"], [(.time, 1)], .exact 31557600.0, false⟩,
  ⟨"ampere", ["A", "amp"], ["amperes", "amps"], [(.current, 1)], .exact 1.0, true⟩,
  ⟨"kelvin", ["K"], ["kelvins"], [(.temperature, 1)], .exact 1.0, true⟩,
  ⟨"degC", [], [], [(.temperature, 1)], .exact 1.0, false⟩,
  ⟨"degF", [], [], [(.temperature, 1)], .exact (5.0 / 9.0), false⟩,
  ⟨"mole", ["mol"], ["moles"], [(.amount, 1)], .exact 1.0, true⟩,
  ⟨"candela", ["cd"], ["candelas"], [(.luminous, 1)], .exact 1.0, true⟩,
  ⟨"radian", ["rad"], ["radians"], [(.angle, 1)], .exact 1.0, true⟩,
  ⟨"degree", ["deg"], ["degrees"], [(.angle, 1)], .piOver 180, false⟩,
  ⟨"arcmin", [], ["arcmins"], [(.angle, 1)], .piOver 10800, false⟩,
  ⟨"arcsec", [], ["arcsecs"], [(.angle, 1)], .piOver 648000, false⟩,
  ⟨"steradian", ["sr"], ["steradians"], [(.angle, 2)], .exact 1.0, false⟩,
  ⟨"bit", ["b"], ["bits"], [(.information, 1)], .exact 1.0, true⟩,
  ⟨"byte", ["B"], ["bytes"], [(.information, 1)], .exact 8.0, true⟩,
  ⟨"acre", [], ["acres"], [(.length, 2)], .exact 4046.8564224, false⟩,
  ⟨"hectare", [], ["hectares"], [(.length, 2)], .exact 1e4, false⟩,
  ⟨"liter", ["L", "l", "litre"], ["liters", "litres"], [(.length, 3)], .exact 1e-3, true⟩,
  ⟨"gallon", [], ["gallons"], [(.length, 3)], .exact 3.785411784e-3, false⟩,
  ⟨"quart", [], ["quarts"], [(.length, 3)], .exact 9.46352946e-4, false⟩,
  ⟨"pint", [], ["pints"], [(.length, 3)], .exact 4.73176473e-4, false⟩,
  ⟨"cup", [], ["cups"], [(.length, 3)], .exact 2.365882365e-4, false⟩,
  ⟨"tablespoon", [], ["tablespoons"], [(.length, 3)], .exact 1.478676478125e-5, false⟩,
  ⟨"teaspoon", [], ["teaspoons"], [(.length, 3)], .exact 4.92892159375e-6, false⟩,
  ⟨"fluidounce", [], ["fluidounces"], [(.length, 3)], .exact 2.95735295625e-5, false⟩,
  ⟨"newton", ["N"], ["newtons"], [(.mass, 1), (.length, 1), (.time, -2)], .exact 1.0, true⟩,
  ⟨"dyne", [], ["dynes"], [(.mass, 1), (.length, 1), (.time, -2)], .exact 1e-5, false⟩,
  ⟨"poundforce", ["lbf"], [], [(.mass, 1), (.length, 1), (.time, -2)], .exact 4.4482216152605,
    false⟩,
  ⟨"joule", ["J"], ["joules"], [(.mass, 1), (.length, 2), (.time, -2)], .exact 1.0, true⟩,
  ⟨"calorie", ["cal"], ["calories"], [(.mass, 1), (.length, 2), (.time, -2)], .exact 4.184, true⟩,
  ⟨"electronvolt", ["eV"], ["electronvolts"], [(.mass, 1), (.length, 2), (.time, -2)],
    .exact 1.602176634e-19, true⟩,
  ⟨"erg", [], ["ergs"], [(.mass, 1), (.length, 2), (.time, -2)], .exact 1e-7, false⟩,
  ⟨"BTU", [], [], [(.mass, 1), (.length, 2), (.time, -2)], .exact 1055.05585262, false⟩,
  ⟨"watt", ["W"], ["watts"], [(.mass, 1), (.length, 2), (.time, -3)], .exact 1.0, true⟩,
  ⟨"horsepower", ["hp"], [], [(.mass, 1), (.length, 2), (.time, -3)], .exact 745.69987158227, false⟩,
  ⟨"pascal", ["Pa"], ["pascals"], [(.mass, 1), (.length, -1), (.time, -2)], .exact 1.0, true⟩,
  ⟨"bar", [], ["bars"], [(.mass, 1), (.length, -1), (.time, -2)], .exact 1e5, true⟩,
  ⟨"atmosphere", [], ["atmospheres"], [(.mass, 1), (.length, -1), (.time, -2)], .exact 101325.0,
    false⟩,
  ⟨"psi", [], [], [(.mass, 1), (.length, -1), (.time, -2)], .exact 6894.757293168, false⟩,
  ⟨"torr", [], [], [(.mass, 1), (.length, -1), (.time, -2)], .exact 133.32236842105263, false⟩,
  ⟨"mmHg", [], [], [(.mass, 1), (.length, -1), (.time, -2)], .exact 133.322387415, false⟩,
  ⟨"hertz", ["Hz"], [], [(.time, -1)], .exact 1.0, true⟩,
  ⟨"knot", [], ["knots"], [(.length, 1), (.time, -1)], .exact (1852.0 / 3600.0), false⟩,
  ⟨"coulomb", ["C"], ["coulombs"], [(.time, 1), (.current, 1)], .exact 1.0, true⟩,
  ⟨"volt", ["V"], ["volts"], [(.mass, 1), (.length, 2), (.time, -3), (.current, -1)], .exact 1.0,
    true⟩,
  ⟨"ohm", [], ["ohms"], [(.mass, 1), (.length, 2), (.time, -3), (.current, -2)], .exact 1.0, true⟩,
  ⟨"farad", ["F"], ["farads"], [(.mass, -1), (.length, -2), (.time, 4), (.current, 2)],
    .exact 1.0, true⟩,
  ⟨"henry", ["H"], ["henries"], [(.mass, 1), (.length, 2), (.time, -2), (.current, -2)],
    .exact 1.0, true⟩,
  ⟨"siemens", ["S"], [], [(.mass, -1), (.length, -2), (.time, 3), (.current, 2)], .exact 1.0, true⟩,
  ⟨"weber", ["Wb"], ["webers"], [(.mass, 1), (.length, 2), (.time, -2), (.current, -1)],
    .exact 1.0, true⟩,
  ⟨"tesla", ["T"], ["teslas"], [(.mass, 1), (.time, -2), (.current, -1)], .exact 1.0, true⟩,
  ⟨"lumen", ["lm"], ["lumens"], [(.luminous, 1), (.angle, 2)], .exact 1.0, true⟩,
  ⟨"lux", ["lx"], [], [(.luminous, 1), (.angle, 2), (.length, -2)], .exact 1.0, true⟩]

/-- Long names that take the symbols of prefixes, too. -/
def extraPrefixForms : List (String × String) := [("bar", "bar"), ("ohm", "ohm")]

/-- Names that stand for something else in programs. -/
def reservedNames : List String := ["dB"]

/-- What an informal name stands for. -/
inductive AliasTarget where
  /-- another name of the vocabulary -/
  | same (name : String)
  /-- a number times powers of named units -/
  | product (scale : Rat) (factors : List (String × Int))
  deriving DecidableEq, Repr

/-- The informal names. -/
def aliases : List (String × AliasTarget) := [
  ("yr", .same "year"),
  ("yrs", .same "year"),
  ("mo", .same "month"),
  ("mos", .same "month"),
  ("wk", .same "week"),
  ("wks", .same "week"),
  ("d", .same "day"),
  ("hr", .same "hour"),
  ("hrs", .same "hour"),
  ("min", .same "minute"),
  ("mins", .same "minute"),
  ("secs", .same "second"),
  ("ms", .same "millisecond"),
  ("us", .same "microsecond"),
  ("ns", .same "nanosecond"),
  ("fortnight", .product 336 [("hour", 1)]),
  ("fortnights", .product 336 [("hour", 1)]),
  ("decade", .product 3652.425 [("day", 1)]),
  ("decades", .product 3652.425 [("day", 1)]),
  ("century", .product 36524.25 [("day", 1)]),
  ("centuries", .product 36524.25 [("day", 1)]),
  ("millennium", .product 365242.5 [("day", 1)]),
  ("millennia", .product 365242.5 [("day", 1)]),
  ("yds", .same "yard"),
  ("lbs", .same "pound"),
  ("mph", .product 1 [("mile", 1), ("hour", -1)]),
  ("kph", .product 1 [("km", 1), ("hour", -1)]),
  ("kmh", .product 1 [("km", 1), ("hour", -1)]),
  ("kmph", .product 1 [("km", 1), ("hour", -1)]),
  ("mps", .product 1 [("m", 1), ("s", -1)]),
  ("fps", .product 1 [("foot", 1), ("second", -1)]),
  ("kn", .same "knot"),
  ("kt", .same "knot"),
  ("kts", .same "knot"),
  ("gal", .same "gallon"),
  ("gals", .same "gallon"),
  ("qt", .same "quart"),
  ("pt", .same "pint"),
  ("tbsp", .same "tablespoon"),
  ("Tbsp", .same "tablespoon"),
  ("tsp", .same "teaspoon"),
  ("floz", .same "fluidounce"),
  ("cc", .product 1 [("cm", 3)]),
  ("sqft", .product 1 [("foot", 2)]),
  ("sqm", .product 1 [("m", 2)]),
  ("sqkm", .product 1 [("km", 2)]),
  ("sqmi", .product 1 [("mile", 2)]),
  ("sqyd", .product 1 [("yard", 2)]),
  ("sqin", .product 1 [("inch", 2)]),
  ("ha", .same "hectare"),
  ("Cal", .same "kilocalorie"),
  ("kWh", .product 1 [("kW", 1), ("hour", 1)]),
  ("kwh", .product 1 [("kW", 1), ("hour", 1)]),
  ("Wh", .product 1 [("W", 1), ("hour", 1)]),
  ("wh", .product 1 [("W", 1), ("hour", 1)]),
  ("ev", .same "electronvolt"),
  ("atm", .same "atmosphere"),
  ("celsius", .same "degC"),
  ("fahrenheit", .same "degF"),
  ("hz", .same "hertz"),
  ("khz", .same "kilohertz"),
  ("mhz", .same "megahertz"),
  ("ghz", .same "gigahertz"),
  ("KB", .same "kilobyte"),
  ("arcminute", .same "arcmin"),
  ("arcsecond", .same "arcsec"),
  ("lyr", .same "lightyear"),
  ("dozen", .product 12 []),
  ("doz", .product 12 []),
  ("gross", .product 144 []),
  ("score", .product 20 []),
  ("pair", .product 2 []),
  ("pairs", .product 2 []),
  ("rpm", .product 1 [("minute", -1)]),
  ("rps", .product 1 [("second", -1)]),
  ("bpm", .product 1 [("minute", -1)])]

/-- Plurals that do not end in the letter of plurals. -/
def irregularPlurals : List (String × String) := [("feet", "foot"), ("inches", "inch")]

end Vocabulary

end Ballpark
