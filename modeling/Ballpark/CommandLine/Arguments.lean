import Ballpark.Binary64
import Ballpark.Scalar

/-!
# Arguments of the command line

Which program file to evaluate and how. An option may be shortened as long as it stays the only one
that starts so; its value stands behind it, or behind an equals sign. What starts with a hyphen is an
option, unless it is a negative number or holds a blank.
-/

namespace Ballpark

/-- The options. -/
inductive CommandOption where
  | help | samples | seed | confidence | csv | figures | logFile | verbose
  deriving DecidableEq, Repr

namespace CommandOption

/-- All options with the flags that they are written as. -/
def flags : List (String × CommandOption) :=
  [("-h", help), ("--help", help), ("--samples", samples), ("--seed", seed),
    ("--confidence", confidence), ("--csv", csv), ("--figures", figures), ("--log-file", logFile),
    ("--verbose", verbose)]

/-- Does a value follow the option? -/
def takesValue : CommandOption → Bool
  | help | verbose => false
  | _ => true

end CommandOption

/-- What is wrong with the arguments. -/
inductive UsageFault where
  | ambiguous (argument : String)
  | unexpectedValue (flag : String)
  | missingValue (flag : String)
  | invalidValue (flag value : String)
  | missingFile
  | unrecognized (arguments : List String)
  deriving DecidableEq, Repr

/-- The text of the fault. -/
def UsageFault.text : UsageFault → String
  | ambiguous argument => "ambiguous option: " ++ argument ++ " could match several options"
  | unexpectedValue flag => "argument " ++ flag ++ ": ignored explicit argument"
  | missingValue flag => "argument " ++ flag ++ ": expected one argument"
  | invalidValue flag value => "argument " ++ flag ++ ": invalid value: '" ++ value ++ "'"
  | missingFile => "the following arguments are required: file"
  | unrecognized arguments => "unrecognized arguments: " ++ " ".intercalate arguments

/-- What an argument is. -/
inductive ArgumentKind where
  | positional
  | option (o : CommandOption) (flag : String) (value : Option String)
  | unknown
  deriving DecidableEq, Repr

namespace ArgumentKind

/-- Splits a text at its first equals sign. -/
def splitValue (text : String) : String × Option String :=
  let chars := text.toList
  let front := chars.takeWhile (· != '=')
  if front.length = chars.length then (text, none)
  else (String.ofList front, some (String.ofList (chars.drop (front.length + 1))))

/-- Is the text a negative number without a power of ten? -/
def isNegativeNumber (text : String) : Bool :=
  match text.toList with
  | '-' :: digits =>
    let whole := digits.takeWhile Text.isDigit
    match digits.drop whole.length with
    | [] => !whole.isEmpty
    | '.' :: places => !places.isEmpty && places.all Text.isDigit
    | _ => false
  | _ => false

/-- The options whose flags start with a text. -/
def startingWith (front : String) : List (String × CommandOption) :=
  CommandOption.flags.filter fun f => front.toList.isPrefixOf f.1.toList

/-- What an argument that starts with a hyphen is when it is no complete flag. -/
def ofShortened (argument : String) : Except UsageFault ArgumentKind :=
  let (front, value) := splitValue argument
  let long := argument.toList.take 2 = ['-', '-']
  let found := if long then startingWith front else []
  let short := argument.toList.take 2 = ['-', 'h']
  let behind := String.ofList (argument.toList.drop 2)
  match found with
  | _ :: _ :: _ => .error (.ambiguous argument)
  | [(flag, o)] => .ok (option o flag value)
  | [] =>
    if short then .ok (option .help "-h" (some behind))
    else if isNegativeNumber argument || argument.toList.contains ' ' then .ok positional
    else .ok unknown

/-- What an argument is. -/
def ofText (argument : String) : Except UsageFault ArgumentKind :=
  if argument.toList.head? != some '-' || argument == "-" then .ok positional
  else
    let (front, value) := splitValue argument
    match CommandOption.flags.lookup argument, CommandOption.flags.lookup front with
    | some o, _ => .ok (option o argument none)
    | none, some o => .ok (option o front value)
    | none, none => ofShortened argument

end ArgumentKind

/-- What the command line asks for. -/
structure Arguments (R : Type) where
  /-- the program file -/
  file : String
  samples : Option Int
  seed : Option Int
  confidence : Option R
  /-- where to write a table of all variables -/
  csv : Option String
  /-- the folder to write figures to -/
  figures : Option String
  /-- where to write the log, beside standard output -/
  logFile : Option String
  verbose : Bool
  deriving Repr

/-- What the program is to do. -/
inductive Invocation (R : Type) where
  | evaluate (a : Arguments R)
  | help
  | refuse (fault : UsageFault)

namespace Arguments

variable {R : Type}

/-- Arguments that name a file and nothing else. -/
def ofFile (file : String) : Arguments R :=
  ⟨file, none, none, none, none, none, none, false⟩

/-- Drops underscores, each of which must stand between two digits. -/
def ungroup? (before : Option Char) : List Char → Option (List Char)
  | [] => some []
  | '_' :: rest =>
    if before.any Text.isDigit && rest.head?.any Text.isDigit then ungroup? none rest else none
  | c :: rest => (ungroup? (some c) rest).map (c :: ·)

/-- The whole number that a text writes. -/
def whole? (text : String) : Option Int := do
  Decimal.signedWhole? (← ungroup? none (Text.trim text.toList))

variable [Scalar R]

/-- A number without a sign: a literal, or the name of infinity or of no number. -/
def size? (text : List Char) : Option R :=
  let word := String.ofList (text.map Char.toLower)
  let infinity : R := Scalar.ofNat 1 / Scalar.ofNat 0
  if word == "inf" || word == "infinity" then some infinity
  else if word == "nan" then some (Scalar.ofNat 0 / Scalar.ofNat 0)
  else (Decimal.ofLiteral? text).map Scalar.ofDecimal

/-- The number that a text writes. -/
def number? (text : String) : Option R := do
  match ← ungroup? none (Text.trim text.toList) with
  | '-' :: size => (size? size).map fun x => -x
  | '+' :: size => size? size
  | size => size? size

/-- Takes the value of an option in. -/
def withValue (a : Arguments R) (o : CommandOption) (value : String) : Option (Arguments R) :=
  match o with
  | .samples => (whole? value).map fun n => { a with samples := some n }
  | .seed => (whole? value).map fun n => { a with seed := some n }
  | .confidence => (number? value).map fun x => { a with confidence := some x }
  | .csv => some { a with csv := some value }
  | .figures => some { a with figures := some value }
  | .logFile => some { a with logFile := some value }
  | .help | .verbose => some a

/-- Reading so far: the file if it has been found, the options, and what nobody asked for. -/
structure Progress (R : Type) where
  file : Option String
  options : Arguments R
  extra : List String

namespace Progress

/-- Nothing read. -/
def start : Progress R :=
  ⟨none, ofFile "", []⟩

/-- Takes an argument in that is no option: the first is the file. -/
def addPositional (p : Progress R) (argument : String) : Progress R :=
  match p.file with
  | none => { p with file := some argument }
  | some _ => { p with extra := p.extra ++ [argument] }

/-- Takes an option with its value in. -/
def addValue (p : Progress R) (o : CommandOption) (flag value : String) :
    Except UsageFault (Progress R) :=
  match p.options.withValue o value with
  | some options => .ok { p with options }
  | none => .error (.invalidValue flag value)

/-- The request when everything has been read. -/
def finish (p : Progress R) : Invocation R :=
  match p.file with
  | none => .refuse .missingFile
  | some file =>
    if p.extra.isEmpty then .evaluate { p.options with file } else .refuse (.unrecognized p.extra)

end Progress

/-- Does an option with something behind it only ask for help again? -/
def isRepeatedHelp (flag value : String) : Bool :=
  flag == "-h" && !value.isEmpty && value.toList.all (· == 'h')

/-- Reads arguments, each with its kind. Behind two hyphens nothing is an option, and they are no
value. -/
def read (p : Progress R) : List (String × ArgumentKind) → Invocation R
  | [] => p.finish
  | (argument, kind) :: rest =>
    if argument == "--" then (rest.foldl (fun p a => p.addPositional a.1) p).finish
    else match kind with
      | .positional => read (p.addPositional argument) rest
      | .unknown => read { p with extra := p.extra ++ [argument] } rest
      | .option o flag value =>
        match value with
        | some text =>
          if o.takesValue then
            match p.addValue o flag text with
            | .ok p => read p rest
            | .error fault => .refuse fault
          else if isRepeatedHelp flag text then .help
          else .refuse (.unexpectedValue flag)
        | none =>
          if o = .help then .help
          else if o = .verbose then
            read { p with options := { p.options with verbose := true } } rest
          else match rest with
            | (text, .positional) :: rest =>
              if text == "--" then .refuse (.missingValue flag)
              else match p.addValue o flag text with
                | .ok p => read p rest
                | .error fault => .refuse fault
            | _ => .refuse (.missingValue flag)

/-- The kinds of arguments. -/
def kinds : List String → Except UsageFault (List (String × ArgumentKind))
  | [] => .ok []
  | argument :: rest => do
    if argument == "--" then return (argument :: rest).map (·, .positional)
    else return (argument, ← ArgumentKind.ofText argument) :: (← kinds rest)

/-- What the arguments ask for. -/
def ofList (arguments : List String) : Invocation R :=
  match kinds arguments with
  | .ok marked => read .start marked
  | .error fault => .refuse fault

end Arguments

end Ballpark
