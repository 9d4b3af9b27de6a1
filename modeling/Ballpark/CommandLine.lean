import Ballpark.Chart.Figure
import Ballpark.CommandLine.Arguments
import Ballpark.Report
import Ballpark.Session.Run

/-!
# Evaluating a program file

What the command line does with a program's text: it runs the statements, logs the value of each, and
on request makes a summary table of all variables and figures of the uncertain ones. The log is a list
of entries; the time that the evaluation took is filled in when it is written.
-/

namespace Ballpark

/-- How grave a log entry is. -/
inductive LogLevel where
  | info | warning | error
  deriving DecidableEq, Repr

/-- The name of a level. -/
def LogLevel.text : LogLevel → String
  | info => "INFO" | warning => "WARNING" | error => "ERROR"

/-- An entry of the log. -/
inductive LogEntry where
  | evaluating (file : String) (samples : Nat)
  | statementFailed (number : Nat) (message : String)
  | value (label shown : String)
  | evaluated (statements failures : Nat)
  | savedSummary (quantities : Nat) (file : String)
  | savedFigures (figures : Nat) (folder : String)
  | invalidSettings (message : String)
  | cannotRead (file reason : String)
  | parseError (file message : String)
  deriving DecidableEq, Repr

namespace LogEntry

/-- The level of an entry. -/
def level : LogEntry → LogLevel
  | statementFailed .. => .warning
  | invalidSettings _ | cannotRead .. | parseError .. => .error
  | _ => .info

/-- The text of an entry, given the seconds that the evaluation took. -/
def message (seconds : String) : LogEntry → String
  | evaluating file samples =>
    "Evaluating " ++ file ++ s!" with {samples} samples per distribution"
  | statementFailed number message => s!"Statement {number} failed: " ++ message
  | value label shown => label ++ " = " ++ shown
  | evaluated statements failures =>
    s!"Evaluated {statements} statement(s) in " ++ seconds ++ s!" seconds ({failures} failed)"
  | savedSummary quantities file => s!"Saved summary of {quantities} quantities to " ++ file
  | savedFigures figures folder => s!"Saved {figures} figure(s) to " ++ folder
  | invalidSettings message => "Invalid settings: " ++ message
  | cannotRead file reason => "Cannot read " ++ file ++ ": " ++ reason
  | parseError file message => "Parse error in " ++ file ++ ": " ++ message

/-- The line of an entry, without the time at which it is written. -/
def line (seconds : String) (entry : LogEntry) : String :=
  entry.level.text ++ " - " ++ entry.message seconds

end LogEntry

namespace CommandLine

/-- What comes of an invocation. -/
structure Outcome (R : Type) where
  code : Nat
  log : List LogEntry
  /-- the summary table, if it is asked for -/
  summary : Option (Table R)
  /-- the names of the figures' files, if they are asked for -/
  figures : Option (List String)

/-- The exit code of a failure. -/
def failureCode : Nat := 1

/-- The exit code when nothing could be evaluated. -/
def refusalCode : Nat := 2

/-- The reason that a file which does not exist cannot be read. -/
def missingFile (file : String) : String :=
  "[Errno 2] No such file or directory: " ++ Text.quoted file

/-- A text whose lines all end in the same way, whatever ends they had. -/
def unifyLineEnds : List Char → List Char
  | '\r' :: '\n' :: rest => '\n' :: unifyLineEnds rest
  | '\r' :: rest => '\n' :: unifyLineEnds rest
  | c :: rest => c :: unifyLineEnds rest
  | [] => []

variable {R : Type} [Scalar R]

/-- An outcome without results. -/
def stopped (code : Nat) (log : List LogEntry) : Outcome R :=
  ⟨code, log, none, none⟩

/-- The settings that the arguments ask for. -/
def settingsOf (a : Arguments R) : Except (Fault R) (Settings R) :=
  let changes : SettingsRequest R := ⟨a.samples.map .whole, a.confidence.map .decimal, a.seed⟩
  (SettingsRequest.default.withOverrides changes).check

/-- The entry of a failed statement. -/
def failureEntry? (r : StatementResult R) : Option LogEntry :=
  match r.outcome with
  | .ok _ => none
  | .error f => some (.statementFailed (r.index + 1) f.message)

/-- The entry of a value. -/
def valueEntry? (r : StatementResult R) : Option LogEntry :=
  r.value?.map fun q => .value (r.name?.getD s!"[{r.index + 1}]") q.text

/-- The kinds of figures of an uncertain variable. -/
def figureKinds : List String := ["histogram", "dotplot"]

/-- The files of the figures of a variable; an exact one has none. -/
def figureFiles (name : String) (q : Quantity R) : Except (Fault R) (List String) := do
  if q.isScalar then return []
  else
    let options : FigureOptions := { FigureOptions.none with title := some name }
    let _ ← Figure.histogram q (.whole Histogram.usualBins) options
    let _ ← Figure.dotplot q (.whole Dotplot.usualDots) options
    return figureKinds.map fun kind =>
      FileName.withFormat (FileName.ofName name ++ "_" ++ kind) "png"

/-- A path that is given. -/
def given? (path : Option String) : Option String :=
  path.filter (!·.isEmpty)

/-- The outcome of a run. -/
def outcomeOf (a : Arguments R) (opening : LogEntry) (results : List (StatementResult R))
    (named : Bindings (Quantity R)) : Except (Fault R) (Outcome R) := do
  let failures := (results.filter (·.hasFailed)).length
  let log := opening :: results.filterMap failureEntry? ++ results.filterMap valueEntry?
    ++ [.evaluated results.length failures]
  let summary ← (given? a.csv).mapM fun file => do
    return (LogEntry.savedSummary named.entries.length file, ← Report.summarize named)
  let figures ← (given? a.figures).mapM fun folder => do
    let files ← named.entries.mapM fun (name, q) => figureFiles name q
    return (LogEntry.savedFigures files.flatten.length folder, files.flatten)
  return ⟨if failures = 0 then 0 else failureCode,
    log ++ (summary.map (·.1)).toList ++ (figures.map (·.1)).toList,
    summary.map (·.2), figures.map (·.2)⟩

/-- Evaluates a program file, given its text or the reason that it cannot be read. -/
def evaluate (S : Type) [RandomSource S R] (a : Arguments R) (source : Except String String) :
    Except (Fault R) (Outcome R) := do
  match settingsOf a with
  | .error (.value cause) =>
    return stopped refusalCode [.invalidSettings (Fault.message (.value cause : Fault R))]
  | .error f => throw f
  | .ok settings =>
    match source with
    | .error reason => return stopped refusalCode [.cannotRead a.file reason]
    | .ok text =>
      let opening := LogEntry.evaluating a.file settings.sampleCount.size
      let program := String.ofList (unifyLineEnds text.toList)
      let start : Session R S := .ofSettings settings
      match (Session.run program : Evaluation R S _).run start with
      | (.error (.program cause), _) =>
        let message := Fault.message (.program cause : Fault R)
        return stopped failureCode [opening, .parseError a.file message]
      | (.error f, _) => throw f
      | (.ok results, session) => outcomeOf a opening results session.values

end CommandLine

end Ballpark
