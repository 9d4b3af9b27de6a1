import Ballpark.CommandLine
import Ballpark.Random.Generator

/-!
# The program

Reads a program file, evaluates it and logs the values of its statements. Figures are planned and
named, but drawing them is left to other programs.
-/

namespace Ballpark.CommandLine

/-- How the program is called. -/
def usageText : String :=
  "usage: ballpark [-h] [--samples SAMPLES] [--seed SEED] [--confidence CONFIDENCE] [--csv CSV] " ++
    "[--figures FIGURES] [--log-file LOG_FILE] [--verbose] file"

/-- A number of milliseconds as seconds with two decimals. -/
def secondsText (milliseconds : Nat) : String :=
  Decimal.fixedText 2 (.finite false (milliseconds / 1000))

/-- The folder of a file, empty if its name says none. -/
def folderOf (file : String) : String :=
  String.ofList ((file.toList.reverse.dropWhile (· != '/')).drop 1).reverse

/-- The text of a file, or the reason that it cannot be read. -/
def readProgram (file : String) : IO (Except String String) := do
  try
    return .ok (← IO.FS.readFile ⟨file⟩)
  catch
    | .noFileOrDirectory .. => return .error (missingFile file)
    | e => return .error (toString e)

/-- Writes lines to a file, in a folder that is made if need be. -/
def writeLines (file : String) (lines : List String) : IO PUnit := do
  let folder := folderOf file
  if !folder.isEmpty then
    IO.FS.createDirAll ⟨folder⟩
  IO.FS.writeFile ⟨file⟩ (String.join (lines.map (· ++ "\n")))

/-- Evaluates the program file that the arguments name; gives the exit code. -/
def evaluateFile (a : Arguments Float) : IO UInt32 := do
  let start ← IO.monoMsNow
  match evaluate Generator a (← readProgram a.file) with
  | .error f =>
    IO.eprintln f.message
    return 1
  | .ok outcome =>
    let seconds := secondsText ((← IO.monoMsNow) - start)
    let lines := outcome.log.map (LogEntry.line seconds)
    for line in lines do
      IO.println line
    if let some file := a.logFile then
      writeLines file lines
    if let (some table, some file) := (outcome.summary, a.csv) then
      writeLines file table.lines
    return UInt32.ofNat outcome.code

end Ballpark.CommandLine

open Ballpark in
/-- Runs the program. -/
def main (arguments : List String) : IO UInt32 := do
  match (Arguments.ofList arguments : Invocation Float) with
  | .help =>
    IO.println CommandLine.usageText
    return 0
  | .refuse fault =>
    IO.eprintln CommandLine.usageText
    IO.eprintln fault.text
    return 2
  | .evaluate a => CommandLine.evaluateFile a
