import Offside.CommandLine

/-!
# The program

Reading the file or the standard input as a whole, and writing what the command line makes of it.
-/

open Offside CommandLine

/-- Write an outcome and give its exit code. -/
def deliverOutcome (outcome : Outcome) : IO UInt32 := do
  let stdout ← IO.getStdout
  let stderr ← IO.getStderr
  stdout.putStr outcome.stdout
  stdout.flush
  stderr.putStr outcome.stderr
  stderr.flush
  return UInt32.ofNat outcome.code

/-- Why a file cannot be opened. -/
def openFailure : IO.Error → String
  | .noFileOrDirectory .. => noSuchFile
  | .permissionDenied .. => "Permission denied (os error 13)"
  | error => toString error

/-- What the program does with readable arguments. -/
def runProgram (arguments : Arguments) : IO Outcome := do
  let stdin ← IO.getStdin
  let terminal ← stdin.isTty
  match arguments.file with
  | none =>
    let bytes ← stdin.readBinToEnd
    return arguments.execute (.ofBytes bytes.toList) terminal
  | some name =>
    match ← (IO.FS.readBinFile name).toBaseIO with
    | .ok bytes => return arguments.execute (.ofBytes bytes.toList) terminal
    | .error error => return cannotOpen name (openFailure error)

/-- Read the arguments, then the text, and write what comes of them. -/
def main (arguments : List String) : IO UInt32 := do
  match Arguments.parse arguments with
  | .error error => deliverOutcome (badUsage error)
  | .ok arguments => deliverOutcome (← runProgram arguments)
