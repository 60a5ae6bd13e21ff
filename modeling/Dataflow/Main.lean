/-
The command line program.

It reads the files that a command asks for, performs the command, and writes its output to the
standard output and its notes to the standard error. The exit code is 0 on success and when help or
the version was asked for, 1 when the command failed, 2 when the command line was refused and 101
when a function crashed. Random numbers come from a 64-bit counter that advances by an odd constant;
each draw scrambles it with multiplications and shifts.
-/
import Dataflow.CommandLine.Commands
namespace Dataflow

namespace CommandLine

/-- How the program is used. -/
def usageText : String :=
  "\n".intercalate [
    "Run and check dataflow programs",
    "",
    "Usage: dataflow [-v]... <COMMAND>",
    "",
    "Commands:",
    "  run        Execute a program and print its outputs as JSON",
    "  check      Validate a program against the catalog",
    "  functions  List every callable function with its signature",
    ""]

/-- The version. -/
def versionText : String := "dataflow 0.1.0\n"

/-- The text for a refused command line. -/
def refusalText : Refusal → String
  | .nothingGiven | .helpWanted => usageText
  | .versionWanted => versionText
  | .missingCommand => "error: a command is missing\n"
  | .unknownCommand => "error: unrecognized command\n"
  | .unknownArgument => "error: unexpected argument\n"
  | .missingProgram => "error: the program file is missing\n"
  | .missingValue => "error: a value is required\n"
  | .badValue => "error: invalid value\n"
  | .unwantedValue => "error: unexpected value\n"
  | .repeatedOption => "error: an option cannot be used twice\n"

/-- The text of a cause. -/
def causeText : Cause → String
  | .text text => text
  | .json .malformed => "malformed JSON"
  | .json .truncated => "unexpected end of JSON"
  | .json .misfit => "JSON of the wrong shape"
  | .file .notFound => "no such file"
  | .file (.unreadable reason) => reason
  | .crash => "a function crashed"

/-- The rank of the least severe notes that are shown. -/
def shownRank : (verbose : Nat) → Nat
  | 0 => Level.warn.rank
  | 1 => Level.info.rank
  | 2 => Level.debug.rank
  | _ => Level.trace.rank

/-- Read a file. -/
def readFileText (file : String) : IO (Except FileError String) := do
  try
    return .ok (← IO.FS.readFile file)
  catch
    | .noFileOrDirectory .. => return .error .notFound
    | error => return .error (.unreadable (toString error))

/-- Read the files that a command may need. -/
def readFiles (files : List String) : IO (Record (Except FileError String)) := do
  let texts ← files.mapM fun file => do
    let text ← readFileText file
    return (file, text)
  return .ofList texts

/-- A number that differs from run to run. -/
def freshNumber : IO UInt64 := do
  let bytes ← IO.getRandomBytes 8
  return bytes.foldl (fun n byte => n * 256 + byte.toUInt64) 0

/-- Scramble a counter. -/
def scramble (n : UInt64) : UInt64 :=
  let a := (n ^^^ (n >>> 30)) * 0xbf58476d1ce4e5b9
  let b := (a ^^^ (a >>> 27)) * 0x94d049bb133111eb
  b ^^^ (b >>> 31)

/-- The draws that follow from a seed. -/
def seededSource (seed : UInt64) : RandomSource :=
  .ofStream fun n =>
    let bits := scramble (seed + UInt64.ofNat (n + 1) * 0x9e3779b97f4a7c15) >>> 11
    .ofFloat (bits.toFloat / 9007199254740992.0)

/-- Perform a command. -/
def perform (invocation : Invocation) : IO UInt32 := do
  let files ← readFiles invocation.command.files
  let name ← freshNumber
  let seed ← freshNumber
  let world : World :=
    ⟨fun file => (files.get? file).getD (.error .notFound), toString name, seededSource seed⟩
  let (outcome, transcript) := invocation.command.perform world
  for note in transcript.notes do
    if note.level.rank ≤ shownRank invocation.verbose then IO.eprintln note.line
  for (caller, id) in transcript.fired do
    IO.eprintln s!"{caller}:{id}"
  IO.print transcript.output
  match outcome with
  | .ok () => return 0
  | .error causes =>
    IO.eprintln ("Error: " ++ ": ".intercalate (causes.map causeText))
    return if causes.contains .crash then 101 else 1

/-- Read the command line and do what it asks for. -/
def respond (args : List String) : IO UInt32 := do
  match parse args with
  | .ok invocation => perform invocation
  | .error .helpWanted =>
    IO.print usageText
    return 0
  | .error .versionWanted =>
    IO.print versionText
    return 0
  | .error refusal =>
    IO.eprint (refusalText refusal)
    return 2

end CommandLine

end Dataflow

/-- The command line program. -/
def main (args : List String) : IO UInt32 := Dataflow.CommandLine.respond args
