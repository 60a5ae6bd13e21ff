/-
The commands: run a program, check one, list the functions.

A command prints text, makes notes and may fail. What it printed before a failure stays printed. A
failure is a chain of causes, the outermost first.
-/
import Dataflow.CommandLine.Arguments
import Dataflow.Environment
import Dataflow.Json.Parser
import Dataflow.Library
import Dataflow.Program.Wire
namespace Dataflow

namespace CommandLine

/-- Why a file cannot be read. -/
inductive FileError where
  | notFound
  | unreadable (reason : String)
  deriving DecidableEq

/-- One cause of a failure. -/
inductive Cause where
  | text (text : String)
  | json (fault : Fault)
  | file (error : FileError)
  /-- A function crashed. -/
  | crash
  deriving DecidableEq

/-- What commands take from outside. -/
structure World where
  read : String → Except FileError String
  /-- The name of the run. -/
  run : String
  random : RandomSource

/-- What a command leaves behind. -/
structure Transcript where
  output : String
  notes : Array Note
  /-- The firings to show, as callers and nodes. -/
  fired : List (String × String)

/-- A command at work: it fails with a chain of causes, and the transcript stays. -/
abbrev Console := ExceptT (List Cause) (StateM Transcript)

namespace Console

/-- Print a line. -/
def line (text : String) : Console Unit :=
  modify fun t => { t with output := t.output ++ text ++ "\n" }

/-- Keep the notes of a computation. -/
def noted {α : Type} (x : Noted α) : Console α :=
  modifyGet fun t =>
    let (a, notes) := x.run t.notes
    (a, { t with notes })

/-- Keep notes and firings of a run. -/
def keep (notes : Array Note) (fired : List (String × String)) : Console Unit :=
  modify fun t => { t with notes := t.notes ++ notes, fired := t.fired ++ fired }

end Console

/-- Read a program file. -/
def loadProgram (world : World) (file : String) : Console Program :=
  match world.read file with
  | .error error => throw [.text s!"failed to read {file}", .file error]
  | .ok text =>
    match Draft.readText Program.read text with
    | .error fault => throw [.text s!"invalid program in {file}", .json fault]
    | .ok p => return p

/-- Read the inputs of a run. -/
def parseInputs (text : String) : Console (Record Json) :=
  match Draft.readText Draft.value text with
  | .error fault => throw [.text "--input is not valid JSON", .json fault]
  | .ok (.object members) => return .ofList members
  | .ok value => throw [.text ("--input must be a JSON object, got " ++ value.text)]

/-- The library and the functions from files. -/
def environment (world : World) (config : Config) (functions : List (String × String)) :
    Console Environment := do
  let catalog ← Console.noted Library.setUp
  let env ← Console.noted (Environment.ofConfig catalog config)
  functions.foldlM
    (fun env (name, file) => do
      let p ← loadProgram world file
      Console.noted (env.addFunction name p))
    env

/-- The settings of a run. -/
def RunRequest.config (r : RunRequest) : Config :=
  let config := { Config.default with budgetSlack := r.budgetSlack }
  match r.cache with
  | some max => config.withCache max
  | none => config

/-- Run a program and print its outputs. -/
def runCommand (world : World) (r : RunRequest) : Console Unit := do
  let env ← environment world r.config r.functions
  let p ← loadProgram world r.program
  let inputs ← parseInputs r.input
  let report := env.run world.run world.random p inputs
  Console.keep report.notes
    (if r.trace then report.events.toList.filterMap Event.fired? else [])
  match report.outcome with
  | .error (.failed error) =>
    throw [.text s!"run of {r.program} failed", .text error.message]
  | .error .crashed => throw [.crash]
  | .error .outOfDepth =>
    throw [.text s!"run of {r.program} failed", .text "calls are nested too deeply"]
  | .ok outputs =>
    if let some stats := report.environment.cacheStats then
      Console.noted (Noted.note (.cacheSummary stats.entries stats.hits stats.misses))
    Console.line (Json.ofRecord outputs).pretty

/-- Check a program and print what is wrong with it. -/
def checkCommand (world : World) (program : String) (cycles : Bool)
    (functions : List (String × String)) : Console Unit := do
  let env ← environment world .default functions
  let p ← loadProgram world program
  let diagnostics := env.validate p ++ if cycles then p.cycles env.catalog else []
  diagnostics.forM fun d => Console.line d.text
  if diagnostics.isEmpty then
    Console.line s!"{program}: ok ({p.size} nodes)"
  else throw [.text s!"{program} has {diagnostics.length} problem(s)"]

/-- Names with commas between them. -/
def commaList (names : List String) : String := ", ".intercalate names

/-- A function in one line. -/
def summary (name : String) (signature : Signature) : String :=
  let callbacks := signature.callbacks.entries.map fun (callback, cb) =>
    " [" ++ callback ++ ": (" ++ commaList (Param.names cb.input) ++ ") -> "
      ++ commaList (Param.names cb.output) ++ "]"
  name ++ "(" ++ commaList signature.inputNames ++ ") -> "
    ++ commaList signature.outputNames ++ "".intercalate callbacks

/-- List the functions. -/
def functionsCommand (world : World) (json : Bool) (functions : List (String × String)) :
    Console Unit := do
  let env ← environment world .default functions
  if json then
    let members := env.catalog.all.map fun (name, signature) => (name, signature.toJson)
    Console.line (Json.object members).normal.pretty
  else
    env.catalog.all.forM fun (name, signature) => Console.line (summary name signature)

/-- Execute a command. -/
def Command.execute (world : World) : Command → Console Unit
  | .run request => runCommand world request
  | .check program cycles added => checkCommand world program cycles added
  | .functions json added => functionsCommand world json added

/-- The files that a command may read. -/
def Command.files : Command → List String
  | .run request => request.functions.map (·.2) ++ [request.program]
  | .check program _ added => added.map (·.2) ++ [program]
  | .functions _ added => added.map (·.2)

/-- Everything that a command does: its failure, if it fails, and its transcript. -/
def Command.perform (world : World) (c : Command) : Except (List Cause) Unit × Transcript :=
  (c.execute world).run.run ⟨"", #[], []⟩

end CommandLine

end Dataflow
