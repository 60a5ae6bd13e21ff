/-
The arguments of the command line.

A command has flags, options with a value, and for two of the three commands a
program file; they come in any order. `--name value` and `--name=value` say the same, and after
`--` everything is a file. Arguments are looked at from left to right. The value of an option is
checked only when the next argument has been recognised, so an unknown argument is
reported before a bad value that stands right in front of it.

* `CommandLine.scan` — sorts the arguments of a command by its grammar;
* `CommandLine.parse` — what a command line asks for, or why it is refused.
-/
namespace Dataflow

namespace CommandLine

/-- Why a command line is refused, or answered without running a command. -/
inductive Refusal where
  /-- There are no arguments. -/
  | nothingGiven
  /-- There are only flags. -/
  | missingCommand
  | unknownCommand
  /-- An unknown flag or option, or a file too many. -/
  | unknownArgument
  | missingProgram
  /-- An option or a file name without its text. -/
  | missingValue
  /-- The value of an option is not of its form. -/
  | badValue
  /-- A flag with a value. -/
  | unwantedValue
  /-- A flag or an option that may be given once is given twice. -/
  | repeatedOption
  | helpWanted
  | versionWanted
  deriving DecidableEq, Repr

/-! ### Tokens -/

/-- The form of one argument. -/
inductive Token where
  /-- `--`, the end of the options. -/
  | ending
  /-- `--name` or `--name=value`. -/
  | long (name : String) (value : Option String)
  /-- `-letters`. -/
  | short (letters : List Char)
  | word (text : String)
  deriving DecidableEq

/-- The parts of a text before and after its first `=`. -/
def splitAtEquals (cs : List Char) : String × Option String :=
  let name := String.ofList (cs.takeWhile fun c => c ≠ '=')
  match cs.dropWhile fun c => c ≠ '=' with
  | [] => (name, none)
  | _ :: value => (name, some (String.ofList value))

/-- The token of an argument. -/
def Token.ofString (text : String) : Token :=
  match text.toList with
  | ['-', '-'] => .ending
  | '-' :: '-' :: rest =>
    let (name, value) := splitAtEquals rest
    .long name value
  | '-' :: letter :: letters => .short (letter :: letters)
  | _ => .word text

/-! ### Values -/

/-- A size: decimal digits, with or without a plus sign, that fit 64 bits. -/
def size? (text : String) : Option UInt64 :=
  let digits :=
    match text.toList with
    | '+' :: rest => rest
    | cs => cs
  if digits.isEmpty ∨ !digits.all Char.isDigit then none
  else
    let n := digits.foldl (fun n c => 10 * n + (c.toNat - '0'.toNat)) 0
    if n < UInt64.size then some (UInt64.ofNat n) else none

/-- A function name and a file, written `NAME=FILE`. -/
def functionFile? (text : String) : Option (String × String) :=
  match splitAtEquals text.toList with
  | (name, some file) => if name.isEmpty ∨ file.isEmpty then none else some (name, file)
  | (_, none) => none

/-! ### Grammars -/

/-- An option that takes a value. -/
structure OptionRule where
  name : String
  repeatable : Bool
  isValid : String → Bool

/-- What may follow the name of a command. -/
structure Grammar where
  takesProgram : Bool
  flags : List String
  options : List OptionRule

/-- The argument that has been recognised last and is not settled yet. -/
inductive Pending where
  | nothing
  | program (path : String)
  | option (rule : OptionRule) (value : Option String)

/-- The arguments of a command, sorted. -/
structure Sorted where
  /-- How often more notes were asked for. -/
  verbose : Nat
  program : Option String
  flags : List String
  /-- The options with their values, in order. -/
  values : List (String × String)
  pending : Pending

namespace Sorted

/-- Before any argument. -/
def empty : Sorted := ⟨0, none, [], [], .nothing⟩

/-- Whether a flag was given. -/
def hasFlag (s : Sorted) (name : String) : Bool := s.flags.contains name

/-- The values of an option, in order. -/
def valuesOf (s : Sorted) (name : String) : List String :=
  (s.values.filter fun entry => entry.1 = name).map (·.2)

/-- Whether a program file was given. -/
def hasProgram (s : Sorted) : Bool :=
  match s.pending with
  | .program _ => true
  | _ => s.program.isSome

/-- Take the value of an option. -/
def take (s : Sorted) (rule : OptionRule) (value : String) : Except Refusal Sorted :=
  if !rule.repeatable ∧ !(s.valuesOf rule.name).isEmpty then .error .repeatedOption
  else if rule.isValid value then .ok { s with values := s.values ++ [(rule.name, value)] }
  else .error .badValue

/-- Settle the argument that is pending. -/
def settle (s : Sorted) : Except Refusal Sorted :=
  let settled := { s with pending := .nothing }
  match s.pending with
  | .nothing => .ok settled
  | .program path =>
    if path.isEmpty then .error .missingValue else .ok { settled with program := some path }
  | .option _ none => .error .missingValue
  | .option rule (some value) => settled.take rule value

/-- Ask for more notes. -/
def moreNotes (s : Sorted) : Except Refusal Sorted := do
  let s ← s.settle
  return { s with verbose := s.verbose + 1 }

/-- Ask for help. -/
def askHelp (s : Sorted) : Except Refusal Sorted := do
  let _ ← s.settle
  .error .helpWanted

/-- Raise a flag of the command. -/
def raise (s : Sorted) (name : String) : Except Refusal Sorted := do
  let s ← s.settle
  if s.hasFlag name then .error .repeatedOption else return { s with flags := s.flags ++ [name] }

/-- Read an option, with its value or with the value still to come. -/
def readOption (s : Sorted) (rule : OptionRule) (value : Option String) :
    Except Refusal Sorted := do
  let s ← s.settle
  match value with
  | some value => s.take rule value
  | none => return { s with pending := .option rule none }

/-- Read a long flag or option. -/
def readLong (g : Grammar) (s : Sorted) (name : String) (value : Option String) :
    Except Refusal Sorted :=
  match g.options.find? fun rule => rule.name = name with
  | some rule => s.readOption rule value
  | none =>
    if name = "help" ∨ name = "verbose" ∨ g.flags.contains name then
      if value.isSome then .error .unwantedValue
      else if name = "help" then s.askHelp
      else if name = "verbose" then s.moreNotes
      else s.raise name
    else .error .unknownArgument

/-- Read one of several letters. -/
def readLetter (s : Sorted) (letter : Char) : Except Refusal Sorted :=
  if letter = 'v' then s.moreNotes
  else if letter = 'h' then s.askHelp
  else .error .unknownArgument

/-- Read a file name. -/
def readFile (g : Grammar) (s : Sorted) (path : String) : Except Refusal Sorted :=
  if g.takesProgram ∧ !s.hasProgram then do
    let s ← s.settle
    return { s with pending := .program path }
  else .error .unknownArgument

/-- Read a word: the value of the option in front of it, or a file name. -/
def readWord (g : Grammar) (s : Sorted) (text : String) : Except Refusal Sorted :=
  match s.pending with
  | .option rule none => .ok { s with pending := .option rule (some text) }
  | _ => s.readFile g text

end Sorted

/-- Sort the arguments of a command. -/
def scan (g : Grammar) : List String → Sorted → Except Refusal Sorted
  | [], s => s.settle
  | arg :: rest, s =>
    match Token.ofString arg with
    | .ending => do
      let s ← rest.foldlM (Sorted.readFile g) s
      s.settle
    | .long name value => do
      let s ← s.readLong g name value
      scan g rest s
    | .short letters => do
      let s ← letters.foldlM Sorted.readLetter s
      scan g rest s
    | .word text => do
      let s ← s.readWord g text
      scan g rest s

/-! ### Commands -/

/-- How a program is to be run. -/
structure RunRequest where
  program : String
  /-- The inputs as JSON text. -/
  input : String
  /-- The size of the cache, if there is to be one. -/
  cache : Option UInt64
  budgetSlack : UInt64
  /-- Whether every firing is shown. -/
  trace : Bool
  /-- Function names and the files of their programs. -/
  functions : List (String × String)

/-- What a command line asks for. -/
inductive Command where
  | run (request : RunRequest)
  | check (program : String) (cycles : Bool) (functions : List (String × String))
  | functions (json : Bool) (functions : List (String × String))

/-- A command and how many notes are wanted. -/
structure Invocation where
  verbose : Nat
  command : Command

/-- The option that adds a function. -/
def functionRule : OptionRule := ⟨"function", true, fun text => (functionFile? text).isSome⟩

/-- An option whose value is a size. -/
def sizeRule (name : String) : OptionRule := ⟨name, false, fun text => (size? text).isSome⟩

/-- The functions to add. -/
def Sorted.functions (s : Sorted) : List (String × String) :=
  (s.valuesOf "function").filterMap functionFile?

/-- The size given for an option. -/
def Sorted.sizeOf? (s : Sorted) (name : String) : Option UInt64 :=
  ((s.valuesOf name).head?).bind size?

/-- The names of the commands. -/
inductive CommandName where
  | run
  | check
  | functions
  deriving DecidableEq

/-- The command with the given name. -/
def CommandName.ofString? (name : String) : Option CommandName :=
  if name = "run" then some .run
  else if name = "check" then some .check
  else if name = "functions" then some .functions
  else none

/-- The grammar of a command. -/
def CommandName.grammar : CommandName → Grammar
  | .run =>
    ⟨true, ["trace"],
      [⟨"input", false, fun _ => true⟩, sizeRule "cache", sizeRule "budget-slack", functionRule]⟩
  | .check => ⟨true, ["cycles"], [functionRule]⟩
  | .functions => ⟨false, ["json"], [functionRule]⟩

/-- The command that sorted arguments ask for. -/
def CommandName.command (name : CommandName) (s : Sorted) : Except Refusal Command :=
  match name, s.program with
  | .run, some program =>
    .ok (.run ⟨program, ((s.valuesOf "input").head?).getD "\x7b\x7d", s.sizeOf? "cache",
      (s.sizeOf? "budget-slack").getD 10, s.hasFlag "trace", s.functions⟩)
  | .check, some program => .ok (.check program (s.hasFlag "cycles") s.functions)
  | .functions, _ => .ok (.functions (s.hasFlag "json") s.functions)
  | _, none => .error .missingProgram

/-- The highest count of `-v`. -/
def maxVerbose : Nat := 255

/-- Read a command. A count of `-v` behind its name goes before one in front of it. -/
def readCommand (verbose : Nat) (name : CommandName) (args : List String) :
    Except Refusal Invocation := do
  let s ← scan name.grammar args .empty
  let command ← name.command s
  return ⟨min maxVerbose (if s.verbose = 0 then verbose else s.verbose), command⟩

/-- Whether a word names a command or asks for help. -/
def isCommandWord (name : String) : Bool := name = "help" || (CommandName.ofString? name).isSome

/-- Help in general or on one command, which may be help itself. -/
def readHelp : List String → Refusal
  | [] => .helpWanted
  | [name] => if isCommandWord name then .helpWanted else .unknownCommand
  | _ => .unknownCommand

/-- Read letters in front of the command; `verbose` counts `-v`. -/
def readLetters : List Char → (verbose : Nat) → Except Refusal Nat
  | [], verbose => .ok verbose
  | letter :: rest, verbose =>
    if letter = 'v' then readLetters rest (verbose + 1)
    else if letter = 'h' then .error .helpWanted
    else if letter = 'V' then .error .versionWanted
    else .error .unknownArgument

/-- Read a long flag in front of the command. -/
def readFlag (name : String) (value : Option String) (verbose : Nat) : Except Refusal Nat :=
  if name = "help" ∨ name = "version" ∨ name = "verbose" then
    if value.isSome then .error .unwantedValue
    else if name = "help" then .error .helpWanted
    else if name = "version" then .error .versionWanted
    else .ok (verbose + 1)
  else .error .unknownArgument

/-- There is no command. -/
def withoutCommand (verbose : Nat) : Refusal :=
  if verbose = 0 then .nothingGiven else .missingCommand

/-- Read a command line; `verbose` counts `-v` so far. -/
def parseFrom : List String → (verbose : Nat) → Except Refusal Invocation
  | [], verbose => .error (withoutCommand verbose)
  | arg :: rest, verbose =>
    match Token.ofString arg with
    | .ending =>
      match rest with
      | [] => .error (withoutCommand verbose)
      | name :: _ =>
        if isCommandWord name then .error .unknownArgument
        else .error .unknownCommand
    | .long name value => do
      let verbose ← readFlag name value verbose
      parseFrom rest verbose
    | .short letters => do
      let verbose ← readLetters letters verbose
      parseFrom rest verbose
    | .word name =>
      if name = "help" then .error (readHelp rest)
      else
        match CommandName.ofString? name with
        | some name => readCommand verbose name rest
        | none => .error .unknownCommand

/-- What a command line asks for. -/
def parse (args : List String) : Except Refusal Invocation := parseFrom args 0

end CommandLine

end Dataflow
