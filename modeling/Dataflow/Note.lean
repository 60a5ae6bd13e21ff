/-
Notes: the log of what happens.

Each kind of note has a level and a text. Notes are collected in order; who
shows them picks a level and leaves out everything less severe.
-/
import Dataflow.Text.Quoted
namespace Dataflow

/-- The severity of a note. -/
inductive Level where
  | error
  | warn
  | info
  | debug
  | trace
  deriving DecidableEq, Repr

/-- The name of a level. -/
def Level.name : Level → String
  | .error => "ERROR"
  | .warn => "WARN"
  | .info => "INFO"
  | .debug => "DEBUG"
  | .trace => "TRACE"

/-- The rank of a level, the most severe first. -/
def Level.rank : Level → Nat
  | .error => 1
  | .warn => 2
  | .info => 3
  | .debug => 4
  | .trace => 5

/-- Something worth noting. -/
inductive Note where
  | budgetExhausted (caller : String) (pending : Nat)
  | runFailed (run error : String)
  | unknownNode (id : String)
  | unknownKey (id key : String)
  | missingOutput (id key target : String)
  | refusedEvent (reason : String)
  | inconsistent (function collision : String)
  | unknownSource (id : String)
  | diagnostic (text : String)
  | stopped (id key : String)
  | cacheHit (key : String)
  | runStarted (run : String) (nodes : Nat)
  | runCompleted (run : String) (outputs : List String)
  | cacheSummary (entries hits misses : Nat)
  | firing (id function caller : String)
  | registered (function : String)
  | catalogReady (functions : Nat)
  | notReady (id : String)
  /-- A remark of a library function. -/
  | remark (level : Level) (text : String)
  deriving DecidableEq

namespace Note

/-- The level of a note. -/
def level : Note → Level
  | .budgetExhausted .. | .runFailed .. => .error
  | .unknownNode .. | .unknownKey .. | .missingOutput .. | .refusedEvent .. | .inconsistent ..
  | .unknownSource .. | .diagnostic .. => .warn
  | .stopped .. | .cacheHit .. | .runStarted .. | .runCompleted .. | .cacheSummary .. => .info
  | .firing .. | .registered .. | .catalogReady .. => .debug
  | .notReady .. => .trace
  | .remark level _ => level

/-- The text of a note. -/
def text : Note → String
  | .budgetExhausted caller pending =>
    s!"Step budget exhausted in '{caller}' with {pending} frame(s) pending"
  | .runFailed run error => s!"Run {run} failed: {error}"
  | .unknownNode id => s!"Dropping frame for unknown node '{id}'"
  | .unknownKey id key => s!"Edge from '{id}' uses unknown key '{key}', ignored"
  | .missingOutput id key target =>
    s!"Node '{id}' produced no '{key}', edge to '{target}' not followed"
  | .refusedEvent reason => s!"Dropping run event: Event error: {reason}"
  | .inconsistent function collision => s!"Function '{function}': {collision}"
  | .unknownSource id => s!"Dropping edge from unknown node '{id}'"
  | .diagnostic text => text
  | .stopped id key => s!"Stop at '{id}' key '{key}'"
  | .cacheHit key => s!"Cache hit {key}"
  | .runStarted run nodes => s!"Starting run {run} ({nodes} nodes)"
  | .runCompleted run outputs =>
    let names := ", ".intercalate (outputs.map Text.quote)
    s!"Run {run} completed with outputs [{names}]"
  | .cacheSummary entries hits misses => s!"Cache: {entries} entries, {hits} hits, {misses} misses"
  | .firing id function caller => s!"Firing '{id}' ({function}) in '{caller}'"
  | .registered function => s!"Registered program function '{function}'"
  | .catalogReady functions => s!"Catalog initialized with {functions} built-in functions"
  | .notReady id => s!"Node '{id}' not ready, re-queued"
  | .remark _ text => text

/-- The line of a note in a log. -/
def line (n : Note) : String := n.level.name ++ " " ++ n.text

end Note

/-- A result together with the notes made on the way. -/
abbrev Noted := StateM (Array Note)

/-- Make a note. -/
def Noted.note (n : Note) : Noted Unit := modify (·.push n)

end Dataflow
