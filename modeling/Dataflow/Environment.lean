/-
The environment: a catalog, a cache and an observer, ready to run programs.

A run starts from an empty cache, so nothing leaks from one top-level run into
the next. Programs that are added as functions may be memoized; native functions
only when the cache is not restricted to programs.
-/
import Dataflow.Config
import Dataflow.Diagnostic.Cycle
import Dataflow.Library.Arguments
import Dataflow.Scheduler
namespace Dataflow

/-- Everything that runs need. -/
structure Environment where
  catalog : Catalog
  config : Config
  cache : Option MemoCache
  observer : Observer

/-- The caller of the nodes of a top-level program. -/
def mainCaller : String := "main"

/-- What a top-level run leaves behind. -/
structure RunReport where
  outcome : Except Halt (Record Json)
  /-- The events in order. -/
  events : Array Event
  /-- The notes in order. -/
  notes : Array Note
  /-- The environment afterwards. -/
  environment : Environment

namespace Environment

/-- Note the collisions in a signature. -/
def noteCollisions (name : String) (collisions : List Signature.Collision) : Noted Unit :=
  collisions.forM fun collision => Noted.note (.inconsistent name collision.message)

/-- An environment over a catalog, without an observer. -/
def ofConfig (catalog : Catalog) (config : Config) : Noted Environment := do
  if config.checkCatalog then
    catalog.inconsistencies.forM fun (name, collisions) => noteCollisions name collisions
  return ⟨catalog, config, config.cache.map .ofConfig, fun _ => none⟩

/-- Add a program as a function. -/
def addFunction (env : Environment) (name : String) (p : Program) : Noted Environment := do
  Noted.note (.registered name)
  return { env with
    catalog := env.catalog.register name (.ofProgram p)
    cache := env.cache.map fun cache => cache.allow name }

/-- Add a native function. -/
def addNative (env : Environment) (f : Library.NativeFunction) : Noted Environment := do
  noteCollisions f.name f.signature.collisions
  return { env with catalog := env.catalog.register f.name (.native f.signature f.runner) }

/-- Everything that is wrong with a program. -/
def validate (env : Environment) (p : Program) : List Diagnostic := p.validate env.catalog

/-- Whether a program is valid. What is wrong with it is noted. -/
def checkStrict (env : Environment) (p : Program) : Noted Bool := do
  let diagnostics := env.validate p
  diagnostics.forM fun d => Noted.note (.diagnostic d.text)
  return diagnostics.isEmpty

/-- What stays fixed during runs. -/
def host (env : Environment) : Host := ⟨env.catalog, env.config.budgetSlack, env.observer⟩

/-- A top-level run, from its first event to its last. -/
def session (env : Environment) (depth : Nat) (run : String) (p : Program)
    (inputs : Record Json) : Run (Record Json) := do
  Run.note (.runStarted run p.size)
  Run.emit env.observer .runStarted
  match ← (Host.runProgram (env.host.execute depth) p inputs mainCaller).attempt with
  | .ok outputs =>
    Run.note (.runCompleted run outputs.names)
    Run.emit env.observer (.runCompleted outputs.names)
    return outputs
  | .error error =>
    Run.note (.runFailed run error.message)
    Run.emit env.observer (.runFailed error.message)
    Run.fail error

/-- Run a program, following nested calls to the given depth. The run is known by the name
`run`. -/
def runWithin (env : Environment) (depth : Nat) (run : String) (random : RandomSource)
    (p : Program) (inputs : Record Json) : RunReport :=
  let start : Session := ⟨env.cache.map MemoCache.clear, #[], #[], random⟩
  let (outcome, final) := env.session depth run p inputs start
  ⟨outcome, final.events, final.notes, { env with cache := final.cache }⟩

/-- How deeply nested calls are followed. -/
def depthLimit : Nat := Nat.pow 2 32

/-- Run a program. -/
def run (env : Environment) (run : String) (random : RandomSource) (p : Program)
    (inputs : Record Json) : RunReport :=
  env.runWithin depthLimit run random p inputs

/-- The counters of the cache, if there is one. -/
def cacheStats (env : Environment) : Option MemoCache.Stats := env.cache.map MemoCache.stats

end Environment

end Dataflow
