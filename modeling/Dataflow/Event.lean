/-
Events: the trace of a run for its observer.

A run starts with one `runStarted` and ends with one `runCompleted` or
`runFailed`. An observer may refuse an event; the run goes on.
-/
import Dataflow.Json.Basic
namespace Dataflow

/-- Something an observer of a run is told. -/
inductive Event where
  | runStarted
  /-- A node is about to call its function. -/
  | nodeFired (caller id function : String)
  /-- An edge is not followed because nothing flows under its key. -/
  | branchStopped (id key : String)
  /-- A result is taken from the cache. -/
  | cacheHit (key : String)
  /-- The steps ran out while frames were waiting. -/
  | budgetExhausted (caller : String) (pending : List String)
  | runCompleted (outputs : List String)
  | runFailed (error : String)
  deriving DecidableEq

namespace Event

/-- The name of the kind of an event. -/
def kind : Event → String
  | .runStarted => "runStarted"
  | .nodeFired .. => "nodeFired"
  | .branchStopped .. => "branchStopped"
  | .cacheHit .. => "cacheHit"
  | .budgetExhausted .. => "budgetExhausted"
  | .runCompleted .. => "runCompleted"
  | .runFailed .. => "runFailed"

/-- What an event tells, apart from its kind and its run. -/
def details : Event → List (String × Json)
  | .runStarted => []
  | .nodeFired caller id function =>
    [("caller", .string caller), ("nodeId", .string id), ("function", .string function)]
  | .branchStopped id key => [("nodeId", .string id), ("key", .string key)]
  | .cacheHit key => [("key", .string key)]
  | .budgetExhausted caller pending =>
    [("caller", .string caller), ("pending", .ofStrings pending)]
  | .runCompleted outputs => [("outputs", .ofStrings outputs)]
  | .runFailed error => [("error", .string error)]

/-- The written form of an event of the run with the given id. -/
def toJson (run : String) (e : Event) : Json :=
  .object (("type", .string e.kind) :: ("executionId", .string run) :: e.details)

/-- The caller and the node of a firing. -/
def fired? : Event → Option (String × String)
  | .nodeFired caller id _ => some (caller, id)
  | _ => none

end Event

/-- An observer's answer to an event: a reason when it refuses it. -/
abbrev Observer := Event → Option String

end Dataflow
