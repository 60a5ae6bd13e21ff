/-
Why a run fails.

Each cause carries what its text mentions; `RunError.message` is the text. It is assumed that
arguments, frames and programs can always be written as text: their keys are texts and their numbers
are finite. So the scheduler never fails for want of a cache key, and only a function can
give the error for a value that cannot be written.
-/
namespace Dataflow

/-- The two sides of a callback. -/
inductive Side where
  | input
  | output
  deriving DecidableEq, Repr

/-- The name of a side. -/
def Side.name : Side → String
  | .input => "input"
  | .output => "output"

/-- The causes of a failed run. -/
inductive RunError where
  /-- A node calls a function that the catalog does not have. -/
  | functionNotFound (name : String)
  /-- An input binding has no value. -/
  | missingInput (name : String)
  /-- A callback is called without one of its inputs. -/
  | missingCallbackInput (callback name : String)
  /-- A function asks for an argument that it was not given. -/
  | argumentNotFound (key : String)
  /-- An argument is not of the kind that the function needs. -/
  | invalidArgument (key expected : String)
  /-- A key of a callback has no edge. -/
  | callbackWiring (callback key : String) (side : Side)
  /-- A function calls a callback that its node does not have. -/
  | unknownCallback (name : String)
  /-- A function gives up. -/
  | executionFailed (reason : String)
  /-- A value cannot be written as text. -/
  | serialization (reason : String)
  deriving DecidableEq, Repr

namespace RunError

/-- The text of an error. -/
def message : RunError → String
  | .functionNotFound name => s!"Function not found: {name}"
  | .missingInput name => s!"Missing required input: {name}"
  | .missingCallbackInput callback name => s!"Callback '{callback}' invoked without input '{name}'"
  | .argumentNotFound key => s!"Argument not found: {key}"
  | .invalidArgument key expected => s!"Invalid argument '{key}': expected {expected}"
  | .callbackWiring callback key side =>
    let sideName := side.name
    s!"Callback '{callback}' {sideName} '{key}' is not wired"
  | .unknownCallback name => s!"Unknown callback: {name}"
  | .executionFailed reason => s!"Execution failed: {reason}"
  | .serialization reason => s!"Serialization error: {reason}"

end RunError

end Dataflow
