/-
What a firing gives under each of its output keys.
-/
import Dataflow.Json.Basic
namespace Dataflow

/-- A value that flows along edges, or the mark that nothing flows. -/
inductive Flow where
  | value (v : Json)
  | stop
  deriving DecidableEq

/-- The results of a firing. -/
abbrev Outputs := Record Flow

/-- The value that flows, if one does. -/
def Flow.value? : Flow → Option Json
  | .value v => some v
  | .stop => none

end Dataflow
