/-
Diagnostics: what is wrong with a program, and where.

A diagnostic names a defect and the path of the offending field in the written
form of the program.
-/
import Dataflow.Json.Basic
namespace Dataflow

/-- What can be wrong with a program. -/
inductive Defect where
  /-- A node calls a function that the catalog does not have. -/
  | unknownFunction (function : String)
  /-- A binding or an edge names a node that does not exist. -/
  | unknownNode (id : String)
  /-- A key on which the function accepts nothing. -/
  | unknownInputKey (key function : String) (available : List String)
  /-- A key under which the function provides nothing. -/
  | unknownOutputKey (key function : String) (available : List String)
  /-- Declared inputs that no binding, edge or default supplies. -/
  | missingInputs (function : String) (keys : List String)
  /-- Nodes on a cycle of data edges or behind one. -/
  | cycleDetected (ids : List String)
  deriving DecidableEq

/-- A defect and the path of the field it concerns. -/
structure Diagnostic where
  defect : Defect
  path : List String
  deriving DecidableEq

namespace Defect

/-- The name of the kind of a defect. -/
def kind : Defect → String
  | .unknownFunction .. => "unknownFunction"
  | .unknownNode .. => "unknownNode"
  | .unknownInputKey .. => "unknownInputKey"
  | .unknownOutputKey .. => "unknownOutputKey"
  | .missingInputs .. => "missingInputs"
  | .cycleDetected .. => "cycleDetected"

/-- What a defect tells, apart from its kind. -/
def details : Defect → List (String × Json)
  | .unknownFunction function => [("function", .string function)]
  | .unknownNode id => [("nodeId", .string id)]
  | .unknownInputKey key function available | .unknownOutputKey key function available =>
    [("key", .string key), ("function", .string function), ("available", .ofStrings available)]
  | .missingInputs function keys => [("function", .string function), ("keys", .ofStrings keys)]
  | .cycleDetected ids => [("nodeIds", .ofStrings ids)]

/-- The text of a defect. -/
def message : Defect → String
  | .unknownFunction function => s!"function {function} not found"
  | .unknownNode id => s!"id {id} not found"
  | .unknownInputKey key function available | .unknownOutputKey key function available =>
    let names := ", ".intercalate available
    s!"key {key} not found in function {function} only {names}"
  | .missingInputs function keys =>
    let names := ", ".intercalate keys
    s!"{function} input key not has {names}"
  | .cycleDetected ids =>
    let names := ", ".intercalate ids
    s!"cycle detected through {names}"

end Defect

namespace Diagnostic

/-- The path with dots between its parts. -/
def location (d : Diagnostic) : String := ".".intercalate d.path

/-- The text of a diagnostic. -/
def text (d : Diagnostic) : String := d.defect.message ++ " (at " ++ d.location ++ ")"

/-- The written form of a diagnostic. -/
def toJson (d : Diagnostic) : Json :=
  .object (("kind", .string d.defect.kind) :: (d.defect.details ++ [("path", .ofStrings d.path)]))

end Diagnostic

end Dataflow
