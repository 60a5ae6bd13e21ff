/-
What library functions share: access to arguments and the values they give.

A missing argument and one of the wrong kind are errors that name the argument. A
computed number that is an integer below `2 ^ 53` in size is given as an integer; one that is
infinite or undefined is given as nil.
-/
import Dataflow.Catalog
import Dataflow.Decimal.Integral
namespace Dataflow

namespace Library

/-- A function of the library. -/
structure NativeFunction where
  name : String
  signature : Signature
  runner : Runner

/-- The argument under a key. -/
def argument (args : Record Json) (key : String) : Except RunError Json :=
  match args.get? key with
  | some value => .ok value
  | none => .error (.argumentNotFound key)

/-- A number argument. -/
def number (args : Record Json) (key : String) : Except RunError Float := do
  match ← argument args key with
  | .number n => .ok n.toFloat
  | _ => .error (.invalidArgument key "num")

/-- A text argument. -/
def string (args : Record Json) (key : String) : Except RunError String := do
  match ← argument args key with
  | .string s => .ok s
  | _ => .error (.invalidArgument key "string")

/-- An array argument. -/
def array (args : Record Json) (key : String) : Except RunError (List Json) := do
  match ← argument args key with
  | .array items => .ok items
  | _ => .error (.invalidArgument key "array")

/-- A computed number as a value. -/
def computed (x : Float) : Json :=
  match Integral.integer? x with
  | some n => .number (.integer n)
  | none =>
    match Double.ofFloat? x with
    | some d => .number (.double d)
    | none => .null

/-- Whether a value counts as true. -/
def truthy : Json → Bool
  | .null => false
  | .bool b => b
  | .number n => n.toFloat != 0.0
  | .string s => !s.isEmpty
  | .array _ | .object _ => true

/-- One result. -/
def single (key : String) (value : Json) : Outputs := Record.empty.insert key (.value value)

/-- A function that calls no callbacks. -/
def plainRunner (f : Record Json → Except RunError Outputs) : Runner := fun args _ =>
  .ofExcept (f args)

/-- An array of items of type `I`. -/
def itemArray : ValueType := .arrayOf (.auto "I")

end Library

end Dataflow
