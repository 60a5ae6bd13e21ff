/-
Signatures: what a function shows to the graph.

A function has inputs, outputs and named callbacks. The keys of a callback are
seen from the node that calls it: the node emits a callback's inputs, so edges
leave it there, and receives a callback's outputs, so edges arrive there. Inputs
and callback outputs therefore share one name space, outputs and callback inputs
the other, and a name that comes twice in one of them is a collision
(`Signature.collisions`).
-/
import Dataflow.Record
import Dataflow.ValueType
namespace Dataflow

/-- A named parameter. -/
structure Param where
  name : String
  type : ValueType
  deriving DecidableEq

/-- What the body of a callback receives and has to give. -/
structure CallbackSignature where
  input : List Param
  output : List Param
  deriving DecidableEq

/-- What a function receives, gives and calls back. -/
structure Signature where
  input : List Param
  output : List Param
  callbacks : Record CallbackSignature
  deriving DecidableEq

/-- The names of a list of parameters. -/
def Param.names (params : List Param) : List String := params.map (·.name)

namespace Signature

/-- A signature without callbacks. -/
def plain (input output : List Param) : Signature := ⟨input, output, .empty⟩

/-- The names of the inputs. -/
def inputNames (s : Signature) : List String := Param.names s.input

/-- The names of the outputs. -/
def outputNames (s : Signature) : List String := Param.names s.output

/-- The callbacks in order of their names. -/
def bodies (s : Signature) : List CallbackSignature := s.callbacks.entries.map (·.2)

/-- Whether `key` is an input. -/
def hasInput (s : Signature) (key : String) : Bool := s.inputNames.contains key

/-- Whether `key` is an output. -/
def hasOutput (s : Signature) (key : String) : Bool := s.outputNames.contains key

/-- Whether the node hands `key` to a callback. -/
def hasCallbackInput (s : Signature) (key : String) : Bool :=
  s.bodies.any fun cb => (Param.names cb.input).contains key

/-- Whether a callback gives `key` back to the node. -/
def hasCallbackOutput (s : Signature) (key : String) : Bool :=
  s.bodies.any fun cb => (Param.names cb.output).contains key

/-- Whether an edge may arrive on `key`. -/
def accepts (s : Signature) (key : String) : Bool := s.hasInput key || s.hasCallbackOutput key

/-- Whether an edge may leave from `key`. -/
def provides (s : Signature) (key : String) : Bool := s.hasOutput key || s.hasCallbackInput key

/-! ### Collisions -/

/-- A name that comes twice in one name space. -/
inductive Collision where
  | input (name : String)
  | output (name : String)
  | callbackOutput (name : String)
  | callbackInput (name : String)
  deriving DecidableEq

/-- The text of a collision. -/
def Collision.message : Collision → String
  | .input name => s!"input {name} is duplicated"
  | .output name => s!"output {name} is duplicated"
  | .callbackOutput name => s!"cb output {name} is duplicated with input {name}"
  | .callbackInput name => s!"cb input {name} is duplicated with output {name}"

/-- The occurrences of names that were seen before. -/
def repeats : (seen : List String) → List String → List String
  | _, [] => []
  | seen, name :: rest =>
    if name ∈ seen then name :: repeats seen rest else repeats (name :: seen) rest

/-- The collisions of callbacks with the names seen before them. -/
def callbackCollisions : (inputs outputs : List String) → List CallbackSignature → List Collision
  | _, _, [] => []
  | inputs, outputs, cb :: rest =>
    (repeats inputs (Param.names cb.output)).map .callbackOutput
      ++ (repeats outputs (Param.names cb.input)).map .callbackInput
      ++ callbackCollisions (Param.names cb.output ++ inputs) (Param.names cb.input ++ outputs) rest

/-- All collisions of a signature: inputs, outputs, then each callback. -/
def collisions (s : Signature) : List Collision :=
  (repeats [] s.inputNames).map .input ++ (repeats [] s.outputNames).map .output
    ++ callbackCollisions s.inputNames s.outputNames s.bodies

end Signature

end Dataflow
