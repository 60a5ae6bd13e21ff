/-
The written form of signatures.

A parameter has a `name` and a `type`; a signature has `input`, `output` and,
when it has callbacks, `cb`.
-/
import Dataflow.Json.Shape
import Dataflow.Signature
import Dataflow.ValueType.Wire
namespace Dataflow

namespace Param

/-- The written form of a parameter. -/
def toJson (p : Param) : Json := .object [("name", .string p.name), ("type", p.type.toJson)]

/-- The written form of a list of parameters. -/
def listToJson (params : List Param) : Json := .array (params.map toJson)

/-- A parameter that is being read. -/
structure Form where
  name : Option String := none
  type : Option ValueType := none

/-- The shape of a parameter. -/
def shape : Shape Form Param where
  fields := [
    .slot "name" Form.name (fun form name => { form with name }) Draft.asString,
    .slot "type" Form.type (fun form type => { form with type }) ValueType.read]
  blank := {}
  finish form := do
    let name ← form.name
    let type ← form.type
    return ⟨name, type⟩

/-- Read a list of parameters. -/
def readList : Draft → Except Fault (List Param) := Draft.items shape.read

end Param

namespace CallbackSignature

/-- The written form of a callback. -/
def toJson (cb : CallbackSignature) : Json :=
  .object [("input", Param.listToJson cb.input), ("output", Param.listToJson cb.output)]

/-- A callback that is being read. -/
structure Form where
  input : Option (List Param) := none
  output : Option (List Param) := none

/-- The shape of a callback. -/
def shape : Shape Form CallbackSignature where
  fields := [
    .slot "input" Form.input (fun form input => { form with input }) Param.readList,
    .slot "output" Form.output (fun form output => { form with output }) Param.readList]
  blank := {}
  finish form := do
    let input ← form.input
    let output ← form.output
    return ⟨input, output⟩

end CallbackSignature

namespace Signature

/-- The member for the callbacks. -/
def callbacksMember (callbacks : Record CallbackSignature) : List (String × Json) :=
  if callbacks.isEmpty then []
  else [("cb", .ofRecord (callbacks.map fun _ cb => cb.toJson))]

/-- The written form of a signature. -/
def toJson (s : Signature) : Json :=
  .object (("input", Param.listToJson s.input) :: ("output", Param.listToJson s.output) ::
    callbacksMember s.callbacks)

/-- A signature that is being read. -/
structure Form where
  input : Option (List Param) := none
  output : Option (List Param) := none
  callbacks : Option (Record CallbackSignature) := none

/-- The shape of a signature. -/
def shape : Shape Form Signature where
  fields := [
    .slot "input" Form.input (fun form input => { form with input }) Param.readList,
    .slot "output" Form.output (fun form output => { form with output }) Param.readList,
    .slot "cb" Form.callbacks (fun form callbacks => { form with callbacks })
      (Draft.record CallbackSignature.shape.read)]
  blank := {}
  finish form := do
    let input ← form.input
    let output ← form.output
    return ⟨input, output, form.callbacks.getD .empty⟩

/-- Read a signature. -/
def read : Draft → Except Fault Signature := shape.read

end Signature

end Dataflow
