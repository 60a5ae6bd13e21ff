/-
The written form of programs.

The nodes stand under `data` in their order; a node id that comes twice keeps
its first place and its last node. A node leaves out its `defaultValues` when it
has none.
-/
import Dataflow.Program
import Dataflow.Signature.Wire
namespace Dataflow

namespace Edge

/-- An edge as a value; `object` puts members together. -/
def written (object : List (String × Json) → Json) (e : Edge) : Json :=
  object [("id", .string e.target), ("fromKey", .string e.fromKey), ("toKey", .string e.toKey)]

/-- An edge that is being read. -/
structure Form where
  target : Option String := none
  fromKey : Option String := none
  toKey : Option String := none

/-- The shape of an edge. -/
def shape : Shape Form Edge where
  fields := [
    .slot "id" Form.target (fun form target => { form with target }) Draft.asString,
    .slot "fromKey" Form.fromKey (fun form fromKey => { form with fromKey }) Draft.asString,
    .slot "toKey" Form.toKey (fun form toKey => { form with toKey }) Draft.asString]
  blank := {}
  finish form := do
    let target ← form.target
    let fromKey ← form.fromKey
    let toKey ← form.toKey
    return ⟨target, fromKey, toKey⟩

end Edge

namespace Node

/-- The member for the defaults. -/
def defaultsMember (defaults : Record Json) : List (String × Json) :=
  if defaults.isEmpty then [] else [("defaultValues", .ofRecord defaults)]

/-- A node as a value; `object` puts members together. -/
def written (object : List (String × Json) → Json) (n : Node) : Json :=
  object (("functionName", .string n.function) ::
    ("next", .array (n.next.map (Edge.written object))) :: defaultsMember n.defaults)

/-- A node that is being read. -/
structure Form where
  function : Option String := none
  next : Option (List Edge) := none
  defaults : Option (Record Json) := none

/-- The shape of a node. -/
def shape : Shape Form Node where
  fields := [
    .slot "functionName" Form.function (fun form function => { form with function })
      Draft.asString,
    .slot "next" Form.next (fun form next => { form with next }) (Draft.items Edge.shape.read),
    .slot "defaultValues" Form.defaults (fun form defaults => { form with defaults })
      (Draft.record Draft.value)]
  blank := {}
  finish form := do
    let function ← form.function
    return ⟨function, form.next.getD [], form.defaults.getD .empty⟩

end Node

namespace Address

/-- An address as a value; `object` puts members together. -/
def written (object : List (String × Json) → Json) (a : Address) : Json :=
  object [("id", .string a.id), ("key", .string a.key)]

/-- An address that is being read. -/
structure Form where
  id : Option String := none
  key : Option String := none

/-- The shape of an address. -/
def shape : Shape Form Address where
  fields := [
    .slot "id" Form.id (fun form id => { form with id }) Draft.asString,
    .slot "key" Form.key (fun form key => { form with key }) Draft.asString]
  blank := {}
  finish form := do
    let id ← form.id
    let key ← form.key
    return ⟨id, key⟩

end Address

namespace Binding

/-- A binding as a value; `object` puts members together. -/
def written (object : List (String × Json) → Json) (b : Binding) : Json :=
  object [("name", .string b.name), ("mapKey", b.address.written object),
    ("type", b.type.written object)]

/-- A binding that is being read. -/
structure Form where
  name : Option String := none
  address : Option Address := none
  type : Option ValueType := none

/-- The shape of a binding. -/
def shape : Shape Form Binding where
  fields := [
    .slot "name" Form.name (fun form name => { form with name }) Draft.asString,
    .slot "mapKey" Form.address (fun form address => { form with address }) Address.shape.read,
    .slot "type" Form.type (fun form type => { form with type }) ValueType.read]
  blank := {}
  finish form := do
    let name ← form.name
    let address ← form.address
    let type ← form.type
    return ⟨name, address, type⟩

end Binding

namespace Program

/-- A program as a value; `object` puts members together. -/
def written (object : List (String × Json) → Json) (p : Program) : Json :=
  object [
    ("input", .array (p.input.map (Binding.written object))),
    ("output", .array (p.output.map (Binding.written object))),
    ("data", object (p.nodes.entries.map fun e => (e.1, e.2.written object)))]

/-- The written form of a program, its nodes in order. -/
def toJson (p : Program) : Json := p.written .object

/-- A program that is being read. -/
structure Form where
  input : Option (List Binding) := none
  output : Option (List Binding) := none
  nodes : Option (Table Node) := none

/-- Read the nodes of a program. -/
def readNodes (draft : Draft) : Except Fault (Table Node) := do
  let nodes ← draft.members Node.shape.read
  return .ofList nodes

/-- The shape of a program. -/
def shape : Shape Form Program where
  fields := [
    .slot "input" Form.input (fun form input => { form with input })
      (Draft.items Binding.shape.read),
    .slot "output" Form.output (fun form output => { form with output })
      (Draft.items Binding.shape.read),
    .slot "data" Form.nodes (fun form nodes => { form with nodes }) readNodes]
  blank := {}
  finish form := do
    let nodes ← form.nodes
    return ⟨form.input.getD [], form.output.getD [], nodes⟩

/-- Read a program. -/
def read : Draft → Except Fault Program := shape.read

end Program

end Dataflow
