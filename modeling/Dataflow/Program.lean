/-
Programs: graphs of function nodes.

A node calls a function; its edges carry results to the keys of other nodes, and
its defaults stand in for inputs that nothing delivers. Bindings connect the
caller's values to the keys of nodes and the results of nodes to the caller. Nodes
keep the order in which they were written.
-/
import Dataflow.Json.Basic
import Dataflow.Signature
import Dataflow.Table
namespace Dataflow

/-- An edge from a key of its source to a key of its target. -/
structure Edge where
  target : String
  fromKey : String
  toKey : String
  deriving DecidableEq

/-- A call of a function. -/
structure Node where
  function : String
  next : List Edge
  defaults : Record Json
  deriving DecidableEq

/-- A key of a node. -/
structure Address where
  id : String
  key : String
  deriving DecidableEq

/-- A value that the caller gives to a node or takes from it. -/
structure Binding where
  name : String
  address : Address
  type : ValueType
  deriving DecidableEq

/-- A graph of nodes with its bindings. -/
structure Program where
  input : List Binding
  output : List Binding
  nodes : Table Node
  deriving DecidableEq

/-- A node without edges and defaults. -/
def Node.bare (function : String) : Node := ⟨function, [], .empty⟩

namespace Program

/-- The program without nodes. -/
def empty : Program := ⟨[], [], .empty⟩

/-- The node with the given id. -/
def node? (p : Program) (id : String) : Option Node := p.nodes.get? id

/-- The node ids in written order. -/
def ids (p : Program) : List String := p.nodes.names

/-- The number of nodes. -/
def size (p : Program) : Nat := p.nodes.size

/-- The edges with their source and their place among the source's edges. -/
def edges (p : Program) : List (String × Nat × Edge) :=
  p.nodes.entries.flatMap fun (id, node) => node.next.zipIdx.map fun (edge, i) => (id, i, edge)

/-- The edges that arrive at a node, with their sources. -/
def incoming (p : Program) (id : String) : List (String × Edge) :=
  p.edges.filterMap fun (source, _, edge) => if edge.target = id then some (source, edge) else none

/-- Whether some edge arrives at `id`. -/
def isTarget (p : Program) (id : String) : Bool :=
  p.nodes.entries.any fun (_, node) => node.next.any fun edge => edge.target = id

/-- The nodes at which no edge arrives. They can fire without any delivery. -/
def heads (p : Program) : List String := p.ids.filter fun id => !p.isTarget id

/-- The output bindings that read from a node. -/
def outputsOf (p : Program) (id : String) : List Binding :=
  p.output.filter fun b => b.address.id = id

/-- The names of the outputs. -/
def outputNames (p : Program) : List String := p.output.map (·.name)

/-- The parameters of a list of bindings: each name once, with the type of its first binding. -/
def params : (seen : List String) → List Binding → List Param
  | _, [] => []
  | seen, b :: rest =>
    if b.name ∈ seen then params seen rest
    else ⟨b.name, b.type⟩ :: params (b.name :: seen) rest

/-- The signature under which the program is called. -/
def signature (p : Program) : Signature := .plain (params [] p.input) (params [] p.output)

end Program

end Dataflow
