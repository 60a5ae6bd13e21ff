/-
Building programs step by step.

A node that is added again keeps its place and loses its defaults. A default goes to the node
added last. Edges are attached when the program is built, in the order in which they were made,
so their sources may be added later; an edge whose source is never added is dropped and noted.
-/
import Dataflow.Note
import Dataflow.Program
namespace Dataflow

/-- A program under construction. -/
structure Builder where
  program : Program
  /-- The node added last. -/
  last : Option String
  /-- The edges to attach, with their sources. -/
  edges : List (String × Edge)

namespace Builder

/-- A step of construction. -/
inductive Step where
  | addNode (id function : String)
  | setDefault (key : String) (value : Json)
  | connect (source : String) (edge : Edge)
  | input (binding : Binding)
  | output (binding : Binding)

/-- Nothing built yet. -/
def empty : Builder := ⟨.empty, none, []⟩

/-- Put a node into a program. -/
def putNode (p : Program) (id : String) (node : Node) : Program :=
  { p with nodes := p.nodes.put id node }

/-- Set a default of a node of a program. -/
def setNodeDefault (p : Program) (id key : String) (value : Json) : Program :=
  match p.node? id with
  | some node => putNode p id { node with defaults := node.defaults.insert key value }
  | none => p

/-- Take one step. -/
def apply (b : Builder) : Step → Builder
  | .addNode id function =>
    { b with program := putNode b.program id (.bare function), last := some id }
  | .setDefault key value =>
    match b.last with
    | some id => { b with program := setNodeDefault b.program id key value }
    | none => b
  | .connect source edge => { b with edges := b.edges ++ [(source, edge)] }
  | .input binding => { b with program.input := b.program.input ++ [binding] }
  | .output binding => { b with program.output := b.program.output ++ [binding] }

/-- Attach an edge to its source. -/
def attach (p : Program) (source : String) (edge : Edge) : Noted Program :=
  match p.node? source with
  | some node => return putNode p source { node with next := node.next ++ [edge] }
  | none => do
    Noted.note (.unknownSource source)
    return p

/-- The program with its edges attached. -/
def build (b : Builder) : Noted Program :=
  b.edges.foldlM (fun p (source, edge) => attach p source edge) b.program

/-- The program that a list of steps builds. -/
def run (steps : List Step) : Noted Program := (steps.foldl apply empty).build

end Builder

end Dataflow
