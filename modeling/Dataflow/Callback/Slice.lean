/-
The body of a callback.

The edges that leave a node from a callback input lead into the callback's body. The body is all
that can be reached from their targets without passing through the node itself, listed breadth
first; its exits are the body nodes with an edge back to the node.
-/
import Dataflow.Program
namespace Dataflow

namespace Callback

/-- The targets of edges that are neither the call site nor known yet, each once. -/
def discover (site : String) : (known : List String) → List Edge → List String
  | _, [] => []
  | known, edge :: rest =>
    if edge.target = site ∨ edge.target ∈ known then discover site known rest
    else edge.target :: discover site (edge.target :: known) rest

/-- The edges of a node; none for an id without a node. -/
def edgesOf (p : Program) (id : String) : List Edge :=
  match p.node? id with
  | some node => node.next
  | none => []

/-- Walk breadth first. `body` is what has been visited and `line` what waits. -/
def walk (p : Program) (site : String) : Nat → (body line : List String) → List String
  | 0, body, _ => body
  | _ + 1, body, [] => body
  | fuel + 1, body, id :: line =>
    walk p site fuel (body ++ [id])
      (line ++ discover site (body ++ id :: line) (edgesOf p id))

/-- A walk visits targets of edges only, each once. -/
def walkBound (p : Program) (feeding : List Edge) : Nat :=
  feeding.length + p.edges.length + 1

/-- The ids that can be reached from the targets of `feeding` without passing through the call site,
breadth first. -/
def body (p : Program) (site : String) (feeding : List Edge) : List String :=
  walk p site (walkBound p feeding) [] (discover site [] feeding)

/-- The ids of a body with an edge back to the call site. -/
def exits (p : Program) (site : String) (body : List String) : List String :=
  body.filter fun id => (edgesOf p id).any fun edge => edge.target = site

end Callback

end Dataflow
