/-
The cycle lint.

Edges into a callback body and back from it belong to the call of the callback;
all other edges between existing nodes are data edges. Nodes without incoming
data edges are peeled off one after the other, together with their edges, and the nodes that
stay lie on a cycle or behind one. A cyclic program is legal; the lint only tells.
-/
import Dataflow.Diagnostic.Validation
namespace Dataflow

namespace Cycle

/-- Whether an edge carries data between existing nodes. -/
def isDataEdge (p : Program) (c : Catalog) (source : String) (edge : Edge) : Bool :=
  let entering := (Validation.signatureOf? p c source).any fun (_, s) =>
    s.hasCallbackInput edge.fromKey
  let returning := (Validation.signatureOf? p c edge.target).any fun (_, s) =>
    s.hasCallbackOutput edge.toKey
  !entering && !returning && (p.node? edge.target).isSome

/-- The data edges as pairs of source and target. -/
def dataEdges (p : Program) (c : Catalog) : List (String × String) :=
  p.edges.filterMap fun (source, _, edge) =>
    if isDataEdge p c source edge then some (source, edge.target) else none

/-- The state of peeling: how many edges still arrive at each node, and the nodes to peel off. -/
structure Peeling where
  degrees : Record Int
  line : List String

/-- The number of edges that arrive at each node. -/
def arrivals (ids : List String) (edges : List (String × String)) : Record Int :=
  .ofList (ids.map fun id => (id, ((edges.filter fun e => e.2 = id).length : Int)))

/-- Take away one edge into a node, which joins the line when it was the last. -/
def Peeling.release (s : Peeling) (target : String) : Peeling :=
  match s.degrees.get? target with
  | none => s
  | some degree =>
    ⟨s.degrees.insert target (degree - 1),
      if degree - 1 = 0 then s.line ++ [target] else s.line⟩

/-- Take away the edges that leave a node. -/
def Peeling.peel (edges : List (String × String)) (s : Peeling) (id : String) : Peeling :=
  (edges.filter fun e => e.1 = id).foldl (fun s e => s.release e.2) s

/-- Peel off the nodes in line, at most `fuel` of them. -/
def Peeling.run (edges : List (String × String)) : (fuel : Nat) → Peeling → Peeling
  | 0, s => s
  | fuel + 1, s =>
    match s.line with
    | [] => s
    | id :: line => run edges fuel (Peeling.peel edges ⟨s.degrees, line⟩ id)

/-- Before anything is peeled off. -/
def Peeling.start (ids : List String) (edges : List (String × String)) : Peeling :=
  let degrees := arrivals ids edges
  ⟨degrees, ids.filter fun id => degrees.get? id = some 0⟩

/-- The nodes that cannot be peeled off. -/
def stuck (ids : List String) (edges : List (String × String)) : List String :=
  let final := Peeling.run edges ids.length (.start ids edges)
  ids.filter fun id => (final.degrees.get? id).any fun degree => 0 < degree

end Cycle

/-- One diagnostic for the nodes on cycles or behind them, if there are any. -/
def Program.cycles (p : Program) (c : Catalog) : List Diagnostic :=
  let ids := Cycle.stuck p.ids (Cycle.dataEdges p c)
  if ids.isEmpty then [] else [⟨.cycleDetected ids, ["data"]⟩]

end Dataflow
