/-
Validation of a program against a catalog.

Nodes with unknown functions are reported on their own, for without signatures
nothing else can be checked. Otherwise the bindings, then the defaults and edges of
each node, and last the completeness of each node are checked.
-/
import Dataflow.Catalog
import Dataflow.Diagnostic
namespace Dataflow

namespace Validation

/-- The function of a node and its signature. -/
def signatureOf? (p : Program) (c : Catalog) (id : String) : Option (String × Signature) := do
  let node ← p.node? id
  let signature ← c.signature? node.function
  return (node.function, signature)

/-- A key at which something arrives. -/
def checkInputKey (function : String) (signature : Signature) (key : String)
    (path : List String) : List Diagnostic :=
  if signature.accepts key then []
  else [⟨.unknownInputKey key function signature.inputNames, path⟩]

/-- A key from which something leaves. -/
def checkOutputKey (function : String) (signature : Signature) (key : String)
    (path : List String) : List Diagnostic :=
  if signature.provides key then []
  else [⟨.unknownOutputKey key function signature.outputNames, path⟩]

/-- The nodes with unknown functions. -/
def checkFunctions (p : Program) (c : Catalog) : List Diagnostic :=
  p.nodes.entries.flatMap fun (id, node) =>
    if c.contains node.function then []
    else [⟨.unknownFunction node.function, ["data", id, "functionName"]⟩]

/-- A binding; `side` is where it is written and `check` looks at its key. -/
def checkBinding (p : Program) (c : Catalog) (side : String)
    (check : String → Signature → String → List String → List Diagnostic)
    (b : Binding) (index : Nat) : List Diagnostic :=
  let path := [side, toString index, "mapKey"]
  match signatureOf? p c b.address.id with
  | none => [⟨.unknownNode b.address.id, path ++ ["id"]⟩]
  | some (function, signature) => check function signature b.address.key (path ++ ["key"])

/-- All bindings. -/
def checkBindings (p : Program) (c : Catalog) : List Diagnostic :=
  (p.input.zipIdx.flatMap fun (b, i) => checkBinding p c "input" checkInputKey b i)
    ++ p.output.zipIdx.flatMap fun (b, i) => checkBinding p c "output" checkOutputKey b i

/-- An edge of a node. -/
def checkEdge (p : Program) (c : Catalog) (id function : String) (signature : Signature)
    (edge : Edge) (index : Nat) : List Diagnostic :=
  let path := ["data", id, "next", toString index]
  checkOutputKey function signature edge.fromKey (path ++ ["fromKey"]) ++
    match signatureOf? p c edge.target with
    | none => [⟨.unknownNode edge.target, path ++ ["id"]⟩]
    | some (target, accepted) => checkInputKey target accepted edge.toKey (path ++ ["toKey"])

/-- The defaults and edges of all nodes. -/
def checkNodes (p : Program) (c : Catalog) : List Diagnostic :=
  p.nodes.entries.flatMap fun (id, node) =>
    match c.signature? node.function with
    | none => []
    | some signature =>
      (node.defaults.names.flatMap fun key =>
        checkInputKey node.function signature key ["data", id, "defaultValues", key])
        ++ node.next.zipIdx.flatMap fun (edge, i) =>
          checkEdge p c id node.function signature edge i

/-- Whether a binding or an edge supplies a key of a node. -/
def isSupplied (p : Program) (id key : String) : Bool :=
  (p.input.any fun b => b.address.id = id && b.address.key = key)
    || p.nodes.entries.any fun (_, node) =>
      node.next.any fun edge => edge.target = id && edge.toKey = key

/-- The declared inputs of a node that nothing supplies. -/
def missingInputs (p : Program) (id : String) (node : Node) (signature : Signature) :
    List String :=
  signature.inputNames.filter fun key => !node.defaults.contains key && !isSupplied p id key

/-- The nodes that lack an input. -/
def checkCompleteness (p : Program) (c : Catalog) : List Diagnostic :=
  p.nodes.entries.flatMap fun (id, node) =>
    match c.signature? node.function with
    | none => []
    | some signature =>
      let missing := missingInputs p id node signature
      if missing.isEmpty then [] else [⟨.missingInputs node.function missing, ["data", id]⟩]

end Validation

/-- Everything that is wrong with a program; nothing means that it is valid. -/
def Program.validate (p : Program) (c : Catalog) : List Diagnostic :=
  let unknown := Validation.checkFunctions p c
  if unknown.isEmpty then
    Validation.checkBindings p c ++ Validation.checkNodes p c ++ Validation.checkCompleteness p c
  else unknown

end Dataflow
