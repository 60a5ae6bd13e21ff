/-
Callbacks as closures.

A node whose function takes callbacks carries their bodies in the surrounding program. When it
fires, the body is cut out and becomes a program of its own, one for each declared callback. A
closure starts from a copy of the frames that wait inside the body, so what was already delivered
there from outside stays visible.

* `Callback.extract` — the closures of a firing, or the first key that is not wired;
* `Closure.fingerprint` — what a closure does, for cache keys.
-/
import Dataflow.Callback.Slice
import Dataflow.FrameQueue
import Dataflow.Program.Wire
import Dataflow.RunError
namespace Dataflow

/-- A callback body that is ready to run. -/
structure Closure where
  name : String
  program : Program
  /-- The frames that waited inside the body. -/
  seed : FrameQueue

namespace Closure

/-- The frames of one call: the seed with the arguments delivered. -/
def frames (c : Closure) (args : Record Json) : Except RunError FrameQueue :=
  c.program.input.foldlM
    (fun frames b =>
      match args.get? b.name with
      | some value => .ok (frames.add b.address.id b.address.key value)
      | none => .error (.missingCallbackInput c.name b.name))
    c.seed

/-- The body and its frames as a value, all members in increasing order of their keys. -/
def fingerprint (c : Closure) : Json :=
  let frames := c.seed.toList.map fun (id, frame) => Json.array [.string id, .ofRecord frame]
  .sorted [("program", c.program.written .sorted), ("frames", .array frames)]

end Closure

/-- The closures of a firing and the ids that their bodies cover. -/
structure Extraction where
  closures : Record Closure
  consumed : List String

namespace Callback

/-- The nodes of a body without their edges to the call site. -/
def bodyNodes (p : Program) (site : String) (body : List String) : Table Node :=
  .ofList (body.filterMap fun id =>
    (p.node? id).map fun node =>
      (id, { node with next := node.next.filter fun edge => edge.target ≠ site }))

/-- The input bindings for one input of a callback. -/
def inputBindings (feeding : List Edge) (param : Param) : List Binding :=
  (feeding.filter fun edge => edge.fromKey = param.name).map fun edge =>
    ⟨param.name, ⟨edge.target, edge.toKey⟩, param.type⟩

/-- The output binding for one output of a callback: the first fitting edge of the first exit
that has one. -/
def outputBinding? (p : Program) (site : String) (exits : List String) (param : Param) :
    Option Binding :=
  exits.findSome? fun id =>
    ((edgesOf p id).find? fun edge => edge.target = site ∧ edge.toKey = param.name).map fun edge =>
      ⟨param.name, ⟨id, edge.fromKey⟩, param.type⟩

/-- The input bindings of a callback. -/
def wireInputs (callback : String) (feeding : List Edge) :
    List Param → Except RunError (List Binding)
  | [] => .ok []
  | param :: rest => do
    let bindings := inputBindings feeding param
    if bindings.isEmpty then .error (.callbackWiring callback param.name .input)
    else
      let more ← wireInputs callback feeding rest
      return bindings ++ more

/-- The output bindings of a callback. -/
def wireOutputs (callback : String) (p : Program) (site : String) (exits : List String) :
    List Param → Except RunError (List Binding)
  | [] => .ok []
  | param :: rest =>
    match outputBinding? p site exits param with
    | none => .error (.callbackWiring callback param.name .output)
    | some binding => do
      let more ← wireOutputs callback p site exits rest
      return binding :: more

/-- The closures of the declared callbacks, in order of their names. -/
def closures (p : Program) (site : String) (feeding : List Edge) (body : List String)
    (seed : FrameQueue) :
    List (String × CallbackSignature) → Except RunError (List (String × Closure))
  | [] => .ok []
  | (name, callback) :: rest => do
    let input ← wireInputs name feeding callback.input
    let output ← wireOutputs name p site (exits p site body) callback.output
    let more ← closures p site feeding body seed rest
    return (name, ⟨name, ⟨input, output, bodyNodes p site body⟩, seed⟩) :: more

/-- The edges of the call site that lead into callback bodies. -/
def feedingEdges (p : Program) (site : String) (signature : Signature) : List Edge :=
  (edgesOf p site).filter fun edge => signature.hasCallbackInput edge.fromKey

/-- Cut the callback bodies of a node out of its program. -/
def extract (p : Program) (site : String) (signature : Signature) (frames : FrameQueue) :
    Except RunError Extraction :=
  let feeding := feedingEdges p site signature
  if (p.node? site).isNone ∨ (signature.callbacks.isEmpty ∧ feeding.isEmpty) then
    .ok ⟨.empty, []⟩
  else do
    let ids := body p site feeding
    let found ← closures p site feeding ids (frames.restrict ids) signature.callbacks.entries
    return ⟨.ofList found, ids⟩

end Callback

end Dataflow
