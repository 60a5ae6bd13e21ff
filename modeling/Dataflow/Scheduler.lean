/-
The scheduler: running a program by draining its queue of frames.

The oldest frame is taken from the queue. When its node has all declared inputs, from the frame or
from a default, the node fires, and its results travel along its edges into the frames of other
nodes; otherwise the frame goes to the end of the queue. The run ends when every declared output has
a value, when the queue is empty, or when the steps run out.

Everything here is written over a parameter that runs nested programs, so that calls of programs
and of callbacks are handed on. `Host.execute` ties the knot: it follows calls to a given depth.
-/
import Dataflow.Callback
import Dataflow.Catalog
import Dataflow.Run
namespace Dataflow

/-- What stays fixed during a run. -/
structure Host where
  catalog : Catalog
  /-- The steps granted to every execution beyond its node count. -/
  slack : UInt64
  observer : Observer

/-- How nested programs are run: under the name of their caller, from their first frames. -/
abbrev Executor := (caller : String) → Program → FrameQueue → Run (Record Json)

/-- Whether every declared input is in the frame or has a default. -/
def Node.isReady (node : Node) (signature : Signature) (frame : Frame) : Bool :=
  signature.inputNames.all fun key => frame.contains key || node.defaults.contains key

/-- The declared inputs that the frame or a default supplies; the frame comes first. -/
def Node.arguments (node : Node) (signature : Signature) (frame : Frame) : Record Json :=
  .ofList (signature.inputNames.filterMap fun key =>
    (frame.get? key <|> node.defaults.get? key).map fun value => (key, value))

namespace Program

/-- The first frames of a run: the inputs delivered, and a frame for each head. -/
def firstFrames (p : Program) (inputs : Record Json) : Except RunError FrameQueue := do
  let frames ← p.input.foldlM
    (fun frames b =>
      match inputs.get? b.name with
      | some value => .ok (frames.add b.address.id b.address.key value)
      | none => .error (.missingInput b.name))
    FrameQueue.empty
  return p.heads.foldl FrameQueue.ensure frames

/-- The outputs after a firing: each binding that reads from the node takes its value, if one
flows. -/
def recordOutputs (p : Program) (id : String) (results : Outputs) (outputs : Record Json) :
    Record Json :=
  (p.outputsOf id).foldl
    (fun outputs b =>
      match results.get? b.address.key with
      | some (.value value) => outputs.insert b.name value
      | _ => outputs)
    outputs

/-- Whether there are declared outputs and all of them have a value. -/
def isComplete (p : Program) (outputs : Record Json) : Bool :=
  !p.output.isEmpty && p.outputNames.all outputs.contains

/-- The number of frames that an execution processes at most. The step budget is the node count plus
the slack in 64-bit arithmetic, and the last step only finds out that it is the last. -/
def steps (p : Program) (slack : UInt64) : Nat := (UInt64.ofNat p.size + slack).toNat - 1

end Program

namespace Host

/-- Run a program from its inputs. -/
def runProgram (nested : Executor) (p : Program) (inputs : Record Json) (caller : String) :
    Run (Record Json) := do
  let frames ← Run.ofExcept (p.firstFrames inputs)
  nested caller p frames

/-- Call a callback. -/
def callClosure (nested : Executor) (closures : Record Closure) (caller : String)
    (name : String) (args : Record Json) : Run (Record Json) :=
  match closures.get? name with
  | none => Run.fail (.unknownCallback name)
  | some closure => do
    let frames ← Run.ofExcept (closure.frames args)
    nested caller closure.program frames

/-- Call a function. A native function's callbacks run in the name of the caller, a program in its
own. -/
def invoke (nested : Executor) (function : String) (entry : Entry) (args : Record Json)
    (closures : Record Closure) (caller : String) : Run Outputs :=
  match entry with
  | .native _ runner =>
    (runner args closures.names).perform (callClosure nested closures caller)
  | .program _ p => do
    let values ← runProgram nested p args function
    return values.map fun _ value => .value value

/-- The cache key of a call, when results of the function are cached. -/
def cacheKey? (cache : Option MemoCache) (function : String) (args : Record Json)
    (closures : Record Closure) : Option String :=
  match cache with
  | some cache =>
    if cache.isCacheable function then
      some (MemoCache.key function args (closures.map fun _ closure => closure.fingerprint))
    else none
  | none => none

/-- Look a key up in the cache. -/
def fetch (key : String) : Run (Option Outputs) := do
  match ← Run.cache? with
  | none => return none
  | some cache =>
    let (found, cache) := cache.lookup key
    Run.setCache cache
    return found

/-- Keep a result in the cache. -/
def remember (key : String) (outputs : Outputs) : Run Unit := do
  match ← Run.cache? with
  | none => return ()
  | some cache => Run.setCache (cache.insert key outputs)

/-- Call a function through the cache. -/
def invokeCached (host : Host) (nested : Executor) (function : String) (entry : Entry)
    (args : Record Json) (closures : Record Closure) (caller : String) : Run Outputs := do
  let cache ← Run.cache?
  match cacheKey? cache function args closures with
  | none => invoke nested function entry args closures caller
  | some key =>
    match ← fetch key with
    | some outputs =>
      Run.note (.cacheHit key)
      Run.emit host.observer (.cacheHit key)
      return outputs
    | none =>
      let outputs ← invoke nested function entry args closures caller
      remember key outputs
      return outputs

/-- Send a result along an edge. -/
def forward (host : Host) (id : String) (edge : Edge) (results : Outputs) (frames : FrameQueue) :
    Run FrameQueue :=
  match results.get? edge.fromKey with
  | some (.value value) => return frames.add edge.target edge.toKey value
  | some .stop => do
    Run.note (.stopped id edge.fromKey)
    Run.emit host.observer (.branchStopped id edge.fromKey)
    return frames
  | none => do
    Run.note (.missingOutput id edge.fromKey edge.target)
    return frames

/-- Send the results of a firing along the edges of its node. Edges into callback bodies carry
nothing. -/
def deliver (host : Host) (id : String) (signature : Signature) (results : Outputs) :
    List Edge → FrameQueue → Run FrameQueue
  | [], frames => return frames
  | edge :: rest, frames => do
    if signature.hasOutput edge.fromKey then
      let frames ← forward host id edge results frames
      deliver host id signature results rest frames
    else
      if !signature.hasCallbackInput edge.fromKey then
        Run.note (.unknownKey id edge.fromKey)
      deliver host id signature results rest frames

/-- Fire a node that is ready. The frames inside its callback bodies are used up. -/
def fire (host : Host) (nested : Executor) (caller : String) (p : Program) (id : String)
    (node : Node) (entry : Entry) (frame : Frame) (frames : FrameQueue) :
    Run (Outputs × FrameQueue) := do
  let extraction ← Run.ofExcept (Callback.extract p id entry.signature frames)
  let args := node.arguments entry.signature frame
  Run.note (.firing id node.function caller)
  Run.emit host.observer (.nodeFired caller id node.function)
  let results ←
    host.invokeCached nested node.function entry args extraction.closures caller
  let frames := extraction.consumed.foldl FrameQueue.remove frames
  let frames ← host.deliver id entry.signature results node.next frames
  return (results, frames)

/-- What one popped frame leads to. -/
inductive Progress where
  /-- The queue goes on with the outputs so far. -/
  | next (frames : FrameQueue) (outputs : Record Json)
  /-- Every declared output has a value. -/
  | complete (outputs : Record Json)

/-- Process one popped frame: drop it, put it back, or fire its node. -/
def process (host : Host) (nested : Executor) (caller : String) (p : Program) (id : String)
    (frame : Frame) (frames : FrameQueue) (outputs : Record Json) : Run Progress :=
  match p.node? id with
  | none => do
    Run.note (.unknownNode id)
    return .next frames outputs
  | some node =>
    match host.catalog.get? node.function with
    | none => Run.fail (.functionNotFound node.function)
    | some entry =>
      if node.isReady entry.signature frame then do
        let (results, frames) ← host.fire nested caller p id node entry frame frames
        let outputs := p.recordOutputs id results outputs
        if p.isComplete outputs then return .complete outputs else return .next frames outputs
      else do
        Run.note (.notReady id)
        return .next (frames.defer id frame) outputs

/-- Give up because the steps have run out. -/
def exhaust (host : Host) (caller : String) (pending : List String) : Run Unit := do
  Run.note (.budgetExhausted caller pending.length)
  Run.emit host.observer (.budgetExhausted caller pending)

/-- Drain the queue in at most the given number of steps. -/
def drain (host : Host) (nested : Executor) (caller : String) (p : Program) :
    (steps : Nat) → FrameQueue → (outputs : Record Json) → Run (Record Json)
  | 0, frames, outputs =>
    match frames.pop? with
    | none => return outputs
    | some ((id, _), frames) => do
      host.exhaust caller (id :: frames.pending)
      return outputs
  | steps + 1, frames, outputs =>
    match frames.pop? with
    | none => return outputs
    | some ((id, frame), frames) => do
      match ← host.process nested caller p id frame frames outputs with
      | .complete outputs => return outputs
      | .next frames outputs => drain host nested caller p steps frames outputs

/-- Run a program from its first frames, following nested calls to the given depth. -/
def execute (host : Host) : (depth : Nat) → Executor
  | 0 => fun _ _ _ => Run.halt .outOfDepth
  | depth + 1 => fun caller p frames =>
    host.drain (host.execute depth) caller p (p.steps host.slack) frames .empty

end Host

end Dataflow
