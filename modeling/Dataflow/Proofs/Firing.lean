/-
The firings of an execution.

An execution takes frame after frame from the queue, and some of them make their nodes fire. The
list of these firings, each with its arguments and its results, is followed alongside the scheduler:
it is computed by the same steps and stops where the scheduler stops.

* `Host.Processed` — all that can happen to one frame;
* `Host.process_processed` — nothing else happens;
* `Host.firings` — the firings of an execution, in order;
* `Host.Drained`, `Host.drain_drained` — a whole execution, frame by frame.
-/
import Mathlib
import Dataflow.Proofs.Delivery
namespace Dataflow

/-- One firing of a node: what went in and what came out. -/
structure Firing where
  id : String
  node : Node
  entry : Entry
  args : Record Json
  /-- The nodes of the callback bodies. -/
  consumed : List String
  /-- The results, unless the call has failed. -/
  results : Option Outputs

namespace Host

/-- The session in which a firing makes its call: the firing has been noted and told. -/
def announced (host : Host) (caller id function : String) (s : Session) : Session :=
  (Run.emit host.observer (.nodeFired caller id function)
    (Run.note (.firing id function caller) s).2).2

theorem announced_quiet (host : Host) (caller id function : String) (s : Session) :
    s.Quiet (host.announced caller id function s) :=
  (Session.Quiet.note _ s).trans (.emit host.observer _ _)

/-- The firing that a popped frame leads to, if its node is ready and its callbacks are wired. -/
def firing? (host : Host) (nested : Executor) (caller : String) (p : Program) (id : String)
    (frame : Frame) (frames : FrameQueue) (s : Session) : Option Firing := do
  let node ← p.node? id
  let entry ← host.catalog.get? node.function
  if node.isReady entry.signature frame then
    let extraction ← (Callback.extract p id entry.signature frames).toOption
    let args := node.arguments entry.signature frame
    let call := host.invokeCached nested node.function entry args extraction.closures caller
    let answer := (call (host.announced caller id node.function s)).1
    return ⟨id, node, entry, args, extraction.consumed, answer.toOption⟩
  else none

/-! ### One frame -/

section Processed

variable (host : Host) (nested : Executor) (caller : String) (p : Program) (id : String)
  (frame : Frame) (frames : FrameQueue) (outputs : Record Json) (s : Session)

/-- What can happen to a popped frame: the firing it leads to, the outcome and the session after
it. -/
inductive Processed : Option Firing → Except Halt Progress × Session → Prop where
  /-- There is no such node, and the frame is dropped. -/
  | dropped {s' : Session} : p.node? id = none → s.Quiet s' →
    Processed none (.ok (.next frames outputs), s')
  /-- The function of the node is not known. -/
  | unknown {node : Node} : p.node? id = some node → host.catalog.get? node.function = none →
    Processed none (.error (.failed (.functionNotFound node.function)), s)
  /-- The node is not ready, and the frame goes to the end of the line. -/
  | deferred {node : Node} {entry : Entry} {s' : Session} : p.node? id = some node →
    host.catalog.get? node.function = some entry → node.isReady entry.signature frame = false →
    s.Quiet s' → Processed none (.ok (.next (frames.defer id frame) outputs), s')
  /-- The callbacks of the node are not wired. -/
  | unwired {node : Node} {entry : Entry} {error : RunError} : p.node? id = some node →
    host.catalog.get? node.function = some entry → node.isReady entry.signature frame = true →
    Callback.extract p id entry.signature frames = .error error →
    Processed none (.error (.failed error), s)
  /-- The node fires, and its call fails. -/
  | failed {node : Node} {entry : Entry} {extraction : Extraction} {halt : Halt}
    {s₁ s₂ : Session} : p.node? id = some node →
    host.catalog.get? node.function = some entry → node.isReady entry.signature frame = true →
    Callback.extract p id entry.signature frames = .ok extraction → s.Quiet s₁ →
    host.invokeCached nested node.function entry (node.arguments entry.signature frame)
      extraction.closures caller s₁ = (.error halt, s₂) →
    Processed (some ⟨id, node, entry, node.arguments entry.signature frame, extraction.consumed,
      none⟩) (.error halt, s₂)
  /-- The node fires, and its results are recorded and delivered. -/
  | fired {node : Node} {entry : Entry} {extraction : Extraction} {results : Outputs}
    {s₁ s₂ s₃ : Session} : p.node? id = some node →
    host.catalog.get? node.function = some entry → node.isReady entry.signature frame = true →
    Callback.extract p id entry.signature frames = .ok extraction → s.Quiet s₁ →
    host.invokeCached nested node.function entry (node.arguments entry.signature frame)
      extraction.closures caller s₁ = (.ok results, s₂) → s₂.Quiet s₃ →
    Processed (some ⟨id, node, entry, node.arguments entry.signature frame, extraction.consumed,
        some results⟩)
      (.ok (if p.isComplete (p.recordOutputs id results outputs) then
          .complete (p.recordOutputs id results outputs)
        else .next ((extraction.consumed.foldl FrameQueue.remove frames).receiveAll
          (Delivery.ofFiring entry.signature results node.next))
          (p.recordOutputs id results outputs)), s₃)

variable {host nested caller p id frame frames outputs s}

/-- Firing a node: its call, then its deliveries. -/
theorem fire_of_extract {node : Node} {entry : Entry} {extraction : Extraction}
    (h : Callback.extract p id entry.signature frames = .ok extraction) :
    host.fire nested caller p id node entry frame frames s =
      (host.invokeCached nested node.function entry (node.arguments entry.signature frame)
        extraction.closures caller).andThen
        (fun results => (host.deliver id entry.signature results node.next
          (extraction.consumed.foldl FrameQueue.remove frames)).andThen
            fun frames => Run.result (results, frames))
        (host.announced caller id node.function s) := by
  have hextract : Run.ofExcept (Callback.extract p id entry.signature frames) s =
      (.ok extraction, s) := by
    rw [h]
    rfl
  rw [fire, Run.bind_eq, Run.andThen_of_ok hextract]
  simp only [Run.bind_eq, Run.pure_eq]
  rw [Run.andThen_of_ok (Run.note_eq ..), Run.andThen_of_ok (Run.emit_eq ..)]
  rfl

/-- A node whose callbacks are not wired does not fire. -/
theorem fire_of_unwired {node : Node} {entry : Entry} {error : RunError}
    (h : Callback.extract p id entry.signature frames = .error error) :
    host.fire nested caller p id node entry frame frames s = (.error (.failed error), s) := by
  rw [fire, Run.bind_eq, h]
  rfl

/-- **What becomes of a popped frame, case by case**, with the session after it. A property of all
cases is one of every step. -/
theorem process_cases {P : Except Halt Progress × Session → Prop}
    (dropped : p.node? id = none →
      P (.ok (.next frames outputs), (Run.note (.unknownNode id) s).2))
    (unknown : ∀ node, p.node? id = some node → host.catalog.get? node.function = none →
      P (.error (.failed (.functionNotFound node.function)), s))
    (deferred : ∀ node entry, p.node? id = some node →
      host.catalog.get? node.function = some entry → node.isReady entry.signature frame = false →
      P (.ok (.next (frames.defer id frame) outputs), (Run.note (.notReady id) s).2))
    (unwired : ∀ node entry error, p.node? id = some node →
      host.catalog.get? node.function = some entry → node.isReady entry.signature frame = true →
      Callback.extract p id entry.signature frames = .error error → P (.error (.failed error), s))
    (failed : ∀ node entry extraction halt s₂, p.node? id = some node →
      host.catalog.get? node.function = some entry → node.isReady entry.signature frame = true →
      Callback.extract p id entry.signature frames = .ok extraction →
      host.invokeCached nested node.function entry (node.arguments entry.signature frame)
        extraction.closures caller (host.announced caller id node.function s) = (.error halt, s₂) →
      P (.error halt, s₂))
    (fired : ∀ node entry extraction results s₂, p.node? id = some node →
      host.catalog.get? node.function = some entry → node.isReady entry.signature frame = true →
      Callback.extract p id entry.signature frames = .ok extraction →
      host.invokeCached nested node.function entry (node.arguments entry.signature frame)
        extraction.closures caller (host.announced caller id node.function s) = (.ok results, s₂) →
      P (.ok (if p.isComplete (p.recordOutputs id results outputs) then
          .complete (p.recordOutputs id results outputs)
        else .next ((extraction.consumed.foldl FrameQueue.remove frames).receiveAll
          (Delivery.ofFiring entry.signature results node.next))
          (p.recordOutputs id results outputs)),
        (host.deliver id entry.signature results node.next
          (extraction.consumed.foldl FrameQueue.remove frames) s₂).2)) :
    P (host.process nested caller p id frame frames outputs s) := by
  unfold process
  cases hnode : p.node? id with
  | none => exact dropped hnode
  | some node =>
    simp only
    cases hentry : host.catalog.get? node.function with
    | none => exact unknown node hnode hentry
    | some entry =>
      simp only
      cases hready : node.isReady entry.signature frame with
      | false => exact deferred node entry hnode hentry hready
      | true =>
        simp only [if_true, Run.bind_eq, Run.pure_eq]
        cases hextract : Callback.extract p id entry.signature frames with
        | error error =>
          rw [Run.andThen_of_error (fire_of_unwired hextract)]
          exact unwired node entry error hnode hentry hready hextract
        | ok extraction =>
          have hfire : host.fire nested caller p id node entry frame frames s = _ :=
            fire_of_extract hextract
          rcases hcall : host.invokeCached nested node.function entry
            (node.arguments entry.signature frame) extraction.closures caller
            (host.announced caller id node.function s) with ⟨halt | results, s₂⟩
          · rw [Run.andThen_of_error hcall] at hfire
            rw [Run.andThen_of_error hfire]
            exact failed node entry extraction halt s₂ hnode hentry hready hextract hcall
          · have hafter := fired node entry extraction results s₂ hnode hentry hready hextract hcall
            obtain ⟨s₃, -, hdeliver⟩ := host.deliver_spec id entry.signature results node.next
              (extraction.consumed.foldl FrameQueue.remove frames) s₂
            rw [hdeliver] at hafter
            rw [Run.andThen_of_ok hcall, Run.andThen_of_ok hdeliver] at hfire
            rw [Run.andThen_of_ok hfire]
            simp only [← apply_ite]
            exact hafter

/-- A node that is ready and whose callbacks are wired fires. -/
theorem firing?_of_extract {node : Node} {entry : Entry} {extraction : Extraction}
    (hnode : p.node? id = some node) (hentry : host.catalog.get? node.function = some entry)
    (hready : node.isReady entry.signature frame = true)
    (hextract : Callback.extract p id entry.signature frames = .ok extraction) :
    host.firing? nested caller p id frame frames s =
      some ⟨id, node, entry, node.arguments entry.signature frame, extraction.consumed,
        (host.invokeCached nested node.function entry (node.arguments entry.signature frame)
          extraction.closures caller (host.announced caller id node.function s)).1.toOption⟩ := by
  simp only [firing?, hnode, hentry, hready, hextract, Option.bind_eq_bind, Option.bind_some,
    if_true]
  rfl

/-- **Nothing else can happen to a popped frame.** -/
theorem process_processed :
    host.Processed nested caller p id frame frames outputs s
      (host.firing? nested caller p id frame frames s)
      (host.process nested caller p id frame frames outputs s) := by
  refine process_cases (P := host.Processed nested caller p id frame frames outputs s
    (host.firing? nested caller p id frame frames s)) ?_ ?_ ?_ ?_ ?_ ?_
  · intro hnode
    simp only [firing?, hnode, Option.bind_eq_bind, Option.bind_none]
    exact .dropped hnode (.note _ s)
  · intro node hnode hentry
    simp only [firing?, hnode, hentry, Option.bind_eq_bind, Option.bind_some, Option.bind_none]
    exact .unknown hnode hentry
  · intro node entry hnode hentry hready
    simp only [firing?, hnode, hentry, hready, Option.bind_eq_bind, Option.bind_some]
    exact .deferred hnode hentry hready (.note _ s)
  · intro node entry error hnode hentry hready hextract
    simp only [firing?, hnode, hentry, hready, hextract, Option.bind_eq_bind, Option.bind_some]
    exact .unwired hnode hentry hready hextract
  · intro node entry extraction halt s₂ hnode hentry hready hextract hcall
    rw [firing?_of_extract hnode hentry hready hextract, hcall]
    exact .failed hnode hentry hready hextract (host.announced_quiet ..) hcall
  · intro node entry extraction results s₂ hnode hentry hready hextract hcall
    obtain ⟨s₃, hquiet, hdeliver⟩ := host.deliver_spec id entry.signature results node.next
      (extraction.consumed.foldl FrameQueue.remove frames) s₂
    rw [firing?_of_extract hnode hentry hready hextract, hcall, hdeliver]
    exact .fired hnode hentry hready hextract (host.announced_quiet ..) hcall hquiet

/-- What is left of a sound queue after a step is sound. -/
theorem Processed.sound {firing : Option Firing} {frames' : FrameQueue} {outputs' : Record Json}
    {s' : Session} (h : host.Processed nested caller p id frame frames outputs s firing
      (.ok (.next frames' outputs'), s')) (hframes : frames.Sound) : frames'.Sound := by
  generalize hresult : (Except.ok (Progress.next frames' outputs'), s') = result at h
  cases h with
  | unknown | unwired | failed => cases hresult
  | dropped _ _ =>
    cases hresult
    exact hframes
  | deferred _ _ _ _ =>
    cases hresult
    exact hframes.defer id frame
  | fired _ _ _ _ _ _ _ =>
    split at hresult
    · cases hresult
    · cases hresult
      exact (hframes.foldl_remove _).receiveAll _

end Processed

/-! ### A whole execution -/

/-- The firings of an execution, in order. -/
def firings (host : Host) (nested : Executor) (caller : String) (p : Program) :
    (steps : Nat) → FrameQueue → (outputs : Record Json) → Session → List Firing
  | 0, _, _, _ => []
  | steps + 1, frames, outputs, s =>
    match frames.pop? with
    | none => []
    | some ((id, frame), frames) =>
      (host.firing? nested caller p id frame frames s).toList ++
        match host.process nested caller p id frame frames outputs s with
        | (.ok (.next frames outputs), s) => firings host nested caller p steps frames outputs s
        | _ => []

section Drained

variable (host : Host) (nested : Executor) (caller : String) (p : Program)

/-- How a queue is drained, frame by frame: the firings, the outcome and the session after it. -/
inductive Drained : Nat → FrameQueue → Record Json → Session → List Firing →
    Except Halt (Record Json) × Session → Prop where
  /-- No frame is left. -/
  | empty {steps : Nat} {frames : FrameQueue} {outputs : Record Json} {s : Session} :
    frames.pop? = none → Drained steps frames outputs s [] (.ok outputs, s)
  /-- The steps have run out. -/
  | exhausted {frames : FrameQueue} {outputs : Record Json} {s s' : Session} : s.Quiet s' →
    Drained 0 frames outputs s [] (.ok outputs, s')
  /-- A frame puts an end to the execution. -/
  | halted {steps : Nat} {frames rest : FrameQueue} {outputs : Record Json} {s s' : Session}
    {id : String} {frame : Frame} {firing : Option Firing} {halt : Halt} :
    frames.pop? = some ((id, frame), rest) →
    host.Processed nested caller p id frame rest outputs s firing (.error halt, s') →
    Drained (steps + 1) frames outputs s firing.toList (.error halt, s')
  /-- The last output has got its value. -/
  | complete {steps : Nat} {frames rest : FrameQueue} {outputs final : Record Json}
    {s s' : Session} {id : String} {frame : Frame} {firing : Option Firing} :
    frames.pop? = some ((id, frame), rest) →
    host.Processed nested caller p id frame rest outputs s firing (.ok (.complete final), s') →
    Drained (steps + 1) frames outputs s firing.toList (.ok final, s')
  /-- The execution goes on behind a frame. -/
  | next {steps : Nat} {frames rest frames' : FrameQueue} {outputs outputs' : Record Json}
    {s s' : Session} {id : String} {frame : Frame} {firing : Option Firing} {log : List Firing}
    {final : Except Halt (Record Json) × Session} : frames.pop? = some ((id, frame), rest) →
    host.Processed nested caller p id frame rest outputs s firing
      (.ok (.next frames' outputs'), s') →
    Drained steps frames' outputs' s' log final →
    Drained (steps + 1) frames outputs s (firing.toList ++ log) final

variable {host nested caller p}

/-- **The scheduler drains a queue with the firings that are listed for it.** -/
theorem drain_drained (steps : Nat) (frames : FrameQueue) (outputs : Record Json) (s : Session) :
    host.Drained nested caller p steps frames outputs s
      (host.firings nested caller p steps frames outputs s)
      (host.drain nested caller p steps frames outputs s) := by
  induction steps generalizing frames outputs s with
  | zero =>
    rw [firings, drain]
    cases hpop : frames.pop? with
    | none => exact .empty hpop
    | some popped =>
      simp only [exhaust, Run.bind_eq, Run.pure_eq]
      rw [Run.andThen_of_ok ((Run.andThen_of_ok (Run.note_eq ..)).trans (Run.emit_eq ..))]
      exact .exhausted ((Session.Quiet.note _ s).trans (.emit host.observer _ _))
  | succ steps ih =>
    rw [firings, drain]
    cases hpop : frames.pop? with
    | none => exact .empty hpop
    | some popped =>
      obtain ⟨⟨id, frame⟩, rest⟩ := popped
      have hprocess : host.Processed nested caller p id frame rest outputs s _ _ :=
        process_processed
      simp only [Run.bind_eq, Run.pure_eq]
      rcases hp : host.process nested caller p id frame rest outputs s with
        ⟨halt | ⟨frames', outputs'⟩ | final, s'⟩
      · rw [hp] at hprocess
        rw [Run.andThen_of_error hp]
        simp only [List.append_nil]
        exact .halted hpop hprocess
      · rw [hp] at hprocess
        rw [Run.andThen_of_ok hp]
        exact .next hpop hprocess (ih frames' outputs' s')
      · rw [hp] at hprocess
        rw [Run.andThen_of_ok hp]
        simp only [List.append_nil]
        exact .complete hpop hprocess

end Drained

end Host

end Dataflow
