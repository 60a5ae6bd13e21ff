/-
One execution follows another.

Two hosts with the same catalog and slack are compared, each with its own way to run nested
programs. When nested runs on one side lead those on the other, and so do calls through the cache,
whole executions do: the scheduler on both sides pops, defers and fires the same frames. The two
sides may differ in their callers, their observers, the order of the nodes and the depth to which
they follow calls.

* `Host.invoke_leads` — calls of functions;
* `Host.fire_leads`, `Host.process_leads`, `Host.drain_leads` — the scheduler.
-/
import Mathlib
import Dataflow.Proofs.Firing
namespace Dataflow

variable {C : Option MemoCache → Option MemoCache → Prop}

/-- Nested runs on one side lead those on the other, from sound queues and up to the order of
nodes. -/
def Executor.Leads (C : Option MemoCache → Option MemoCache → Prop) (nested : Executor)
    (family : Nat → Executor) : Prop :=
  ∀ (caller caller' : String) {p q : Program} {frames : FrameQueue}, p.Similar q → frames.Sound →
    Run.Leads C (nested caller p frames) fun m => family m caller' q frames

/-- Closures that do the same. -/
structure Closure.Similar (c d : Closure) : Prop where
  name : c.name = d.name
  program : c.program.Similar d.program
  seed : c.seed = d.seed

/-- Records of closures that do the same under every name. -/
def Closure.AllSimilar (a b : Record Closure) : Prop :=
  ∀ name, Option.Rel Closure.Similar (a.get? name) (b.get? name)

namespace Closure

variable {a b : Record Closure} {c d : Closure}

theorem AllSimilar.refl (a : Record Closure) : AllSimilar a a := by
  intro name
  cases a.get? name with
  | none => exact .none
  | some c => exact .some ⟨rfl, .refl _, rfl⟩

private theorem AllSimilar.names_eq (h : AllSimilar a b) : a.names = b.names := by
  refine Record.names_eq_names fun name => ?_
  have hrel := h name
  rw [Record.contains, Record.contains]
  generalize a.get? name = found at hrel
  generalize b.get? name = found' at hrel
  cases hrel with
  | none => rfl
  | some _ => rfl

/-- Similar closures start a call from the same frames. -/
theorem Similar.frames_eq (h : c.Similar d) (args : Record Json) :
    c.frames args = d.frames args := by
  rw [frames, frames, h.name, h.program.input, h.seed]

end Closure

/-- A catalog whose library functions draw no random numbers. -/
def Catalog.Deterministic (c : Catalog) : Prop :=
  ∀ name signature runner, c.get? name = some (.native signature runner) →
    ∀ args callbacks, (runner args callbacks).Deterministic

namespace Host

variable {nested : Executor} {family : Nat → Executor}

/-! ### Calls -/

theorem runProgram_leads (hn : Executor.Leads C nested family) (p : Program)
    (inputs : Record Json) (caller caller' : String) :
    Run.Leads C (runProgram nested p inputs caller)
      fun m => runProgram (family m) p inputs caller' := by
  refine (Run.leads_ofExcept _).andThen fun frames hframes => ?_
  exact hn caller caller' (.refl p) (Program.firstFrames_sound (Run.gives_ofExcept hframes))

/-- Callbacks of similar closures do the same. -/
theorem callClosure_leads (hn : Executor.Leads C nested family)
    {closures closures' : Record Closure}
    (hsound : Closure.AllSound closures) (hsimilar : Closure.AllSimilar closures closures')
    (caller caller' name : String) (args : Record Json) :
    Run.Leads C (callClosure nested closures caller name args)
      fun m => callClosure (family m) closures' caller' name args := by
  have hrel := hsimilar name
  have hseed := hsound name
  unfold callClosure
  generalize closures.get? name = found at hrel hseed
  generalize closures'.get? name = found' at hrel
  cases hrel with
  | none => exact Run.leads_halt _
  | @some c d hcd =>
    simp only [Run.bind_eq]
    rw [← hcd.frames_eq]
    refine (Run.leads_ofExcept _).andThen fun frames hframes => ?_
    exact hn caller caller' hcd.program
      (Closure.frames_sound (hseed c rfl).2 (Run.gives_ofExcept hframes))

/-- A call of a function does the same on both sides, when its closures do. -/
theorem invoke_leads (hn : Executor.Leads C nested family) {catalog : Catalog}
    (hdet : catalog.Deterministic) {function : String} {entry : Entry}
    (hentry : catalog.get? function = some entry) (args : Record Json)
    {closures closures' : Record Closure} (hsound : Closure.AllSound closures)
    (hsimilar : Closure.AllSimilar closures closures') (caller caller' : String) :
    Run.Leads C (invoke nested function entry args closures caller)
      fun m => invoke (family m) function entry args closures' caller' := by
  cases entry with
  | native signature runner =>
    simp only [invoke, ← hsimilar.names_eq]
    exact (hdet function signature runner hentry args closures.names).leads fun name args =>
      callClosure_leads hn hsound hsimilar caller caller' name args
  | program signature p =>
    exact (runProgram_leads hn p args function function).andThen fun values _ =>
      Run.leads_result _

/-! ### The scheduler -/

section Scheduler

variable {host host' : Host} {p q : Program}

/-- Calls through the cache lead each other, for the closures of a firing. -/
def CallsLead (C : Option MemoCache → Option MemoCache → Prop) (host host' : Host)
    (nested : Executor) (family : Nat → Executor) : Prop :=
  ∀ {function : String} {entry : Entry}, host.catalog.get? function = some entry →
    ∀ (args : Record Json) {closures : Record Closure}, Closure.AllSound closures →
      ∀ caller caller' : String,
        Run.Leads C (host.invokeCached nested function entry args closures caller)
          fun m => host'.invokeCached (family m) function entry args closures caller'

private theorem deliver_leads (host host' : Host) (id : String) (signature : Signature)
    (results : Outputs) (edges : List Edge) (frames : FrameQueue) :
    Run.Leads C (host.deliver id signature results edges frames)
      fun _ => host'.deliver id signature results edges frames := by
  refine Run.Leads.of_outcome
    (.ok (frames.receiveAll (Delivery.ofFiring signature results edges))) (fun s => ?_) fun s => ?_
  · obtain ⟨s', hquiet, hdeliver⟩ := host.deliver_spec id signature results edges frames s
    rw [hdeliver]
    exact ⟨rfl, hquiet.cache⟩
  · obtain ⟨s', hquiet, hdeliver⟩ := host'.deliver_spec id signature results edges frames s
    exact ⟨s', hquiet.cache, fun _ => hdeliver⟩

theorem fire_leads (hc : CallsLead C host host' nested family) (hpq : p.Similar q)
    {node : Node} {entry : Entry} (hentry : host.catalog.get? node.function = some entry)
    (caller caller' id : String) (frame : Frame) {frames : FrameQueue} (hframes : frames.Sound) :
    Run.Leads C (host.fire nested caller p id node entry frame frames)
      fun m => host'.fire (family m) caller' q id node entry frame frames := by
  unfold fire
  simp only [Run.bind_eq, Run.pure_eq, Callback.extract_similar hpq]
  refine (Run.leads_ofExcept _).andThen fun extraction hextraction => ?_
  have hsound : Closure.AllSound extraction.closures :=
    Callback.extract_sound hframes (Run.gives_ofExcept hextraction)
  refine (Run.leads_note _ _).andThen fun _ _ => ?_
  refine (Run.leads_emit _ _ _ _).andThen fun _ _ => ?_
  refine (hc hentry _ hsound caller caller').andThen fun results _ => ?_
  refine (deliver_leads host host' id _ results _ _).andThen fun frames _ => ?_
  exact Run.leads_result _

/-- What is left of a sound queue after a step is sound. -/
theorem process_gives_sound {caller id : String} {frame : Frame} {frames frames' : FrameQueue}
    {outputs outputs' : Record Json} (hframes : frames.Sound)
    (h : (host.process nested caller p id frame frames outputs).Gives (.next frames' outputs')) :
    frames'.Sound := by
  obtain ⟨s, s', h⟩ := h
  have hprocessed : host.Processed nested caller p id frame frames outputs s _ _ :=
    process_processed
  rw [h] at hprocessed
  exact hprocessed.sound hframes

theorem process_leads (hcatalog : host.catalog = host'.catalog)
    (hc : CallsLead C host host' nested family) (hpq : p.Similar q) (caller caller' id : String)
    (frame : Frame) {frames : FrameQueue} (hframes : frames.Sound) (outputs : Record Json) :
    Run.Leads C (host.process nested caller p id frame frames outputs)
      fun m => host'.process (family m) caller' q id frame frames outputs := by
  unfold process
  rw [← hcatalog, ← hpq.node?]
  cases p.node? id with
  | none => exact (Run.leads_note _ _).andThen fun _ _ => Run.leads_result _
  | some node =>
    simp only
    cases hentry : host.catalog.get? node.function with
    | none => exact Run.leads_halt _
    | some entry =>
      simp only
      split
      · refine (fire_leads hc hpq hentry caller caller' id frame hframes).andThen fun fired _ => ?_
        have houtputs : p.recordOutputs id fired.1 outputs =
            q.recordOutputs id fired.1 outputs := by
          rw [Program.recordOutputs, Program.recordOutputs, Program.outputsOf, Program.outputsOf,
            hpq.output]
        have hcomplete : p.isComplete = q.isComplete := by
          funext outputs
          rw [Program.isComplete, Program.isComplete, Program.outputNames, Program.outputNames,
            hpq.output]
        simp only [houtputs, hcomplete]
        split <;> exact Run.leads_result _
      · exact (Run.leads_note _ _).andThen fun _ _ => Run.leads_result _

private theorem exhaust_leads (host host' : Host) (caller caller' : String)
    (pending : List String) :
    Run.Leads C (host.exhaust caller pending) fun _ => host'.exhaust caller' pending :=
  (Run.leads_note _ _).andThen fun _ _ => Run.leads_emit _ _ _ _

/-- Draining a queue does the same on both sides. -/
theorem drain_leads (hcatalog : host.catalog = host'.catalog)
    (hc : CallsLead C host host' nested family) (hpq : p.Similar q) (caller caller' : String)
    (steps : Nat) {frames : FrameQueue} (hframes : frames.Sound) (outputs : Record Json) :
    Run.Leads C (host.drain nested caller p steps frames outputs)
      fun m => host'.drain (family m) caller' q steps frames outputs := by
  induction steps generalizing frames outputs with
  | zero =>
    simp only [drain]
    cases frames.pop? with
    | none => exact Run.leads_result _
    | some popped => exact (exhaust_leads host host' _ _ _).andThen fun _ _ => Run.leads_result _
  | succ steps ih =>
    simp only [drain]
    cases hpop : frames.pop? with
    | none => exact Run.leads_result _
    | some popped =>
      obtain ⟨⟨id, frame⟩, rest⟩ := popped
      have hrest : rest.Sound := hframes.pop hpop
      refine (process_leads hcatalog hc hpq caller caller' id frame hrest outputs).andThen
        fun progress hprogress => ?_
      cases progress with
      | complete outputs => exact Run.leads_result _
      | next frames outputs => exact ih (process_gives_sound hrest hprogress) outputs

end Scheduler

end Host

end Dataflow
