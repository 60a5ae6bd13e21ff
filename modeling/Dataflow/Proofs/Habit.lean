/-
Habits: what holds of every execution because it holds of each act.

Many facts about runs have one and the same proof. They hold of single acts, such as making a note
or calling a function through the cache; they are kept when one computation follows another; and
they hold of the executions that are called on the way, which are one level deeper. The walk through
the scheduler is made here, once for all of them.

A habit may depend on what is executed. Its scope tells the executions it is claimed of, and the
scope has to be kept by every move of the queue and by every call of a program or a callback.

* `Run.Closed` — kept by all ways of putting computations together;
* `Run.Closed.of_trans` — what happens to the session on the way is such a property;
* `Host.Turn` — a node that is about to fire;
* `Host.Moves` — what one step makes of the queue;
* `Host.Habit.of_acts` — habits that do not depend on what is executed;
* `Host.Habit.execute` — every execution in the scope has the habit;
* `Environment.session_closed` — and so do top-level runs.
-/
import Mathlib
import Dataflow.Environment
import Dataflow.Proofs.Firing
namespace Dataflow

/-! ### Computations -/

namespace Run

variable {α β γ : Type}

theorem andThen_assoc (r : Run α) (f : α → Run β) (g : β → Run γ) :
    (r.andThen f).andThen g = r.andThen fun a => (f a).andThen g := by
  funext s
  rcases h : r s with ⟨halt | a, s'⟩
  · rw [andThen_of_error h, andThen_of_error (andThen_of_error h)]
  · rw [andThen_of_ok h, andThen, andThen_of_ok h]
    rfl

/-- Drawing a random number changes nothing but the source. -/
theorem random_eq (s : Session) : ∃ x source, random s = (.ok x, { s with random := source }) := by
  rcases h : s.random.next with ⟨x, source⟩
  refine ⟨x, source, ?_⟩
  simp only [random, h]

/-- A property that is kept by all ways of putting computations together. What follows a computation
need only have it for the results that the computation can give. -/
structure Closed (P : (α : Type) → Run α → Prop) : Prop where
  result {α : Type} (a : α) : P α (result a)
  halt {α : Type} (h : Halt) : P α (Run.halt h)
  note (n : Note) : P Unit (note n)
  andThen {α β : Type} {r : Run α} {f : α → Run β} :
    P α r → (∀ a, r.Gives a → P β (f a)) → P β (r.andThen f)
  attempt {α : Type} {r : Run α} : P α r → P (Except RunError α) r.attempt

theorem Closed.ofExcept {P : (α : Type) → Run α → Prop} (hP : Closed P)
    (e : Except RunError α) : P α (ofExcept e) := by
  cases e with
  | ok a => exact hP.result a
  | error error => exact hP.halt (.failed error)

/-- What happens to the session is kept by all combinations, if it can be repeated and a note is an
instance of it. -/
theorem Closed.of_trans {R : Session → Session → Prop} (refl : ∀ s, R s s)
    (trans : ∀ {s s' s''}, R s s' → R s' s'' → R s s'') (note : ∀ n s, R s (Run.note n s).2) :
    Closed fun _ r => ∀ s, R s (r s).2 where
  result _ := refl
  halt _ := refl
  note := note
  andThen {α β r f} hr hf s := by
    have hfirst := hr s
    rcases h : r s with ⟨halt | a, s₁⟩
    · rw [h] at hfirst
      rw [andThen_of_error h]
      exact hfirst
    · rw [h] at hfirst
      rw [andThen_of_ok h]
      exact trans hfirst (hf a ⟨s, s₁, h⟩ s₁)
  attempt {α r} hr s := by
    rw [attempt_eq]
    exact hr s

end Run

namespace Script

variable {P : (α : Type) → Run α → Prop} {α : Type}
  {answer : String → Record Json → Run (Record Json)}

/-- What the callbacks of a script have, the script has, if random numbers do not disturb it. -/
theorem perform_closed (hP : Run.Closed P) (hrandom : P Float Run.random)
    (hanswer : ∀ callback args, P _ (answer callback args)) (script : Script α) :
    P α (script.perform answer) := by
  induction script with
  | done a => exact hP.result a
  | fail error => exact hP.halt (.failed error)
  | crash => exact hP.halt .crashed
  | call callback args resume ih =>
    exact hP.andThen (hP.attempt (hanswer callback args)) fun reply _ => ih reply
  | remark level text next ih => exact hP.andThen (hP.note _) fun _ _ => ih
  | random resume ih => exact hP.andThen hrandom fun x _ => ih x

/-- A script that draws no random numbers has it in any case. -/
theorem Deterministic.perform_closed (hP : Run.Closed P)
    (hanswer : ∀ callback args, P _ (answer callback args)) {script : Script α}
    (hs : script.Deterministic) : P α (script.perform answer) := by
  induction hs with
  | done a => exact hP.result a
  | fail error => exact hP.halt (.failed error)
  | crash => exact hP.halt .crashed
  | call callback args resume _ ih =>
    exact hP.andThen (hP.attempt (hanswer callback args)) fun reply _ => ih reply
  | remark level text next _ ih => exact hP.andThen (hP.note _) fun _ _ => ih

end Script

/-! ### Turns and moves -/

namespace Host

/-- A node whose frame comes first in the queue and that is about to fire. -/
structure Turn (host : Host) (p : Program) (frames : FrameQueue) where
  id : String
  frame : Frame
  /-- The queue without the frame. -/
  rest : FrameQueue
  node : Node
  entry : Entry
  extraction : Extraction
  popped : frames.pop? = some ((id, frame), rest)
  node_eq : p.node? id = some node
  entry_eq : host.catalog.get? node.function = some entry
  ready : node.isReady entry.signature frame = true
  extracted : Callback.extract p id entry.signature rest = .ok extraction

variable {host : Host} {p : Program} {frames frames' : FrameQueue}

/-- The arguments of the call. -/
def Turn.args (turn : host.Turn p frames) : Record Json :=
  turn.node.arguments turn.entry.signature turn.frame

/-- The queue after the turn: the bodies of callbacks are gone, and the results are delivered. -/
def Turn.after (turn : host.Turn p frames) (results : Outputs) : FrameQueue :=
  (turn.extraction.consumed.foldl FrameQueue.remove turn.rest).receiveAll
    (Delivery.ofFiring turn.entry.signature results turn.node.next)

/-- What one step makes of the queue. -/
inductive Moves (host : Host) (p : Program) (frames : FrameQueue) : FrameQueue → Prop where
  /-- The frame of an unknown node is dropped. -/
  | dropped {id : String} {frame : Frame} {rest : FrameQueue} :
    frames.pop? = some ((id, frame), rest) → p.node? id = none → Moves host p frames rest
  /-- The frame of a node that is not ready goes to the end of the line. -/
  | deferred {id : String} {frame : Frame} {rest : FrameQueue} {node : Node} {entry : Entry} :
    frames.pop? = some ((id, frame), rest) → p.node? id = some node →
    host.catalog.get? node.function = some entry → node.isReady entry.signature frame = false →
    Moves host p frames (rest.defer id frame)
  /-- A node has fired. -/
  | fired (turn : host.Turn p frames) (results : Outputs) : Moves host p frames (turn.after results)

/-- The queue that a step goes on with comes from a move. -/
theorem Processed.moves {nested : Executor} {caller id : String} {frame : Frame}
    {rest : FrameQueue} {outputs outputs' : Record Json} {s s' : Session} {firing : Option Firing}
    (h : host.Processed nested caller p id frame rest outputs s firing
      (.ok (.next frames' outputs'), s')) (hpop : frames.pop? = some ((id, frame), rest)) :
    host.Moves p frames frames' := by
  generalize hresult : (Except.ok (Progress.next frames' outputs'), s') = result at h
  cases h with
  | unknown | unwired | failed => cases hresult
  | dropped hnode _ =>
    cases hresult
    exact .dropped hpop hnode
  | deferred hnode hentry hready _ =>
    cases hresult
    exact .deferred hpop hnode hentry hready
  | @fired node entry extraction results _ _ _ hnode hentry hready hextract _ _ _ =>
    split at hresult
    · cases hresult
    · cases hresult
      exact .fired ⟨id, frame, rest, node, entry, extraction, hpop, hnode, hentry, hready, hextract⟩
        results

private theorem moves_of_gives {nested : Executor} {caller id : String} {frame : Frame}
    {rest : FrameQueue}
    {outputs outputs' : Record Json} (hpop : frames.pop? = some ((id, frame), rest))
    (h : (host.process nested caller p id frame rest outputs).Gives (.next frames' outputs')) :
    host.Moves p frames frames' := by
  obtain ⟨s, s', h⟩ := h
  have hprocessed : host.Processed nested caller p id frame rest outputs s _ _ :=
    process_processed
  rw [h] at hprocessed
  exact hprocessed.moves hpop

/-! ### Habits -/

/-- What single acts have to meet for executions in the scope to have the property `P`. -/
structure Habit (host : Host) (P : (α : Type) → Run α → Prop)
    (Scope : String → Program → FrameQueue → Prop) : Prop extends Run.Closed P where
  /-- Library functions have it if their callbacks do. -/
  native {caller : String} {p : Program} {frames : FrameQueue} {signature : Signature}
    {runner : Runner} (turn : host.Turn p frames) : Scope caller p frames →
    turn.entry = .native signature runner →
    ∀ args callbacks answer, (∀ callback args, P (Record Json) (answer callback args)) →
      P Outputs ((runner args callbacks).perform answer)
  /-- A firing that is told and its call through the cache have it, if the call itself does. -/
  call {caller : String} {p : Program} {frames : FrameQueue} (turn : host.Turn p frames)
    (depth : Nat) : Scope caller p frames →
    P Outputs (invoke (host.execute depth) turn.node.function turn.entry turn.args
      turn.extraction.closures caller) →
    P Outputs ((Run.emit host.observer (.nodeFired caller turn.id turn.node.function)).andThen
      fun _ => host.invokeCached (host.execute depth) turn.node.function turn.entry turn.args
        turn.extraction.closures caller)
  stopped (id key : String) : P Unit (Run.emit host.observer (.branchStopped id key))
  exhausted {caller : String} {p : Program} {frames rest : FrameQueue} {id : String}
    {frame : Frame} : Scope caller p frames → frames.pop? = some ((id, frame), rest) →
    P Unit (Run.emit host.observer (.budgetExhausted caller (id :: rest.pending)))
  /-- The scope is kept by every move, -/
  move {caller : String} {p : Program} {frames frames' : FrameQueue} : Scope caller p frames →
    host.Moves p frames frames' → Scope caller p frames'
  /-- by every call of a callback -/
  callback {caller : String} {p : Program} {frames : FrameQueue} (turn : host.Turn p frames)
    {name : String} {closure : Closure} {args : Record Json} {start : FrameQueue} :
    Scope caller p frames → turn.extraction.closures.get? name = some closure →
    closure.frames args = .ok start → Scope caller closure.program start
  /-- and by every call of a program. -/
  program {caller : String} {p q : Program} {frames : FrameQueue} (turn : host.Turn p frames)
    {signature : Signature} {start : FrameQueue} : Scope caller p frames →
    turn.entry = .program signature q → q.firstFrames turn.args = .ok start →
    Scope turn.node.function q start

namespace Habit

/-- A call through the cache has what the call itself and the acts on the way have. -/
theorem invokeCached_of_acts {P : (α : Type) → Run α → Prop} (hP : Run.Closed P)
    (hit : ∀ key, P Unit (Run.emit host.observer (.cacheHit key))) (cache? : P _ Run.cache?)
    (fetch : ∀ key, P _ (Host.fetch key))
    (remember : ∀ key outputs, P Unit (Host.remember key outputs)) {nested : Executor}
    {function caller : String} {entry : Entry} {args : Record Json} {closures : Record Closure}
    (hinvoke : P _ (Host.invoke nested function entry args closures caller)) :
    P _ (host.invokeCached nested function entry args closures caller) := by
  unfold invokeCached
  simp only [Run.bind_eq, Run.pure_eq]
  refine hP.andThen cache? fun cache _ => ?_
  split
  · exact hinvoke
  · refine hP.andThen (fetch _) fun found _ => ?_
    split
    · exact hP.andThen (hP.note _) fun _ _ => hP.andThen (hit _) fun _ _ => hP.result _
    · refine hP.andThen hinvoke fun outputs _ => ?_
      exact hP.andThen (remember _ outputs) fun _ _ => hP.result _

/-- What holds of every act, whatever is executed, is a habit. -/
theorem of_acts {P : (α : Type) → Run α → Prop} (hP : Run.Closed P)
    (native : ∀ {name signature runner}, host.catalog.get? name = some (.native signature runner) →
      ∀ args callbacks answer, (∀ callback args, P (Record Json) (answer callback args)) →
        P Outputs ((runner args callbacks).perform answer))
    (emit : ∀ e, P Unit (Run.emit host.observer e)) (cache? : P _ Run.cache?)
    (fetch : ∀ key, P _ (Host.fetch key))
    (remember : ∀ key outputs, P Unit (Host.remember key outputs)) :
    host.Habit P fun _ _ _ => True where
  toClosed := hP
  native turn _ hentry := native (hentry ▸ turn.entry_eq)
  call _ _ _ hinvoke := hP.andThen (emit _) fun _ _ =>
    invokeCached_of_acts hP (fun _ => emit _) cache? fetch remember hinvoke
  stopped _ _ := emit _
  exhausted _ _ := emit _
  move _ _ := trivial
  callback _ _ _ _ _ _ _ _ := trivial
  program _ _ _ _ _ _ := trivial

variable {P : (α : Type) → Run α → Prop} {Scope : String → Program → FrameQueue → Prop}
  {depth : Nat} {caller : String}

theorem deliver (h : host.Habit P Scope) (id : String) (signature : Signature) (results : Outputs)
    (edges : List Edge) (frames : FrameQueue) :
    P _ (host.deliver id signature results edges frames) := by
  have hforward : ∀ edge frames, P _ (host.forward id edge results frames) := by
    intro edge frames
    unfold forward
    cases results.get? edge.fromKey with
    | none => exact h.andThen (h.note _) fun _ _ => h.result _
    | some flow =>
      cases flow with
      | value value => exact h.result _
      | stop =>
        refine h.andThen (h.note _) fun _ _ => ?_
        exact h.andThen (h.stopped id edge.fromKey) fun _ _ => h.result _
  induction edges generalizing frames with
  | nil => exact h.result _
  | cons edge rest ih =>
    unfold Host.deliver
    split
    · exact h.andThen (hforward edge frames) fun frames _ => ih frames
    · split
      · exact h.andThen (h.note _) fun _ _ => ih frames
      · exact ih frames

section Steps

variable (h : host.Habit P Scope)
  (hn : ∀ caller p frames, Scope caller p frames → P _ (host.execute depth caller p frames))
  (hscope : Scope caller p frames)
include h hn hscope

theorem invoke (turn : host.Turn p frames) :
    P _ (Host.invoke (host.execute depth) turn.node.function turn.entry turn.args
      turn.extraction.closures caller) := by
  unfold Host.invoke
  split
  · rename_i signature runner hentry
    refine h.native turn hscope hentry _ _ _ fun name args => ?_
    unfold callClosure
    split
    · exact h.halt _
    · rename_i closure hclosure
      refine h.andThen (h.ofExcept _) fun start hstart => hn caller _ start ?_
      exact h.callback turn hscope hclosure (Run.gives_ofExcept hstart)
  · rename_i signature q hentry
    refine h.andThen (h.andThen (h.ofExcept _) fun start hstart => ?_) fun _ _ => h.result _
    exact hn _ q start (h.program turn hscope hentry (Run.gives_ofExcept hstart))

theorem process {id : String} {frame : Frame} {rest : FrameQueue}
    (hpop : frames.pop? = some ((id, frame), rest)) (outputs : Record Json) :
    P _ (host.process (host.execute depth) caller p id frame rest outputs) := by
  unfold Host.process
  cases hnode : p.node? id with
  | none => exact h.andThen (h.note _) fun _ _ => h.result _
  | some node =>
    simp only
    cases hentry : host.catalog.get? node.function with
    | none => exact h.halt _
    | some entry =>
      simp only
      split
      · rename_i hready
        have hfire : P _ (host.fire (host.execute depth) caller p id node entry frame rest) := by
          unfold fire
          simp only [Run.bind_eq, Run.pure_eq]
          refine h.andThen (h.ofExcept _) fun extraction hextraction => ?_
          let turn : host.Turn p frames := ⟨id, frame, rest, node, entry, extraction, hpop, hnode,
            hentry, hready, Run.gives_ofExcept hextraction⟩
          refine h.andThen (h.note _) fun _ _ => ?_
          rw [← Run.andThen_assoc]
          refine h.andThen (h.call turn depth hscope (h.invoke hn hscope turn)) fun results _ => ?_
          exact h.andThen (h.deliver id _ results _ _) fun _ _ => h.result _
        refine h.andThen hfire fun fired _ => ?_
        split <;> exact h.result _
      · exact h.andThen (h.note _) fun _ _ => h.result _

theorem drain (steps : Nat) (outputs : Record Json) :
    P _ (host.drain (host.execute depth) caller p steps frames outputs) := by
  -- The scope is carried along: each step ends with a move of the queue.
  induction steps generalizing frames outputs with
  | zero =>
    unfold Host.drain
    split
    · exact h.result _
    · rename_i hpop
      refine h.andThen ?_ fun _ _ => h.result _
      unfold exhaust
      exact h.andThen (h.note _) fun _ _ => h.exhausted hscope hpop
  | succ steps ih =>
    unfold Host.drain
    split
    · exact h.result _
    · rename_i id frame rest hpop
      refine h.andThen (h.process hn hscope hpop outputs) fun progress hprogress => ?_
      cases progress with
      | complete outputs => exact h.result _
      | next frames' outputs' => exact ih (h.move hscope (moves_of_gives hpop hprogress)) outputs'

end Steps

/-- **Every execution in the scope has the habit**, however deeply calls are followed. -/
theorem execute (h : host.Habit P Scope) (depth : Nat) (caller : String) (p : Program)
    (frames : FrameQueue) (hscope : Scope caller p frames) :
    P _ (host.execute depth caller p frames) := by
  induction depth generalizing caller p frames with
  | zero => exact h.halt .outOfDepth
  | succ depth ih => exact h.drain ih hscope (p.steps host.slack) .empty

/-- So does every run, if its first frames are in the scope. -/
theorem runProgram (h : host.Habit P Scope) (depth : Nat) (caller : String) (p : Program)
    (inputs : Record Json)
    (hscope : ∀ start, p.firstFrames inputs = .ok start → Scope caller p start) :
    P _ (Host.runProgram (host.execute depth) p inputs caller) := by
  refine h.andThen (h.ofExcept _) fun start hstart => ?_
  exact h.execute depth caller p start (hscope start (Run.gives_ofExcept hstart))

end Habit

end Host

/-- A top-level run has what the run of its program and the events around it have. -/
theorem Environment.session_closed {P : (α : Type) → Run α → Prop} (hP : Run.Closed P)
    (env : Environment) {depth : Nat} {p : Program} {inputs : Record Json}
    (hrun : P _ (Host.runProgram (env.host.execute depth) p inputs mainCaller))
    (started : P Unit (Run.emit env.observer .runStarted))
    (completed : ∀ names, P Unit (Run.emit env.observer (.runCompleted names)))
    (failed : ∀ text, P Unit (Run.emit env.observer (.runFailed text))) (run : String) :
    P _ (env.session depth run p inputs) := by
  unfold session
  simp only [Run.bind_eq, Run.pure_eq]
  refine hP.andThen (hP.note _) fun _ _ => hP.andThen started fun _ _ => ?_
  refine hP.andThen (hP.attempt hrun) fun answer _ => ?_
  cases answer with
  | ok outputs =>
    refine hP.andThen (hP.note _) fun _ _ => hP.andThen (completed _) fun _ _ => ?_
    exact hP.result outputs
  | error error =>
    refine hP.andThen (hP.note _) fun _ _ => hP.andThen (failed _) fun _ _ => ?_
    exact hP.halt (.failed error)

end Dataflow
