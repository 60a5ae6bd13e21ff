/-
The trace of a run tells the truth.

Events name a caller, and a caller's name stands for a program: `main` for the one that is run, any
other name for a program of the catalog. A callback runs in the name of its caller although what is
run is a program of its own, cut out of the one around it, and its bodies may be cut again. What is
executed is therefore always a part of the caller's program: its nodes are nodes of that program,
with the same functions and with no edges but theirs. So what is told of a node is true of the
program that the caller stands for. If that program is valid, moreover, all its edges lead to nodes,
and no frame ever waits for anything else.

* `Program.PartOf` — a part of a program, and what is cut out of a part is one;
* `Program.Covers` — only nodes of the program wait, and moves and callbacks keep it so;
* `Event.Truthful` — what the events of a run say about programs;
* `Environment.events_truthful` — all events of a run are truthful.
-/
import Mathlib
import Dataflow.Proofs.Enclosure
import Dataflow.Proofs.Flaw
import Dataflow.Proofs.Habit
import Dataflow.Proofs.Slack
namespace Dataflow

/-! ### Parts of programs -/

namespace Program

variable {host : Host} {c : Catalog} {p q : Program} {frames frames' : FrameQueue} {id : String}

/-- The nodes of `p` are nodes of `q`, with their functions and some of their edges. -/
def PartOf (p q : Program) : Prop :=
  ∀ id node, p.node? id = some node →
    ∃ whole, q.node? id = some whole ∧ whole.function = node.function ∧ node.next ⊆ whole.next

theorem PartOf.refl (p : Program) : p.PartOf p :=
  fun _ node hnode => ⟨node, hnode, rfl, fun _ hedge => hedge⟩

/-- What is cut out of a part for a callback is a part. -/
theorem PartOf.closure (h : p.PartOf q) {site name : String} {signature : Signature}
    {extraction : Extraction} {closure : Closure}
    (hextract : Callback.extract p site signature frames = .ok extraction)
    (hclosure : extraction.closures.get? name = some closure) : closure.program.PartOf q := by
  intro id inner hinner
  obtain ⟨-, -, hnodes, -⟩ := Callback.closure_of_extract hextract hclosure
  rw [node?, hnodes] at hinner
  obtain ⟨-, node, hnode, rfl⟩ := Callback.node?_bodyNodes.1 hinner
  obtain ⟨whole, hwhole, hfunction, hnext⟩ := h id node hnode
  -- A body has lost the edges to its call site, and nothing else.
  exact ⟨whole, hwhole, hfunction, fun edge hedge => hnext (List.mem_filter.1 hedge).1⟩

/-! ### What waits in an execution -/

/-- Frames wait for nodes of the program only. -/
def Covers (q : Program) (frames : FrameQueue) : Prop :=
  ∀ id frame, frames.get? id = some frame → ∃ node, q.node? id = some node

/-- The edges of a valid program lead to nodes. -/
theorem Valid.exists_target (h : q.Valid c) {node : Node} (hnode : q.node? id = some node)
    {edge : Edge} (hedge : edge ∈ node.next) : ∃ target, q.node? edge.target = some target := by
  obtain ⟨entry, hcalls⟩ := h.functions hnode
  obtain ⟨-, target, called, htarget, -⟩ := h.edges hcalls edge hedge
  exact ⟨target, htarget.node_eq⟩

private theorem Covers.of_subset (h : q.Covers frames)
    (hsub : ∀ id frame, frames'.get? id = some frame → frames.contains id = true) :
    q.Covers frames' := by
  intro id frame hframe
  obtain ⟨held, hheld⟩ := Record.contains_eq_true.1 (hsub id frame hframe)
  exact h id held hheld

theorem Covers.receiveAll (h : q.Covers frames) {ds : List Delivery}
    (hds : ∀ d ∈ ds, ∃ node, q.node? d.id = some node) : q.Covers (frames.receiveAll ds) := by
  induction ds generalizing frames with
  | nil => exact h
  | cons d rest ih =>
    have hreceived : q.Covers (frames.receive d) := by
      intro id frame hframe
      rw [FrameQueue.receive, FrameQueue.get?_add] at hframe
      split at hframe
      · rename_i hid
        exact hid ▸ hds d (List.mem_cons_self ..)
      · exact h id frame hframe
    exact ih hreceived fun e he => hds e (List.mem_cons_of_mem _ he)

theorem Covers.pop (h : q.Covers frames) {other : String} {frame : Frame}
    (hpop : frames.pop? = some ((other, frame), frames')) : q.Covers frames' := by
  refine h.of_subset fun id held hheld => ?_
  rw [(FrameQueue.get?_of_pop? hpop).2] at hheld
  split at hheld
  · simp at hheld
  · exact Record.contains_eq_true.2 ⟨held, hheld⟩

/-- The first frames of a valid program wait for its nodes. -/
theorem Valid.covers_firstFrames (h : q.Valid c) {inputs : Record Json}
    (hframes : q.firstFrames inputs = .ok frames) : q.Covers frames := by
  have hdelivered : q.Covers
      (FrameQueue.empty.receiveAll (Delivery.ofBindings inputs q.input)) := by
    refine Covers.receiveAll (fun id frame hframe => by simp at hframe) fun d hd => ?_
    obtain ⟨b, hb, hvalue⟩ := List.mem_filterMap.1 hd
    obtain ⟨value, -, rfl⟩ := Option.map_eq_some_iff.1 hvalue
    obtain ⟨node, entry, hcalls, -⟩ := h.inputs b hb
    exact ⟨node, hcalls.node_eq⟩
  rw [(firstFrames_eq_ok hframes).2]
  intro id frame hframe
  rw [FrameQueue.get?_ensureAll] at hframe
  split at hframe
  · -- Only heads get a frame without a delivery, and heads are nodes.
    rename_i hhead
    exact Table.mem_names.1 (List.mem_filter.1 hhead).1
  · exact hdelivered id frame hframe

/-- A move of a part of a valid program brings no frame for anything but a node. -/
theorem Covers.move (h : q.Covers frames) (hq : q.Valid c) (hp : p.PartOf q)
    (hmove : host.Moves p frames frames') : q.Covers frames' := by
  cases hmove with
  | dropped hpop _ => exact h.pop hpop
  | deferred hpop hnode _ _ =>
    intro other frame hframe
    rw [FrameQueue.get?_defer] at hframe
    split at hframe
    · rename_i hother
      obtain ⟨whole, hwhole, -⟩ := hp _ _ hnode
      exact ⟨whole, hother ▸ hwhole⟩
    · exact h.pop hpop other frame hframe
  | fired turn results =>
    refine Covers.receiveAll ?_ fun d hd => ?_
    · refine (h.pop turn.popped).of_subset fun id frame hframe => ?_
      rw [FrameQueue.get?_foldl_remove] at hframe
      split at hframe
      · simp at hframe
      · exact Record.contains_eq_true.2 ⟨frame, hframe⟩
    · obtain ⟨edge, hedge, hvalue⟩ := List.mem_filterMap.1 hd
      obtain ⟨value, -, rfl⟩ := Option.map_eq_some_iff.1 hvalue
      obtain ⟨whole, hwhole, -, hnext⟩ := hp _ _ turn.node_eq
      exact hq.exists_target hwhole (hnext hedge)

/-- The frames of a callback wait for nodes of the program around it. One of its inputs may even
lead back to the call site, which is no node of the body. -/
theorem Covers.callback (h : q.Covers frames) (hq : q.Valid c) (hp : p.PartOf q)
    (turn : host.Turn p frames) {name : String} {closure : Closure} {args : Record Json}
    {start : FrameQueue} (hclosure : turn.extraction.closures.get? name = some closure)
    (hstart : closure.frames args = .ok start) : q.Covers start := by
  obtain ⟨callback, -, -, hseed, hinput, -⟩ := Callback.closure_of_extract turn.extracted hclosure
  rw [(Closure.frames_eq_ok hstart).2]
  refine Covers.receiveAll ?_ fun d hd => ?_
  · rw [hseed]
    refine (h.pop turn.popped).of_subset fun id frame hframe => ?_
    rw [FrameQueue.get?_restrict] at hframe
    split at hframe
    · exact Record.contains_eq_true.2 ⟨frame, hframe⟩
    · simp at hframe
  · obtain ⟨b, hb, hvalue⟩ := List.mem_filterMap.1 hd
    obtain ⟨value, -, rfl⟩ := Option.map_eq_some_iff.1 hvalue
    obtain ⟨edge, hedge, haddress⟩ := Callback.feeding_of_wireInputs hinput hb
    obtain ⟨node, hnode, hnext⟩ := Callback.mem_edgesOf.1 (List.mem_filter.1 hedge).1
    obtain ⟨whole, hwhole, -, hwholeNext⟩ := hp _ node hnode
    simp only [haddress]
    exact hq.exists_target hwhole (hwholeNext hnext)

end Program

/-! ### What events say -/

/-- The program that a caller's name stands for while `top` is run. -/
def Environment.StandsFor (env : Environment) (top : Program) (caller : String) (q : Program) :
    Prop :=
  if caller = mainCaller then q = top
  else ∃ signature, env.catalog.get? caller = some (.program signature q)

/-- A firing is that of a node of the caller's program, and calls the function of that node. The
nodes for which frames were waiting when steps ran out are nodes of the caller's program, if it is
valid. -/
def Event.Truthful (env : Environment) (top : Program) : Event → Prop
  | .nodeFired caller id function =>
    ∃ q node, env.StandsFor top caller q ∧ q.node? id = some node ∧ node.function = function
  | .budgetExhausted caller pending =>
    ∃ q, env.StandsFor top caller q ∧
      (env.validate q = [] → ∀ id ∈ pending, ∃ node, q.node? id = some node)
  | _ => True

/-- All that was told in between is truthful. -/
def Session.TellsTruth (env : Environment) (top : Program) (s s' : Session) : Prop :=
  ∀ e ∈ s'.events, e ∈ s.events ∨ e.Truthful env top

namespace Session.TellsTruth

variable {env : Environment} {top : Program}

theorem closed : Run.Closed fun _ r => ∀ s : Session, s.TellsTruth env top (r s).2 := by
  refine .of_trans (fun _ _ h => .inl h) ?_ fun _ _ _ h => .inl h
  intro s s' s'' h h' e he
  rcases h' e he with hbefore | htrue
  · exact h e hbefore
  · exact .inr htrue

theorem emit {e : Event} (he : e.Truthful env top) (observer : Observer) (s : Session) :
    s.TellsTruth env top (Run.emit observer e s).2 := by
  intro other hother
  rw [Run.emit_events, Array.mem_push] at hother
  rcases hother with hbefore | rfl
  · exact .inl hbefore
  · exact .inr he

end Session.TellsTruth

namespace Environment

variable {env : Environment} {top : Program}

/-- What is executed is a part of the caller's program, and if that is valid, only its nodes
wait. -/
def InName (env : Environment) (top : Program) (caller : String) (p : Program)
    (frames : FrameQueue) : Prop :=
  ∃ q, env.StandsFor top caller q ∧ p.PartOf q ∧ (env.validate q = [] → q.Covers frames)

/-- A program that is started from its inputs runs in the name that stands for it. -/
theorem StandsFor.inName {caller : String} {q : Program} {inputs : Record Json}
    {start : FrameQueue} (h : env.StandsFor top caller q)
    (hstart : q.firstFrames inputs = .ok start) : env.InName top caller q start :=
  ⟨q, h, .refl q, fun hvalid => (Program.valid_of_validate hvalid).covers_firstFrames hstart⟩

/-- Telling the truth is a habit of executions, if no program of the catalog is called like the
program that is run. -/
theorem habit_tellsTruth
    (hmain : ∀ signature q, env.catalog.get? mainCaller ≠ some (.program signature q)) :
    env.host.Habit (fun _ r => ∀ s : Session, s.TellsTruth env top (r s).2) (env.InName top) where
  toClosed := Session.TellsTruth.closed
  native _ _ _ args callbacks answer hanswer := by
    refine Script.perform_closed Session.TellsTruth.closed (fun s e he => ?_) hanswer _
    obtain ⟨x, source, hrandom⟩ := Run.random_eq s
    rw [hrandom] at he
    exact .inl he
  call {caller p frames} turn depth hname hinvoke := by
    obtain ⟨q, hq, hpart, -⟩ := hname
    obtain ⟨whole, hwhole, hfunction, -⟩ := hpart _ _ turn.node_eq
    have hfired : Event.Truthful env top (.nodeFired caller turn.id turn.node.function) :=
      ⟨q, whole, hq, hwhole, hfunction⟩
    refine Session.TellsTruth.closed.andThen (Session.TellsTruth.emit hfired _) fun _ _ => ?_
    refine Host.Habit.invokeCached_of_acts Session.TellsTruth.closed ?_ ?_ ?_ ?_ hinvoke
    · exact fun key => Session.TellsTruth.emit (by trivial) _
    · exact fun s e he => .inl he
    · exact fun key s e he => .inl (Host.fetch_events key s ▸ he)
    · exact fun key outputs s e he => .inl (Host.remember_events key outputs s ▸ he)
  stopped _ _ := Session.TellsTruth.emit (by trivial) _
  exhausted {caller p frames rest id frame} hname hpop := by
    obtain ⟨q, hq, -, hcovers⟩ := hname
    have hwaiting : Event.Truthful env top (.budgetExhausted caller (id :: rest.pending)) := by
      refine ⟨q, hq, fun hvalid other hother => ?_⟩
      rcases List.mem_cons.1 hother with rfl | hother
      · exact hcovers hvalid _ frame (FrameQueue.get?_of_pop? hpop).1
      · obtain ⟨held, hheld⟩ := Record.contains_eq_true.1 (List.mem_filter.1 hother).2
        exact (hcovers hvalid).pop hpop other held hheld
    exact Session.TellsTruth.emit hwaiting _
  move hname hmove := by
    obtain ⟨q, hq, hpart, hcovers⟩ := hname
    exact ⟨q, hq, hpart, fun hvalid =>
      (hcovers hvalid).move (Program.valid_of_validate hvalid) hpart hmove⟩
  callback turn _ _ _ _ hname hclosure hstart := by
    obtain ⟨q, hq, hpart, hcovers⟩ := hname
    exact ⟨q, hq, hpart.closure turn.extracted hclosure, fun hvalid =>
      (hcovers hvalid).callback (Program.valid_of_validate hvalid) hpart turn hclosure hstart⟩
  program turn signature start _ hentry hstart := by
    have hprogram := hentry ▸ turn.entry_eq
    -- The called program runs in the name of the function, which is not `main`.
    refine StandsFor.inName ?_ hstart
    rw [StandsFor, if_neg fun heq => hmain _ _ (heq ▸ hprogram)]
    exact ⟨_, hprogram⟩

/-- **The trace of a run tells the truth.** When no program of the catalog is called `main`, every
firing that a run tells, at whatever depth of calls and callbacks, is that of a node of the program
that its caller stands for, with the function of that node; and when steps run out in the name of a
valid program, only its nodes were waiting. -/
theorem events_truthful
    (hmain : ∀ signature q, env.catalog.get? mainCaller ≠ some (.program signature q))
    (depth : Nat) (run : String) (random : RandomSource) (top : Program) (inputs : Record Json) :
    ∀ e ∈ (env.runWithin depth run random top inputs).events, e.Truthful env top := by
  have hstands : env.StandsFor top mainCaller top := by simp [StandsFor]
  have hrun := (habit_tellsTruth hmain).runProgram depth mainCaller top inputs
    fun start hstart => hstands.inName hstart
  have hsession := env.session_closed Session.TellsTruth.closed hrun
    (Session.TellsTruth.emit (by trivial) _) (fun _ => Session.TellsTruth.emit (by trivial) _)
    (fun _ => Session.TellsTruth.emit (by trivial) _) run
  intro e he
  have htold := hsession ⟨env.cache.map MemoCache.clear, #[], #[], random⟩ e he
  simpa using htold

/-- The words for flags, and two nodes that wait for each other in vain. -/
def deadlocked : Program where
  input := [⟨"flags", ⟨"map", "arr"⟩, .arrayOf .bool⟩, ⟨"flag", ⟨"left", "condition"⟩, .bool⟩]
  output := [⟨"words", ⟨"map", "arr"⟩, .arrayOf .string⟩, ⟨"left", ⟨"left", "data"⟩, .string⟩]
  nodes := .ofList [
    ("map", ⟨"array.map", [⟨"body", "item", "flag"⟩], .empty⟩),
    ("body", ⟨"word", [⟨"map", "word", "callback"⟩], .empty⟩),
    ("left", ⟨"ctrl.if", [⟨"right", "data", "true"⟩], .ofList [("false", .string "no")]⟩),
    ("right", ⟨"ctrl.if", [⟨"left", "data", "true"⟩],
      .ofList [("condition", .bool true), ("false", .string "no")]⟩)]

/-- A program is called from within a callback, and at the end the steps run out. -/
theorem events_truthful_deadlocked :
    let env := withWord none
    let report := env.runWithin 4 "" default deadlocked
      (.ofList [("flags", .array [.bool true]), ("flag", .bool true)])
    env.validate deadlocked = [] ∧ .nodeFired "word" "pick" "ctrl.if" ∈ report.events ∧
      .budgetExhausted mainCaller ["left"] ∈ report.events ∧
      ∀ e ∈ report.events, e.Truthful env deadlocked := by
  intro env report
  have hmain : env.catalog.get? mainCaller = none := by decide +kernel
  refine ⟨by decide +kernel, by decide +kernel, by decide +kernel, ?_⟩
  exact events_truthful (fun signature q hentry => nomatch hmain.symm.trans hentry) 4 "" default
    deadlocked _

end Environment

end Dataflow
