/-
Nodes that lack an input never fire.

Validation calls a node incomplete when one of its declared inputs has no default, no binding and no
edge. Nothing is ever delivered to such an input: the deliveries of a start follow the bindings, and
those of a firing follow the edges of its node. A body that is cut out for a callback has the nodes,
the edges and the waiting frames of the program around it, and its bindings stand for edges of that
program; so the input is lacking there too, however deeply callbacks are nested.

* `Program.Lacks` — nothing leads to an input of a node;
* `Program.Visits` — the queues that come up in executions of a program and of its bodies;
* `Program.Visits.starved` — a lacking input stays empty in all of them;
* `Environment.not_fired_of_missingInputs` — no diagnostic of this kind is a false alarm.
-/
import Mathlib
import Dataflow.Proofs.Enclosure
import Dataflow.Proofs.Flaw
import Dataflow.Proofs.Habit
import Dataflow.Proofs.Slack
namespace Dataflow

/-! ### Lacking inputs -/

/-- The node, if there is one, declares an input to which nothing leads: it has no default, and no
binding and no edge of the program ends there. -/
structure Program.Lacks (p : Program) (c : Catalog) (id key : String) : Prop where
  declared : ∀ {node entry}, p.Calls c id node entry →
    key ∈ entry.signature.inputNames ∧ node.defaults.contains key = false
  bindings : ∀ b ∈ p.input, ¬ (b.address.id = id ∧ b.address.key = key)
  edges : ∀ {other node}, p.node? other = some node →
    ∀ edge ∈ node.next, ¬ (edge.target = id ∧ edge.toKey = key)

/-- **An incomplete node lacks an input.** -/
theorem Validation.lacks_of_missingInputs {p : Program} {c : Catalog} {id function : String}
    {keys : List String} (h : ⟨.missingInputs function keys, ["data", id]⟩ ∈ p.validate c) :
    ∃ key, p.Lacks c id key := by
  obtain ⟨place, field, hflaw, hpath⟩ := Program.exists_flaw h
  obtain rfl : Place.node id = place := Place.path_injective hpath
  cases hflaw with
  | @node _ node entry lacking hcalls hlacking hmissing =>
    obtain ⟨key, hkey⟩ := List.exists_mem_of_ne_nil _ hmissing
    obtain ⟨hdeclared, hlacks⟩ := List.mem_filter.1 hkey
    have hsupplied : ¬ p.Supplied id key := (hlacking key).1 hlacks
    refine ⟨key, fun {node' entry'} hcalls' => ?_, fun b hb ⟨hid, hkey⟩ => ?_,
      fun {source sender} hsender edge hedge hat => ?_⟩
    · obtain ⟨rfl, rfl⟩ := hcalls.unique hcalls'
      refine ⟨hdeclared, Bool.not_eq_true _ ▸ fun hdefault => hsupplied ?_⟩
      exact (Program.supplied_iff hcalls.node_eq).2 (.inl hdefault)
    · exact hsupplied (.inl ⟨b, hb, by rw [← hid, ← hkey]⟩)
    · exact hsupplied (.inr (.inl ⟨source, sender, hsender, edge, hedge, hat⟩))

/-! ### What is delivered -/

namespace FrameQueue

variable {q rest : FrameQueue} {id key : String}

/-- Deliveries elsewhere do not change what waits for a key. -/
theorem gathered_receiveAll_of_apart {ds : List Delivery}
    (h : ∀ d ∈ ds, ¬ (d.id = id ∧ d.key = key)) :
    (q.receiveAll ds).gathered id key = q.gathered id key := by
  have hnone : (ds.filter fun d => d.id = id ∧ d.key = key) = [] :=
    List.filter_eq_nil_iff.2 fun d hd => by simpa using h d hd
  rw [gathered_receiveAll, hnone]
  rfl

/-- Where nothing waits, nothing waits after a frame was taken. -/
theorem gathered_pop_eq_none {other : String} {frame : Frame}
    (hpop : q.pop? = some ((other, frame), rest)) (hnone : q.gathered id key = none) :
    rest.gathered id key = none := by
  rw [gathered, (get?_of_pop? hpop).2]
  split
  · rfl
  · exact hnone

/-- The frame that is taken holds what waited. -/
theorem get?_pop {frame : Frame} (hpop : q.pop? = some ((id, frame), rest)) :
    frame.get? key = q.gathered id key := by
  rw [gathered, (get?_of_pop? hpop).1]
  rfl

end FrameQueue

namespace Program.Lacks

variable {host : Host} {p : Program} {c : Catalog} {id key : String} {frames frames' : FrameQueue}

/-- Values for the bindings of a program go elsewhere. -/
theorem apart_ofBindings (h : p.Lacks c id key) (values : Record Json) :
    ∀ d ∈ Delivery.ofBindings values p.input, ¬ (d.id = id ∧ d.key = key) := by
  intro d hd
  obtain ⟨b, hb, hvalue⟩ := List.mem_filterMap.1 hd
  obtain ⟨value, -, rfl⟩ := Option.map_eq_some_iff.1 hvalue
  exact h.bindings b hb

/-- The results of a node go elsewhere. -/
theorem apart_ofFiring (h : p.Lacks c id key) {other : String} {node : Node}
    (hnode : p.node? other = some node) (signature : Signature) (results : Outputs) :
    ∀ d ∈ Delivery.ofFiring signature results node.next, ¬ (d.id = id ∧ d.key = key) := by
  intro d hd
  obtain ⟨edge, hedge, hvalue⟩ := List.mem_filterMap.1 hd
  obtain ⟨value, -, rfl⟩ := Option.map_eq_some_iff.1 hvalue
  exact h.edges hnode edge hedge

private theorem gathered_firstFrames (h : p.Lacks c id key) {inputs : Record Json}
    (hframes : p.firstFrames inputs = .ok frames) : frames.gathered id key = none := by
  rw [(firstFrames_eq_ok hframes).2, FrameQueue.gathered_ensureAll,
    FrameQueue.gathered_receiveAll_of_apart (h.apart_ofBindings inputs)]
  rfl

/-- A move of the queue brings nothing to a lacking input. -/
theorem gathered_move (h : p.Lacks c id key) (hmove : host.Moves p frames frames')
    (hnone : frames.gathered id key = none) : frames'.gathered id key = none := by
  cases hmove with
  | dropped hpop _ => exact FrameQueue.gathered_pop_eq_none hpop hnone
  | deferred hpop _ _ _ =>
    rw [FrameQueue.gathered, FrameQueue.get?_defer]
    split
    · -- The frame that is put back is the one that was there.
      rename_i hid
      rw [hid] at hnone
      exact (FrameQueue.get?_pop hpop).trans hnone
    · exact FrameQueue.gathered_pop_eq_none hpop hnone
  | fired turn results =>
    rw [Host.Turn.after, FrameQueue.gathered_receiveAll_of_apart
      (h.apart_ofFiring turn.node_eq turn.entry.signature results), FrameQueue.gathered,
      FrameQueue.get?_foldl_remove]
    split
    · rfl
    · exact FrameQueue.gathered_pop_eq_none turn.popped hnone

/-- A node whose input is lacking has no turn. -/
theorem not_turn (h : p.Lacks host.catalog id key) (hnone : frames.gathered id key = none)
    (turn : host.Turn p frames) : turn.id ≠ id := by
  rintro rfl
  obtain ⟨hdeclared, hdefault⟩ := h.declared ⟨turn.node_eq, turn.entry_eq⟩
  have hframe : turn.frame.get? key = none := (FrameQueue.get?_pop turn.popped).trans hnone
  have hready := List.all_eq_true.1 turn.ready key hdeclared
  rw [hdefault, Record.contains_eq_false.2 hframe] at hready
  cases hready

/-- What a program lacks, the bodies that are cut out of it lack. -/
theorem closure (h : p.Lacks c id key) {site name : String} {signature : Signature}
    {extraction : Extraction} {closure : Closure}
    (hextract : Callback.extract p site signature frames = .ok extraction)
    (hclosure : extraction.closures.get? name = some closure) :
    closure.program.Lacks c id key := by
  obtain ⟨callback, -, hnodes, -, hinput, -⟩ := Callback.closure_of_extract hextract hclosure
  -- A node of the body is a node of the program that has lost some edges.
  have hnode : ∀ {other inner}, closure.program.node? other = some inner →
      ∃ node, p.node? other = some node ∧
        inner = { node with next := node.next.filter fun edge => edge.target ≠ site } := by
    intro other inner hinner
    rw [node?, hnodes] at hinner
    exact (Callback.node?_bodyNodes.1 hinner).2
  refine ⟨fun {inner entry} hcalls => ?_, fun b hb => ?_, fun {other inner} hinner edge hedge => ?_⟩
  · obtain ⟨node, houter, rfl⟩ := hnode hcalls.node_eq
    have hcalls' : p.Calls c id node entry := ⟨houter, hcalls.entry_eq⟩
    obtain ⟨hkey, hdefault⟩ := h.declared hcalls'
    exact ⟨hkey, hdefault⟩
  · obtain ⟨edge, hedge, haddress⟩ := Callback.feeding_of_wireInputs hinput hb
    obtain ⟨node, houter, hnext⟩ := Callback.mem_edgesOf.1 (List.mem_filter.1 hedge).1
    rw [haddress]
    exact h.edges houter edge hnext
  · obtain ⟨node, houter, rfl⟩ := hnode hinner
    exact h.edges houter edge (List.mem_filter.1 hedge).1

private theorem gathered_closure (h : p.Lacks c id key) (hnone : frames.gathered id key = none)
    {site name : String} {signature : Signature} {extraction : Extraction} {closure : Closure}
    {args : Record Json} {start : FrameQueue}
    (hextract : Callback.extract p site signature frames = .ok extraction)
    (hclosure : extraction.closures.get? name = some closure)
    (hstart : closure.frames args = .ok start) : start.gathered id key = none := by
  obtain ⟨-, -, -, hseed, -, -⟩ := Callback.closure_of_extract hextract hclosure
  rw [(Closure.frames_eq_ok hstart).2, FrameQueue.gathered_receiveAll_of_apart
    ((h.closure hextract hclosure).apart_ofBindings args), hseed, FrameQueue.gathered,
    FrameQueue.get?_restrict]
  split
  · exact hnone
  · rfl

end Program.Lacks

/-! ### Executions -/

/-- A lacking input for which nothing waits. -/
structure Program.Starved (p : Program) (c : Catalog) (id key : String) (frames : FrameQueue) :
    Prop where
  lacks : p.Lacks c id key
  nothing : frames.gathered id key = none

namespace Program.Starved

variable {host : Host} {p : Program} {id key : String} {frames frames' : FrameQueue}

theorem move (h : p.Starved host.catalog id key frames) (hmove : host.Moves p frames frames') :
    p.Starved host.catalog id key frames' :=
  ⟨h.lacks, h.lacks.gathered_move hmove h.nothing⟩

theorem callback (h : p.Starved host.catalog id key frames) (turn : host.Turn p frames)
    {name : String} {closure : Closure} {args : Record Json} {start : FrameQueue}
    (hclosure : turn.extraction.closures.get? name = some closure)
    (hstart : closure.frames args = .ok start) :
    closure.program.Starved host.catalog id key start := by
  have hrest := FrameQueue.gathered_pop_eq_none turn.popped h.nothing
  exact ⟨h.lacks.closure turn.extracted hclosure,
    h.lacks.gathered_closure hrest turn.extracted hclosure hstart⟩

end Program.Starved

/-- The queues that can come up in executions of a program and of the bodies that are cut out of it
for callbacks, at any depth. Inputs, arguments of callbacks and results of calls may be anything. -/
inductive Program.Visits (host : Host) (p : Program) : Program → FrameQueue → Prop where
  | start {inputs : Record Json} {frames : FrameQueue} : p.firstFrames inputs = .ok frames →
    Visits host p p frames
  | move {q : Program} {frames frames' : FrameQueue} : Visits host p q frames →
    host.Moves q frames frames' → Visits host p q frames'
  | callback {q : Program} {frames start : FrameQueue} {name : String} {closure : Closure}
    {args : Record Json} (turn : host.Turn q frames) : Visits host p q frames →
    turn.extraction.closures.get? name = some closure → closure.frames args = .ok start →
    Visits host p closure.program start

/-- **A lacking input stays empty** wherever executions of the program and of its bodies get. -/
theorem Program.Visits.starved {host : Host} {p q : Program} {frames : FrameQueue}
    {id key : String} (h : p.Visits host q frames) (hlacks : p.Lacks host.catalog id key) :
    q.Starved host.catalog id key frames := by
  induction h with
  | start hframes => exact ⟨hlacks, hlacks.gathered_firstFrames hframes⟩
  | move _ hmove ih => exact ih.move hmove
  | callback turn _ hclosure hstart ih => exact ih.callback turn hclosure hstart

namespace Host

variable {host : Host} {nested : Executor} {caller : String} {p : Program} {id key : String}
  {frames : FrameQueue}

/-- A starved node is not among the firings of an execution. -/
theorem Drained.id_ne_of_starved {steps : Nat} {outputs : Record Json} {s : Session}
    {log : List Firing} {final : Except Halt (Record Json) × Session}
    (h : host.Drained nested caller p steps frames outputs s log final)
    (hstarved : p.Starved host.catalog id key frames) : ∀ f ∈ log, f.id ≠ id := by
  -- A firing takes the turn of its node.
  have hfirst : ∀ {other frame frames rest outputs s firing result},
      host.Processed nested caller p other frame rest outputs s firing result →
      frames.pop? = some ((other, frame), rest) → p.Starved host.catalog id key frames →
      ∀ f ∈ firing.toList, f.id ≠ id := by
    intro other frame frames rest outputs s firing result hprocessed hpop hstarved f hf
    cases hprocessed with
    | dropped | unknown | deferred | unwired => cases hf
    | @failed node entry extraction _ _ _ hnode hentry hready hextract
    | @fired node entry extraction _ _ _ _ hnode hentry hready hextract =>
      cases List.mem_singleton.1 hf
      exact hstarved.lacks.not_turn hstarved.nothing
        ⟨other, frame, rest, node, entry, extraction, hpop, hnode, hentry, hready, hextract⟩
  induction h with
  | empty | exhausted => simp
  | halted hpop hprocessed | complete hpop hprocessed => exact hfirst hprocessed hpop hstarved
  | next hpop hprocessed _ ih =>
    intro f hf
    rcases List.mem_append.1 hf with hf | hf
    · exact hfirst hprocessed hpop hstarved f hf
    · exact ih (hstarved.move (hprocessed.moves hpop)) f hf

end Host

/-! ### Events -/

/-- No firing of the node was told in between, in the name of the caller. -/
def Session.Spares (caller id : String) (s s' : Session) : Prop :=
  ∀ function, .nodeFired caller id function ∈ s'.events → .nodeFired caller id function ∈ s.events

namespace Session.Spares

variable {caller id : String}

theorem closed : Run.Closed fun _ r => ∀ s : Session, s.Spares caller id (r s).2 :=
  .of_trans (fun _ _ h => h) (fun h h' function hf => h function (h' function hf))
    fun _ _ _ h => h

theorem emit {e : Event} (he : ∀ function, e ≠ .nodeFired caller id function) (observer : Observer)
    (s : Session) : s.Spares caller id (Run.emit observer e s).2 := by
  intro function hf
  rw [Run.emit_events, Array.mem_push] at hf
  exact hf.resolve_right fun heq => he function heq.symm

end Session.Spares

namespace Host

/-- No firing of a starved node is told in the name of a caller whose programs all lack the
input. -/
theorem habit_spares (host : Host) {caller id key : String}
    (hcatalog : ∀ signature q, host.catalog.get? caller = some (.program signature q) →
      q.Lacks host.catalog id key) :
    host.Habit (fun _ r => ∀ s : Session, Session.Spares caller id s (r s).2)
      fun other p frames => other = caller → p.Starved host.catalog id key frames where
  toClosed := Session.Spares.closed
  native _ _ _ args callbacks answer hanswer := by
    refine Script.perform_closed Session.Spares.closed (fun s function hf => ?_) hanswer _
    obtain ⟨x, source, hrandom⟩ := Run.random_eq s
    rw [hrandom] at hf
    exact hf
  call {other p frames} turn depth hscope hinvoke := by
    refine Session.Spares.closed.andThen (Session.Spares.emit ?_ _) fun _ _ => ?_
    · rintro function heq
      cases heq
      have hstarved := hscope rfl
      exact hstarved.lacks.not_turn hstarved.nothing turn rfl
    · refine Habit.invokeCached_of_acts Session.Spares.closed ?_ ?_ ?_ ?_ hinvoke
      · exact fun key => Session.Spares.emit (by simp) _
      · exact fun s function hf => hf
      · exact fun key s function hf => fetch_events key s ▸ hf
      · exact fun key outputs s function hf => remember_events key outputs s ▸ hf
  stopped _ _ := Session.Spares.emit (by simp) _
  exhausted _ _ := Session.Spares.emit (by simp) _
  move hscope hmove heq := (hscope heq).move hmove
  callback turn _ _ _ _ hscope hclosure hstart heq := (hscope heq).callback turn hclosure hstart
  program turn _ _ hscope hentry hstart heq := by
    have hlacks := hcatalog _ _ (heq ▸ hentry ▸ turn.entry_eq)
    exact ⟨hlacks, hlacks.gathered_firstFrames hstart⟩

end Host

namespace Environment

/-- **A node that validation calls incomplete never fires.** No execution of the program fires it,
and neither does an execution of a body that is cut out of the program for a callback, at whatever
depth. So no run tells a firing of the node in the name of a caller that stands for the program: of
`main` when the program itself is run, and of the names under which it is called. -/
theorem not_fired_of_missingInputs {env : Environment} {p : Program} {id function : String}
    {keys : List String}
    (h : ⟨.missingInputs function keys, ["data", id]⟩ ∈ env.validate p) :
    (∀ q frames, p.Visits env.host q frames → ∀ depth caller s,
      ∀ f ∈ env.host.executionFirings depth caller q frames s, f.id ≠ id) ∧
    ∀ caller top, (caller = mainCaller → top = p) →
      (∀ signature q, env.catalog.get? caller = some (.program signature q) → q = p) →
      ∀ depth run random inputs called,
        .nodeFired caller id called ∉ (env.runWithin depth run random top inputs).events := by
  obtain ⟨key, hlacks⟩ := Validation.lacks_of_missingInputs h
  refine ⟨fun q frames hvisits depth caller s => ?_, ?_⟩
  · exact (Host.drain_drained (q.steps env.host.slack) frames .empty s).id_ne_of_starved
      (hvisits.starved hlacks)
  · intro caller top htop hcatalog depth run random inputs called hfired
    have hhabit := env.host.habit_spares fun signature q hentry =>
      hcatalog signature q hentry ▸ hlacks
    have hrun := hhabit.runProgram depth mainCaller top inputs fun start hstart hmain => by
      cases htop hmain.symm
      exact ⟨hlacks, hlacks.gathered_firstFrames hstart⟩
    have hsession := env.session_closed Session.Spares.closed hrun
      (Session.Spares.emit (by simp) _) (fun _ => Session.Spares.emit (by simp) _)
      (fun _ => Session.Spares.emit (by simp) _) run
    have hbefore := hsession ⟨env.cache.map MemoCache.clear, #[], #[], random⟩ called hfired
    simp at hbefore

/-- The words for flags. Inside the callback a second node is told what to give, but never
whether. -/
def idling : Program where
  input := [⟨"flags", ⟨"map", "arr"⟩, .arrayOf .bool⟩]
  output := [⟨"words", ⟨"map", "arr"⟩, .arrayOf .string⟩]
  nodes := .ofList [
    ("map", ⟨"array.map", [⟨"pick", "item", "condition"⟩], .empty⟩),
    ("pick", ⟨"ctrl.if", [⟨"map", "data", "callback"⟩, ⟨"idle", "data", "true"⟩],
      .ofList [("true", .string "yes"), ("false", .string "no")]⟩),
    ("idle", ⟨"ctrl.if", [], .ofList [("false", .string "no")]⟩)]

/-- The second node is reported, and a run that calls the body twice does not fire it. -/
theorem not_fired_of_missingInputs_idling :
    let env := withWord none
    let report := env.runWithin 3 "" default idling
      (.ofList [("flags", .array [.bool true, .bool false])])
    ⟨.missingInputs "ctrl.if" ["condition"], ["data", "idle"]⟩ ∈ env.validate idling ∧
      report.outcome = .ok (.ofList [("words", .array [.string "yes", .string "no"])]) ∧
      .nodeFired mainCaller "idle" "ctrl.if" ∉ report.events := by
  intro env report
  have hreported : ⟨.missingInputs "ctrl.if" ["condition"], ["data", "idle"]⟩ ∈
      env.validate idling := by decide +kernel
  have hmain : env.catalog.get? mainCaller = none := by decide +kernel
  refine ⟨hreported, by decide +kernel, ?_⟩
  exact (not_fired_of_missingInputs hreported).2 mainCaller idling (fun _ => rfl)
    (fun signature q hentry => nomatch hmain.symm.trans hentry) 3 "" default _ "ctrl.if"

end Environment

end Dataflow
