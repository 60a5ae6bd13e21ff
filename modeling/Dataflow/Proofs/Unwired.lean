/-
Callbacks that are not wired.

A node whose callbacks are not wired does not fire. Whatever was running when its turn came ends
with the error: the program it is in, the functions on the way to it, and the whole run. The only
ones that can stop the error are native functions that call callbacks, and those of the library hand
on the errors of theirs.

* `Due` — a node that is about to fire;
* `Host.Comes` — an execution comes to a node, maybe in what it calls;
* `Host.Comes.execute` — and ends with the error if the callbacks of the node are not wired;
* `Catalog.HandsOn` — no native function stops the error of a callback;
* `Library.function_handsOn` — library functions hand errors on;
* `Callback.extract_wiring` — when callbacks are wired, how they are wired, and what happens if they
  are not;
* `Callback.wiring_error_stopped` — a native function that stops the error.
-/
import Mathlib
import Dataflow.Proofs.Asking
import Dataflow.Proofs.Counters
import Dataflow.Proofs.Wiring
namespace Dataflow

/-- A node that is about to fire: the program it is in, its id, the signature of its function and
the frames that wait meanwhile. -/
structure Due where
  program : Program
  id : String
  signature : Signature
  frames : FrameQueue

/-! ### Scripts -/

namespace Script

variable {α : Type}

/-- A script that fails when one of its callbacks does, with the same error. -/
inductive HandsOn : Script α → Prop where
  | done (a : α) : HandsOn (.done a)
  | fail (error : RunError) : HandsOn (.fail error)
  | crash : HandsOn .crash
  | call {callback : String} {args : Record Json}
    {resume : Except RunError (Record Json) → Script α} :
    (∀ error, resume (.error error) = .fail error) → (∀ record, HandsOn (resume (.ok record))) →
    HandsOn (.call callback args resume)
  | remark {level : Level} {text : String} {next : Script α} :
    HandsOn next → HandsOn (.remark level text next)
  | random {resume : Float → Script α} : (∀ x, HandsOn (resume x)) → HandsOn (.random resume)

theorem Asking.handsOn {script : Script α} (h : script.Asking) : script.HandsOn := by
  induction h with
  | done a => exact .done a
  | fail error => exact .fail error
  | crash => exact .crash
  | remark _ ih => exact .remark ih
  | call output next herror hvalue hnone _ ih =>
    refine .call herror fun record => ?_
    cases hget : record.get? output with
    | none =>
      obtain ⟨error, hfail⟩ := hnone record hget
      rw [hfail]
      exact .fail error
    | some value =>
      rw [hvalue record value hget]
      exact ih value

/-- A script that may not call has no errors to hand on. -/
theorem Within.handsOn {script : Script α}
    (h : script.Within ⟨fun _ => True, fun _ _ => False, True, True⟩) : script.HandsOn := by
  induction h with
  | done a => exact .done a
  | fail _ => exact .fail _
  | crash _ => exact .crash
  | call h _ _ => exact h.elim
  | remark _ ih => exact .remark ih
  | random _ _ ih => exact .random ih

/-- The script comes to a call of a callback that comes to the node. -/
inductive Comes (answer : String → Record Json → Run (Record Json))
    (Inner : String → Record Json → Session → Session → Prop) :
    Script α → Session → Session → Prop where
  | here {callback : String} {args : Record Json}
    {resume : Except RunError (Record Json) → Script α} {s s' : Session} :
    Inner callback args s s' → Comes answer Inner (.call callback args resume) s s'
  | call {callback : String} {args : Record Json}
    {resume : Except RunError (Record Json) → Script α} {reply : Except RunError (Record Json)}
    {s s₁ s' : Session} : (answer callback args).attempt s = (.ok reply, s₁) →
    Comes answer Inner (resume reply) s₁ s' → Comes answer Inner (.call callback args resume) s s'
  | remark {level : Level} {text : String} {next : Script α} {s s' : Session} :
    Comes answer Inner next (Run.note (.remark level text) s).2 s' →
    Comes answer Inner (.remark level text next) s s'
  | random {resume : Float → Script α} {x : Float} {s s₁ s' : Session} :
    Run.random s = (.ok x, s₁) → Comes answer Inner (resume x) s₁ s' →
    Comes answer Inner (.random resume) s s'

/-- A script that hands errors on fails with the error that it comes to. -/
theorem Comes.perform {answer : String → Record Json → Run (Record Json)}
    {Inner : String → Record Json → Session → Session → Prop} {script : Script α} {s s' : Session}
    {error : RunError} (h : script.Comes answer Inner s s') (hs : script.HandsOn)
    (hinner : ∀ callback args s s', Inner callback args s s' →
      answer callback args s = (.error (.failed error), s')) :
    script.perform answer s = (.error (.failed error), s') := by
  induction h with
  | here h =>
    cases hs with
    | call hfail _ =>
      rw [Script.perform, Run.andThen_of_ok (Run.attempt_of_failed (hinner _ _ _ _ h)), hfail]
      rfl
  | @call _ _ resume reply _ _ _ hreply _ ih =>
    cases hs with
    | call hfail hresume =>
      rw [Script.perform, Run.andThen_of_ok hreply]
      refine ih ?_
      cases reply with
      | ok record => exact hresume record
      | error error => exact hfail error ▸ .fail error
  | remark _ ih =>
    cases hs with
    | remark hs =>
      rw [Script.perform, Run.andThen_of_ok (Run.note_eq ..)]
      exact ih hs
  | random hx _ ih =>
    cases hs with
    | random hs =>
      rw [Script.perform, Run.andThen_of_ok hx]
      exact ih (hs _)

end Script

/-- **Library functions hand on the errors of their callbacks.** -/
theorem Library.function_handsOn {f : NativeFunction} (hf : f ∈ functions) (args : Record Json)
    (callbacks : List String) : (f.runner args callbacks).HandsOn := by
  by_cases hname : f.name = random.name
  · -- What draws random numbers has no callbacks.
    have hplain : ∀ g ∈ functions, g.name = random.name → g.signature.callbacks.isEmpty = true := by
      decide +kernel
    refine (function_within hf callbacks ?_ (fun _ => trivial) fun _ _ => trivial).handsOn
    refine ⟨fun _ _ => trivial, fun _ _ _ => trivial, ?_⟩
    rintro callback args ⟨body, hbody, -⟩
    rw [Record.isEmpty_iff.1 (hplain f hf hname)] at hbody
    cases hbody
  · exact (function_asking hf hname args callbacks).handsOn

/-- No native function of the catalog stops the error of a callback. -/
def Catalog.HandsOn (c : Catalog) : Prop :=
  ∀ function signature runner, c.get? function = some (.native signature runner) →
    ∀ args callbacks, (runner args callbacks).HandsOn

private theorem Library.catalog_handsOn : catalog.HandsOn := by
  intro function signature runner hentry
  obtain ⟨f, hf, -, hnative⟩ := get?_catalog hentry
  cases hnative
  exact function_handsOn hf

/-- Programs have no errors to stop. -/
theorem Catalog.HandsOn.register {c : Catalog} (h : c.HandsOn) (name : String) (q : Program) :
    (c.register name (.ofProgram q)).HandsOn := by
  intro function signature runner hentry
  rw [Catalog.get?, Catalog.register, Record.get?_insert] at hentry
  split at hentry
  · cases hentry
  · exact h function signature runner hentry

/-! ### Executions -/

namespace Host

section Layers

variable (host : Host) (due : Due) (nested : Executor)
  (Inner : String → Program → FrameQueue → Session → Session → Prop)

/-- How a call through the cache is made that is not answered by it. -/
inductive Misses (function : String) (args : Record Json) (closures : Record Closure) :
    Session → Session → Prop where
  | past {s : Session} : cacheKey? s.cache function args closures = none →
    Misses function args closures s s
  | absent {s : Session} {cache : MemoCache} : s.cache = some cache →
    cache.isCacheable function = true →
    cache.entries.get? (callKey function args closures) = none →
    Misses function args closures s
      { s with cache := some { cache with misses := cache.misses + 1 } }

/-- The call of a function comes to the node in the program that it stands for, or in a callback of
a native function. -/
inductive InvokeComes (function : String) (args : Record Json) (closures : Record Closure)
    (caller : String) : Entry → Session → Session → Prop where
  | program {signature : Signature} {q : Program} {start : FrameQueue} {s s' : Session} :
    q.firstFrames args = .ok start → Inner function q start s s' →
    InvokeComes function args closures caller (.program signature q) s s'
  | callback {signature : Signature} {runner : Runner} {s s' : Session} :
    (runner args closures.names).Comes (callClosure nested closures caller)
      (fun name args s s' => ∃ closure start, closures.get? name = some closure ∧
        closure.frames args = .ok start ∧ Inner caller closure.program start s s') s s' →
    InvokeComes function args closures caller (.native signature runner) s s'

/-- The queue comes to the node: its frame is the first, or the execution goes on behind the first
frame, or the node of the first frame fires and its call comes to it. -/
inductive DrainComes (caller : String) (p : Program) :
    Nat → FrameQueue → Record Json → Session → Session → Prop where
  | due {steps : Nat} {frames : FrameQueue} {outputs : Record Json} {s : Session} {frame : Frame}
    {node : Node} {entry : Entry} : p = due.program →
    frames.pop? = some ((due.id, frame), due.frames) → p.node? due.id = some node →
    host.catalog.get? node.function = some entry → entry.signature = due.signature →
    node.isReady entry.signature frame = true → DrainComes caller p (steps + 1) frames outputs s s
  | next {steps : Nat} {frames rest frames' : FrameQueue} {outputs outputs' : Record Json}
    {s s₁ s' : Session} {id : String} {frame : Frame} : frames.pop? = some ((id, frame), rest) →
    host.process nested caller p id frame rest outputs s = (.ok (.next frames' outputs'), s₁) →
    DrainComes caller p steps frames' outputs' s₁ s' →
    DrainComes caller p (steps + 1) frames outputs s s'
  | call {steps : Nat} {frames : FrameQueue} {outputs : Record Json} {s s₁ s' : Session}
    (turn : host.Turn p frames) :
    Misses turn.node.function turn.args turn.extraction.closures
      (host.announced caller turn.id turn.node.function s) s₁ →
    InvokeComes nested Inner turn.node.function turn.args turn.extraction.closures caller turn.entry
      s₁ s' → DrainComes caller p (steps + 1) frames outputs s s'

end Layers

/-- An execution that starts in the session `s` comes to the node in the session `s'`, in its own
program or in what it calls. -/
def Comes (host : Host) (due : Due) :
    (depth : Nat) → String → Program → FrameQueue → Session → Session → Prop
  | 0 => fun _ _ _ _ _ => False
  | depth + 1 => fun caller p frames s s' =>
    host.DrainComes due (host.execute depth) (host.Comes due depth) caller p (p.steps host.slack)
      frames .empty s s'

variable {host : Host} {due : Due} {nested : Executor}
  {Inner : String → Program → FrameQueue → Session → Session → Prop} {p : Program}
  {caller function : String} {args : Record Json} {closures : Record Closure} {entry : Entry}
  {s s₁ s' : Session} {error : RunError}

theorem Misses.invokeCached {halt : Halt} (h : Misses function args closures s s₁)
    (hcall : invoke nested function entry args closures caller s₁ = (.error halt, s')) :
    host.invokeCached nested function entry args closures caller s = (.error halt, s') := by
  cases h with
  | past hkey => rw [invokeCached_of_none hkey, hcall]
  | absent hs hcacheable hget =>
    rw [invokeCached_of_absent host nested entry caller hs hcacheable hget,
      Run.andThen_of_error hcall]

private theorem process_of_ready {id : String} {node : Node} {frame : Frame} {rest : FrameQueue}
    {outputs : Record Json} {halt : Halt} (hnode : p.node? id = some node)
    (hentry : host.catalog.get? node.function = some entry)
    (hready : node.isReady entry.signature frame = true)
    (hfire : host.fire nested caller p id node entry frame rest s = (.error halt, s')) :
    host.process nested caller p id frame rest outputs s = (.error halt, s') := by
  rw [process, hnode]
  simp only [hentry, hready, if_true, Run.bind_eq]
  exact Run.andThen_of_error hfire

private theorem drain_of_error {steps : Nat} {id : String} {frame : Frame}
    {frames rest : FrameQueue}
    {outputs : Record Json} {halt : Halt} (hpop : frames.pop? = some ((id, frame), rest))
    (h : host.process nested caller p id frame rest outputs s = (.error halt, s')) :
    host.drain nested caller p (steps + 1) frames outputs s = (.error halt, s') := by
  rw [drain, hpop]
  simp only [Run.bind_eq]
  exact Run.andThen_of_error h

/-- An execution that comes to a node whose callbacks are not wired ends there. -/
theorem drain_of_unwired {steps : Nat} {id : String} {node : Node} {frame : Frame}
    {frames rest : FrameQueue} {outputs : Record Json}
    (hunwired : Callback.extract p id entry.signature rest = .error error)
    (hpop : frames.pop? = some ((id, frame), rest)) (hnode : p.node? id = some node)
    (hentry : host.catalog.get? node.function = some entry)
    (hready : node.isReady entry.signature frame = true) :
    host.drain nested caller p (steps + 1) frames outputs s = (.error (.failed error), s) :=
  drain_of_error hpop (process_of_ready hnode hentry hready (fire_of_unwired hunwired))

section Errors

variable (hinner : ∀ caller p frames s s', Inner caller p frames s s' →
  nested caller p frames s = (.error (.failed error), s'))
include hinner

theorem InvokeComes.invoke
    (hentry : ∀ signature runner, entry = .native signature runner →
      ∀ args callbacks, (runner args callbacks).HandsOn)
    (h : InvokeComes nested Inner function args closures caller entry s s') :
    Host.invoke nested function entry args closures caller s = (.error (.failed error), s') := by
  cases h with
  | @program _ q _ _ _ hstart h =>
    have hrun : runProgram nested q args function s = (.error (.failed error), s') := by
      rw [runProgram, Run.bind_eq, hstart]
      exact hinner _ _ _ _ _ h
    rw [Host.invoke, Run.bind_eq, Run.andThen_of_error hrun]
  | callback h =>
    rw [Host.invoke]
    refine h.perform (hentry _ _ rfl _ _) ?_
    rintro name args s s' ⟨closure, start, hclosure, hstart, h⟩
    rw [callClosure, hclosure]
    simp only [hstart, Run.bind_eq]
    exact hinner _ _ _ _ _ h

theorem DrainComes.drain {steps : Nat} {frames : FrameQueue} {outputs : Record Json}
    (hcatalog : host.catalog.HandsOn)
    (hunwired : Callback.extract due.program due.id due.signature due.frames = .error error)
    (h : host.DrainComes due nested Inner caller p steps frames outputs s s') :
    host.drain nested caller p steps frames outputs s = (.error (.failed error), s') := by
  induction h with
  | due hprogram hpop hnode hentry hsignature hready =>
    rw [← hprogram, ← hsignature] at hunwired
    exact drain_of_unwired hunwired hpop hnode hentry hready
  | next hpop hprocess _ ih =>
    rw [Host.drain, hpop]
    simp only [Run.bind_eq]
    rw [Run.andThen_of_ok hprocess]
    exact ih
  | call turn hmisses h =>
    refine drain_of_error turn.popped
      (process_of_ready turn.node_eq turn.entry_eq turn.ready ?_)
    rw [fire_of_extract turn.extracted]
    refine Run.andThen_of_error (hmisses.invokeCached (h.invoke hinner ?_))
    exact fun signature runner hnative => hcatalog _ _ _ (hnative ▸ turn.entry_eq)

end Errors

/-- **A node whose callbacks are not wired puts an end to everything on the way to it**, if no
native function stops the error. -/
theorem Comes.execute (hcatalog : host.catalog.HandsOn)
    (hunwired : Callback.extract due.program due.id due.signature due.frames = .error error)
    {depth : Nat} {frames : FrameQueue} (h : host.Comes due depth caller p frames s s') :
    host.execute depth caller p frames s = (.error (.failed error), s') := by
  induction depth generalizing caller p frames s s' with
  | zero => exact h.elim
  | succ depth ih => exact h.drain (fun caller p frames s s' h => ih h) hcatalog hunwired

end Host

namespace Environment

/-- The whole run fails with the error, and nothing is told after the node was come to but that. -/
theorem runWithin_of_comes {env : Environment} (hcatalog : env.catalog.HandsOn) {due : Due}
    {error : RunError}
    (hunwired : Callback.extract due.program due.id due.signature due.frames = .error error)
    {depth : Nat} {run : String} {random : RandomSource} {p : Program} {inputs : Record Json}
    {start : FrameQueue} (hstart : p.firstFrames inputs = .ok start) {s : Session}
    (h : env.host.Comes due depth mainCaller p start
      (env.started run p ⟨env.cache.map MemoCache.clear, #[], #[], random⟩) s) :
    let report := env.runWithin depth run random p inputs
    report.outcome = .error (.failed error) ∧
      report.events.toList = s.events.toList ++ [.runFailed error.message] := by
  intro report
  obtain ⟨houtcome, -, hevents⟩ := env.session_events depth run p inputs
    ⟨env.cache.map MemoCache.clear, #[], #[], random⟩
  have hrun : Host.runProgram (env.host.execute depth) p inputs mainCaller
      (env.started run p ⟨env.cache.map MemoCache.clear, #[], #[], random⟩) =
        (.error (.failed error), s) := by
    rw [Host.runProgram, Run.bind_eq, hstart]
    exact h.execute hcatalog hunwired
  rw [hrun] at houtcome hevents
  exact ⟨houtcome, hevents⟩

end Environment

namespace Callback

/-- **Callbacks are wired, or the first key without an edge is told.** The body of a call site is
listed breadth first. An extraction succeeds if and only if every key of every callback has its
edge, and otherwise it fails with the first one that does not, in order of the callbacks' names,
inputs before outputs. On success there is a closure for every callback, with a binding for each
input and each edge that leaves from it, and one binding for each output. If the extraction fails,
the node does not fire, and the execution of its program ends with the error, whatever is
registered. The top-level run ends with it as well, and tells nothing more, if no native function
stops the errors of its callbacks. The functions of the library do not, and programs cannot. -/
theorem extract_wiring {p : Program} {site : String} {node : Node}
    (hnode : p.node? site = some node) (signature : Signature) (frames : FrameQueue) :
    let feeding := feedingEdges p site signature
    let ids := body p site feeding
    BreadthFirst p site feeding ids ∧
      ((∃ extraction, extract p site signature frames = .ok extraction) ↔
        ∀ w ∈ signature.wires, w.Met p site signature) ∧
      (∀ error, extract p site signature frames = .error error ↔
        ∃ before w after, signature.wires = before ++ w :: after ∧
          (∀ v ∈ before, v.Met p site signature) ∧ ¬w.Met p site signature ∧
          error = .callbackWiring w.callback w.key w.side) ∧
      (∀ extraction, extract p site signature frames = .ok extraction →
        extraction.closures.names = signature.callbacks.names ∧
        ∀ name callback closure, signature.callbacks.get? name = some callback →
          extraction.closures.get? name = some closure →
          Wired p site ids callback closure.program) ∧
      (∀ error, extract p site signature frames = .error error →
        (∀ (host : Host) nested caller entry frame s, entry.signature = signature →
          host.fire nested caller p site node entry frame frames s = (.error (.failed error), s)) ∧
        (∀ (host : Host) nested caller steps queue outputs entry frame s,
          queue.pop? = some ((site, frame), frames) →
          host.catalog.get? node.function = some entry → entry.signature = signature →
          node.isReady signature frame = true →
          host.drain nested caller p (steps + 1) queue outputs s = (.error (.failed error), s)) ∧
        ∀ env : Environment, env.catalog.HandsOn → ∀ depth run random q inputs start s,
          q.firstFrames inputs = .ok start →
          env.host.Comes ⟨p, site, signature, frames⟩ depth mainCaller q start
            (env.started run q ⟨env.cache.map MemoCache.clear, #[], #[], random⟩) s →
          let report := env.runWithin depth run random q inputs
          report.outcome = .error (.failed error) ∧
            report.events.toList = s.events.toList ++ [.runFailed error.message]) ∧
      (∀ f ∈ Library.functions, ∀ args callbacks, (f.runner args callbacks).HandsOn) ∧
      Library.catalog.HandsOn ∧
      ∀ c : Catalog, c.HandsOn → ∀ name q, (c.register name (.ofProgram q)).HandsOn := by
  intro feeding ids
  have hchecked := extract_checked hnode signature frames
  refine ⟨breadthFirst_body p site feeding, hchecked.ok_iff, fun error => hchecked.error_iff, ?_,
    ?_, fun f hf => Library.function_handsOn hf, Library.catalog_handsOn, fun c hc => hc.register⟩
  · intro extraction h
    exact ⟨names_of_extract hnode h, fun name callback closure => wired_of_extract h⟩
  · intro error h
    refine ⟨?_, ?_, ?_⟩
    · rintro host nested caller entry frame s rfl
      exact Host.fire_of_unwired h
    · rintro host nested caller steps queue outputs entry frame s hpop hentry rfl hready
      exact Host.drain_of_unwired h hpop hnode hentry hready
    · intro env hcatalog depth run random q inputs start s hstart hcomes
      exact Environment.runWithin_of_comes hcatalog h hstart hcomes

/-- One callback on items. -/
def onItems : Record CallbackSignature :=
  .ofList [("cb", ⟨[⟨"item", .bool⟩], [⟨"callback", .bool⟩]⟩)]

/-- A call site without any edges. -/
def loose : Program where
  input := []
  output := []
  nodes := .ofList [("site", .bare "each")]

/-- A program with one call. -/
def calling : Program where
  input := []
  output := []
  nodes := .ofList [("call", .bare "inner")]

/-- The call site is in a program that is called. The call is told, and the call site is not. -/
theorem extract_wiring_loose :
    let signature : Signature := ⟨[], [], onItems⟩
    let each : Entry := .native signature fun _ _ => .done .empty
    let catalog := (Catalog.empty.register "each" each).register "inner" (.ofProgram loose)
    let env : Environment := ⟨catalog, ⟨none, 10, false⟩, none, fun _ => none⟩
    let report := env.runWithin 2 "" default calling .empty
    loose.node? "site" = some (.bare "each") ∧
      report.outcome = .error (.failed (.callbackWiring "cb" "item" .input)) ∧
      report.events.toList = [.runStarted, .nodeFired "main" "call" "inner",
        .runFailed "Callback 'cb' input 'item' is not wired"] := by
  intro signature each catalog env report
  have hnode : loose.node? "site" = some (.bare "each") := by decide
  obtain ⟨-, -, herror, -, hfails, -, -, hregister⟩ := extract_wiring hnode signature .empty
  have hunwired : extract loose "site" signature .empty =
      .error (.callbackWiring "cb" "item" .input) := by
    have hunmet : ¬(Wire.mk "cb" "item" .input).Met loose "site" signature := by
      rintro ⟨edge, hedge, -⟩
      have hnone : edgesOf loose "site" = [] := by decide
      rw [hnone] at hedge
      cases hedge
    exact (herror _).2 ⟨[], _, [⟨"cb", "callback", .output⟩], rfl, by simp, hunmet, rfl⟩
  have hinner : catalog.get? "inner" = some (.ofProgram loose) := Record.get?_insert_self ..
  have heach : catalog.get? "each" = some each := rfl
  have hhandsOn : catalog.HandsOn := by
    refine hregister _ (fun function _ runner hentry args callbacks => ?_) "inner" loose
    rw [Catalog.get?, Catalog.register, Record.get?_insert] at hentry
    split at hentry
    · obtain ⟨-, rfl⟩ := Entry.native.inj (Option.some.inj hentry)
      exact .done _
    · cases hentry
  have hframes : calling.firstFrames .empty = .ok (FrameQueue.empty.ensure "call") := by decide
  let turn : env.host.Turn calling (FrameQueue.empty.ensure "call") :=
    { id := "call", frame := .empty, rest := .empty, node := .bare "inner"
      entry := .ofProgram loose, extraction := ⟨.empty, []⟩, popped := by decide
      node_eq := by decide, entry_eq := hinner, ready := by decide, extracted := rfl }
  have hfirst : loose.firstFrames ((Node.bare "inner").arguments loose.signature .empty) =
      .ok (FrameQueue.empty.ensure "site") := by decide
  have hpop : (FrameQueue.empty.ensure "site").pop? = some (("site", .empty), .empty) := by decide
  let begun := env.started "" calling ⟨env.cache.map MemoCache.clear, #[], #[], default⟩
  have hcomes : env.host.Comes ⟨loose, "site", signature, .empty⟩ 2 mainCaller calling
      (FrameQueue.empty.ensure "call") begun
      (env.host.announced mainCaller "call" "inner" begun) := by
    refine .call turn (.past rfl) (.program hfirst ?_)
    exact .due rfl hpop hnode heach rfl rfl
  obtain ⟨houtcome, hevents⟩ :=
    (hfails _ hunwired).2.2 env hhandsOn 2 "" default calling .empty _ _ hframes hcomes
  exact ⟨hnode, houtcome, hevents⟩

/-- A native function that calls its callback and takes every answer for a good one, and one that
has a callback as well. -/
def calming : Environment :=
  let calm : Entry := .native ⟨[⟨"go", .bool⟩], [⟨"out", .bool⟩], onItems⟩ fun _ _ =>
    .call "cb" (.ofList [("item", .bool true)]) fun _ => .done (Library.single "out" (.bool true))
  let each : Entry := .native ⟨[⟨"x", .bool⟩], [⟨"y", .bool⟩], onItems⟩ fun _ _ => .done .empty
  ⟨(Catalog.empty.register "calm" calm).register "each" each, ⟨none, 10, false⟩, none,
    fun _ => none⟩

/-- A call site that is not wired is the body of the callback of `calm`. -/
def muted : Program where
  input := [⟨"go", ⟨"calm", "go"⟩, .bool⟩]
  output := [⟨"out", ⟨"calm", "out"⟩, .bool⟩]
  nodes := .ofList [
    ("calm", ⟨"calm", [⟨"site", "item", "x"⟩], .empty⟩),
    ("site", ⟨"each", [⟨"calm", "y", "callback"⟩], .empty⟩)]

/-- A clean program comes to a call site that is not wired and succeeds, because a native function
stops the error. -/
theorem wiring_error_stopped :
    let inputs : Record Json := .ofList [("go", .bool true)]
    calming.validate muted = [] ∧
    (∃ due error start s, muted.firstFrames inputs = .ok start ∧
      extract due.program due.id due.signature due.frames = .error error ∧
      calming.host.Comes due 2 mainCaller muted start
        (calming.started "" muted ⟨calming.cache.map MemoCache.clear, #[], #[], default⟩) s) ∧
    (calming.runWithin 2 "" default muted inputs).outcome =
      .ok (.ofList [("out", .bool true)]) := by
  intro inputs
  refine ⟨by decide +kernel, ?_, by decide +kernel⟩
  let start := FrameQueue.empty.add "calm" "go" (.bool true)
  let closure : Closure :=
    ⟨"cb", ⟨[⟨"item", ⟨"site", "x"⟩, .bool⟩], [⟨"callback", ⟨"site", "y"⟩, .bool⟩],
      .ofList [("site", .bare "each")]⟩, .empty⟩
  let turn : calming.host.Turn muted start :=
    { id := "calm", frame := .ofList [("go", .bool true)], rest := .empty
      node := ⟨"calm", [⟨"site", "item", "x"⟩], .empty⟩, entry := _
      extraction := ⟨.ofList [("cb", closure)], ["site"]⟩, popped := by decide
      node_eq := by decide, entry_eq := rfl, ready := by decide, extracted := rfl }
  let due : Due :=
    ⟨closure.program, "site", ⟨[⟨"x", .bool⟩], [⟨"y", .bool⟩], onItems⟩, .empty⟩
  let begun :=
    calming.started "" muted ⟨calming.cache.map MemoCache.clear, #[], #[], default⟩
  have hpop : (FrameQueue.empty.add "site" "x" (.bool true)).pop? =
      some (("site", .ofList [("x", .bool true)]), .empty) := by decide
  have hnode : closure.program.node? "site" = some (.bare "each") := by decide
  have hcomes : calming.host.Comes due 2 mainCaller muted start begun
      (calming.host.announced mainCaller "calm" "calm" begun) := by
    refine .call turn (.past rfl) (.callback (.here ?_))
    refine ⟨closure, FrameQueue.empty.add "site" "x" (.bool true), rfl, by decide, ?_⟩
    exact .due rfl hpop hnode rfl rfl rfl
  exact ⟨due, .callbackWiring "cb" "item" .input, start, _, by decide, rfl, hcomes⟩

end Callback

end Dataflow
