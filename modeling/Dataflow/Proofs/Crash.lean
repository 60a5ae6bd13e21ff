/-
Runs end, unless programs call each other in a circle or a function crashes.

A crash ends everything at once: no function on the way takes it back, and nothing more is told. So
it has been told before whose fault it is. The functions of the library do not crash, with one
exception: a text that is repeated can become longer than any text can be.

* `Script.perform_crashed` — a script crashes by itself or because a callback does;
* `Host.execute_crashed` — a node has fired whose function can crash;
* `Environment.answers_or_crashes` — without recursion, every run has an answer or crashes;
* `Environment.repetition_crashes` — a run that crashes.
-/
import Mathlib
import Dataflow.Proofs.CachedCall
import Dataflow.Proofs.Habit
import Dataflow.Proofs.Library
import Dataflow.Proofs.Termination
namespace Dataflow

/-! ### Computations -/

namespace Run

variable {α β : Type} {Q : Session → Prop}

/-- If the computation crashes, the session has the property. -/
def CrashesWith (r : Run α) (Q : Session → Prop) : Prop :=
  ∀ s s', r s = (.error .crashed, s') → Q s'

private theorem crashesWith_result (a : α) : (result a).CrashesWith Q := fun _ _ h => nomatch h

private theorem crashesWith_fail (error : RunError) : (fail error : Run α).CrashesWith Q :=
  fun _ _ h => nomatch h

private theorem crashesWith_ofExcept (e : Except RunError α) : (ofExcept e).CrashesWith Q := by
  cases e with
  | ok a => exact crashesWith_result a
  | error error => exact crashesWith_fail error

private theorem crashesWith_note (n : Note) : (note n).CrashesWith Q := fun _ _ h => nomatch h

private theorem crashesWith_emit (observer : Observer) (e : Event) :
    (emit observer e).CrashesWith Q := by
  intro s s' h
  have hok := (emit_outcome observer e s).1
  rw [h] at hok
  cases hok

theorem CrashesWith.andThen {r : Run α} {f : α → Run β} (hr : r.CrashesWith Q)
    (hf : ∀ a, (f a).CrashesWith Q) : (r.andThen f).CrashesWith Q := by
  intro s s' h
  rcases hrun : r s with ⟨halt | a, s₁⟩
  · rw [andThen_of_error hrun] at h
    cases h
    exact hr s s' hrun
  · rw [andThen_of_ok hrun] at h
    exact hf a s₁ s' h

theorem CrashesWith.attempt {r : Run α} (hr : r.CrashesWith Q) : r.attempt.CrashesWith Q := by
  intro s s' h
  rw [attempt_eq] at h
  obtain ⟨houtcome, rfl⟩ := Prod.mk.inj h
  exact hr s _ (Prod.ext (caught_eq_crashed.1 houtcome) rfl)

end Run

/-- **A script crashes by itself or because a callback does.** -/
theorem Script.perform_crashed {α : Type} {answer : String → Record Json → Run (Record Json)}
    {Q : Session → Prop} (hanswer : ∀ callback args, (answer callback args).CrashesWith Q)
    {script : Script α} {s s' : Session} (h : script.perform answer s = (.error .crashed, s')) :
    Q s' ∨ ¬script.Sturdy := by
  induction script generalizing s with
  | done a => cases h
  | fail error => cases h
  | crash =>
    refine .inr fun hsturdy => ?_
    cases hsturdy with
    | crash hfalse => exact hfalse
  | call callback args resume ih =>
    rw [perform] at h
    rcases hreply : (answer callback args).attempt s with ⟨halt | reply, s₁⟩
    · rw [Run.andThen_of_error hreply] at h
      cases h
      exact .inl ((hanswer callback args).attempt s s' hreply)
    · rw [Run.andThen_of_ok hreply] at h
      refine (ih reply h).imp_right fun hresume hsturdy => ?_
      cases hsturdy with
      | call _ hnext => exact hresume (hnext reply fun _ _ => trivial)
  | remark level text next ih =>
    rw [perform, Run.andThen_of_ok (Run.note_eq ..)] at h
    refine (ih h).imp_right fun hnext hsturdy => ?_
    cases hsturdy with
    | remark hsturdy => exact hnext hsturdy
  | random resume ih =>
    obtain ⟨x, source, hx⟩ := Run.random_eq s
    rw [perform, Run.andThen_of_ok hx] at h
    refine (ih x h).imp_right fun hresume hsturdy => ?_
    cases hsturdy with
    | random _ hnext => exact hresume (hnext x)

/-! ### Executions -/

namespace Host

variable {host : Host} {nested : Executor} {p : Program} {frames rest : FrameQueue}
  {function caller id : String} {entry : Entry} {frame : Frame} {args : Record Json}
  {closures : Record Closure} {Q : Session → Prop} {s s' : Session}

/-- Nothing that was told is taken back. -/
theorem habit_keeps (host : Host) :
    host.Habit (fun _ r => ∀ s, s.events.toList <+: (r s).2.events.toList) fun _ _ _ => True := by
  have hclosed : Run.Closed fun _ r => ∀ s, s.events.toList <+: (r s).2.events.toList :=
    .of_trans (R := fun s s' => s.events.toList <+: s'.events.toList)
      (fun _ => List.prefix_rfl) List.IsPrefix.trans fun _ _ => List.prefix_rfl
  refine .of_acts hclosed (fun _ args callbacks answer hanswer => ?_)
    (fun e => Run.emit_keeps host.observer e) (fun _ => List.prefix_rfl) (fun key s => ?_)
    fun key outputs s => ?_
  · refine Script.perform_closed hclosed (fun s => ?_) hanswer _
    obtain ⟨x, source, hrandom⟩ := Run.random_eq s
    rw [hrandom]
  · rw [fetch_events]
  · rw [remember_events]

/-- A call tells something more, and takes nothing back. -/
theorem invokeCached_keeps (depth : Nat) (turn : host.Turn p frames) (caller : String)
    (s : Session) : s.events.toList <+: (host.invokeCached (host.execute depth) turn.node.function
      turn.entry turn.args turn.extraction.closures caller s).2.events.toList := by
  have h := host.habit_keeps
  refine Habit.invokeCached_of_acts h.toClosed (fun key => Run.emit_keeps host.observer _)
    (fun _ => List.prefix_rfl) (fun key s => ?_) (fun key outputs s => ?_)
    (h.invoke (fun caller p frames _ => h.execute depth caller p frames trivial) trivial turn) s
  · rw [fetch_events]
  · rw [remember_events]

theorem announced_events (host : Host) (caller id function : String) (s : Session) :
    (host.announced caller id function s).events.toList =
      s.events.toList ++ [.nodeFired caller id function] := by
  rw [announced, Run.emit_events, Array.toList_push]
  rfl

/-- The function of the firing can crash by itself when it is called with these arguments. -/
def Turn.CanCrash (turn : host.Turn p frames) : Prop :=
  ∃ signature runner, turn.entry = .native signature runner ∧
    ¬(runner turn.args turn.extraction.closures.names).Sturdy

/-- A firing was told whose function can crash. -/
def Blames (host : Host) (events : Array Event) : Prop :=
  ∃ caller p frames, ∃ turn : host.Turn p frames,
    .nodeFired caller turn.id turn.node.function ∈ events.toList ∧ turn.CanCrash

/-- Of the library, `str.repeat` alone can crash, when its text becomes too long. -/
theorem Turn.CanCrash.overlong {turn : host.Turn p frames} (h : turn.CanCrash)
    (hcatalog : host.catalog = Library.settled) :
    turn.node.function = "str.repeat" ∧ Library.Overlong turn.args := by
  obtain ⟨signature, runner, hentry, hcrash⟩ := h
  obtain ⟨f, hf, hname, -, hnative⟩ := Library.get?_settled (hcatalog ▸ turn.entry_eq)
  cases hentry.symm.trans hnative
  rw [Library.function_sturdy hf, not_not] at hcrash
  exact ⟨hname.symm.trans hcrash.1, hcrash.2⟩

/-- A call crashes because something below it does, or because its function crashes by itself. -/
theorem invoke_crashed (hn : ∀ caller p frames, (nested caller p frames).CrashesWith Q)
    (h : invoke nested function entry args closures caller s = (.error .crashed, s')) :
    Q s' ∨ ∃ signature runner, entry = .native signature runner ∧
      ¬(runner args closures.names).Sturdy := by
  cases entry with
  | native signature runner =>
    refine (Script.perform_crashed (fun name args => ?_) h).imp_right
      fun hcrash => ⟨signature, runner, rfl, hcrash⟩
    unfold callClosure
    cases closures.get? name with
    | none => exact Run.crashesWith_fail _
    | some closure => exact (Run.crashesWith_ofExcept _).andThen fun frames => hn caller _ frames
  | program signature q =>
    have hrun : (runProgram nested q args function).CrashesWith Q :=
      (Run.crashesWith_ofExcept _).andThen fun frames => hn function q frames
    exact .inl ((hrun.andThen fun values => Run.crashesWith_result _) s s' h)

private theorem invokeCached_crashed
    (hn : ∀ caller p frames, (nested caller p frames).CrashesWith Q)
    (h : host.invokeCached nested function entry args closures caller s = (.error .crashed, s')) :
    Q s' ∨ ∃ signature runner, entry = .native signature runner ∧
      ¬(runner args closures.names).Sturdy := by
  cases hkey : cacheKey? s.cache function args closures with
  | none => exact invoke_crashed hn (invokeCached_of_none hkey ▸ h)
  | some key =>
    obtain ⟨cache, hs, hcacheable⟩ := cacheKey?_eq_some hkey
    cases hget : cache.entries.get? (callKey function args closures) with
    | some outputs =>
      obtain ⟨-, s₁, -, -, hhit⟩ := invokeCached_of_hit host entry caller hs hcacheable hget
      cases (hhit nested).symm.trans h
    | none =>
      obtain ⟨cache', -, hmiss⟩ := invokeCached_of_miss host entry caller hs hcacheable hget
      rw [hmiss] at h
      rcases hcall : invoke nested function entry args closures caller
        { s with cache := some cache' } with ⟨halt | outputs, s₁⟩
      · rw [Run.andThen_of_error hcall] at h
        cases h
        exact invoke_crashed hn hcall
      · obtain ⟨s₂, hremember, -⟩ := remember_eq (callKey function args closures) outputs s₁
        rw [Run.andThen_of_ok hcall, Run.andThen_of_ok hremember] at h
        cases h

/-- A step that crashes has told of a node whose function can. -/
theorem process_crashed {depth : Nat}
    (hn : ∀ caller p frames,
      (host.execute depth caller p frames).CrashesWith fun s => host.Blames s.events)
    (caller : String) (hpop : frames.pop? = some ((id, frame), rest)) (outputs : Record Json) :
    (host.process (host.execute depth) caller p id frame rest outputs).CrashesWith
      fun s => host.Blames s.events := by
  intro s s'
  refine process_cases (P := fun result => result = (.error .crashed, s') → host.Blames s'.events)
    ?_ ?_ ?_ ?_ ?_ ?_
  · exact fun _ h => nomatch h
  · exact fun _ _ _ h => nomatch h
  · exact fun _ _ _ _ _ h => nomatch h
  · exact fun _ _ _ _ _ _ _ h => nomatch h
  · intro node entry extraction halt s₂ hnode hentry hready hextract hcall h
    cases h
    let turn : host.Turn p frames :=
      ⟨id, frame, rest, node, entry, extraction, hpop, hnode, hentry, hready, hextract⟩
    rcases invokeCached_crashed hn hcall with hbelow | hself
    · exact hbelow
    · -- The firing was told before the call, and the call takes nothing back.
      have hkeeps := invokeCached_keeps depth turn caller (host.announced caller id node.function s)
      simp only [turn, Turn.args, hcall, announced_events] at hkeeps
      refine ⟨caller, p, frames, turn, hkeeps.mem ?_, hself⟩
      exact List.mem_append_right _ (List.mem_singleton_self _)
  · exact fun _ _ _ _ _ _ _ _ _ _ h => nomatch h

private theorem drain_crashed {depth : Nat}
    (hn : ∀ caller p frames,
      (host.execute depth caller p frames).CrashesWith fun s => host.Blames s.events)
    (caller : String) (steps : Nat) (frames : FrameQueue) (outputs : Record Json) :
    (host.drain (host.execute depth) caller p steps frames outputs).CrashesWith
      fun s => host.Blames s.events := by
  induction steps generalizing frames outputs with
  | zero =>
    unfold drain
    split
    · exact Run.crashesWith_result _
    · refine Run.CrashesWith.andThen ?_ fun _ => Run.crashesWith_result _
      exact (Run.crashesWith_note _).andThen fun _ => Run.crashesWith_emit _ _
  | succ steps ih =>
    unfold drain
    split
    · exact Run.crashesWith_result _
    · rename_i id frame rest hpop
      refine (process_crashed hn caller hpop outputs).andThen fun progress => ?_
      cases progress with
      | complete outputs => exact Run.crashesWith_result _
      | next frames outputs => exact ih frames outputs

/-- **An execution that crashes has told of a node whose function can crash.** -/
theorem execute_crashed (host : Host) (depth : Nat) (caller : String) (p : Program)
    (frames : FrameQueue) :
    (host.execute depth caller p frames).CrashesWith fun s => host.Blames s.events := by
  induction depth generalizing caller p frames with
  | zero => exact fun _ _ h => nomatch h
  | succ depth ih => exact drain_crashed ih caller (p.steps host.slack) frames .empty

end Host

/-! ### Top-level runs -/

namespace Environment

private theorem session_crashed (env : Environment) (depth : Nat) (run : String) (p : Program)
    (inputs : Record Json) :
    (env.session depth run p inputs).CrashesWith fun s => env.host.Blames s.events := by
  have hrun : (Host.runProgram (env.host.execute depth) p inputs mainCaller).CrashesWith
      fun s => env.host.Blames s.events :=
    (Run.crashesWith_ofExcept _).andThen fun frames => env.host.execute_crashed depth _ p frames
  unfold session
  simp only [Run.bind_eq, Run.pure_eq]
  refine (Run.crashesWith_note _).andThen fun _ => (Run.crashesWith_emit _ _).andThen fun _ => ?_
  refine hrun.attempt.andThen fun answer => ?_
  cases answer with
  | ok outputs =>
    exact (Run.crashesWith_note _).andThen fun _ =>
      (Run.crashesWith_emit _ _).andThen fun _ => Run.crashesWith_result outputs
  | error error =>
    exact (Run.crashesWith_note _).andThen fun _ =>
      (Run.crashesWith_emit _ _).andThen fun _ => Run.crashesWith_fail error

/-- A run that crashes has told of a node whose function can crash. -/
theorem runWithin_crashed {env : Environment} {depth : Nat} {run : String}
    {random : RandomSource} {p : Program} {inputs : Record Json}
    (h : (env.runWithin depth run random p inputs).outcome = .error .crashed) :
    env.host.Blames (env.runWithin depth run random p inputs).events :=
  env.session_crashed depth run p inputs _ _ (Prod.ext h rfl)

/-- **Runs end unless programs use each other in a circle.** Over a catalog without recursion there
is a depth for every program from which on nothing changes any more: neither the outcome nor the
events, the notes or the cache. The outcome is a record or an error, unless a function crashes; and
then a node has fired whose function can with its arguments. Of the library, that is `str.repeat`
when its text becomes too long. The depth depends on the catalog and the program alone, and not on
slack, cache, observer, random numbers or inputs. The programs that are cut out for callbacks are
smaller than those around them. -/
theorem answers_or_crashes {c : Catalog} (hc : c.NonRecursive) (p : Program) :
    (∃ depth, ∀ env : Environment, env.catalog = c → ∀ run random inputs,
      let report := env.runWithin depth run random p inputs
      (∀ deeper, depth ≤ deeper → env.runWithin deeper run random p inputs = report) ∧
      ((∃ answer : Except RunError (Record Json), report.outcome = answer.mapError .failed) ∨
        report.outcome = .error .crashed ∧ env.host.Blames report.events)) ∧
    (∀ f ∈ Library.functions, ∀ args callbacks, (f.runner args callbacks).Sturdy ↔
      ¬(f.name = "str.repeat" ∧ Library.Overlong args)) ∧
    ∀ q site signature frames extraction,
      Callback.extract q site signature frames = .ok extraction →
      ∀ name closure, extraction.closures.get? name = some closure →
        closure.program.size < q.size := by
  refine ⟨?_, fun f hf => Library.function_sturdy hf, ?_⟩
  · obtain ⟨depth, hdepth⟩ := Host.exists_settlesBy (hc.acc p)
    refine ⟨depth, fun env henv run random inputs => ?_⟩
    have hsettles := session_settles (hdepth env.host henv) run inputs
    refine ⟨fun deeper hdeeper => runWithin_persists hdeeper (hsettles _), ?_⟩
    exact (hsettles.ended _).imp_right fun hcrash => ⟨hcrash, runWithin_crashed hcrash⟩
  · intro q site signature frames extraction hextract name closure hclosure
    exact Callback.size_lt_of_extract hextract hclosure

/-- A node that feeds itself, beside a call of `doubled`. -/
def ringing : Program where
  input := [⟨"go", ⟨"ring", "condition"⟩, .bool⟩, ⟨"xs", ⟨"double", "xs"⟩, .arrayOf .num⟩]
  output := [⟨"echo", ⟨"ring", "echo"⟩, .bool⟩]
  nodes := .ofList [
    ("ring", ⟨"ctrl.if", [⟨"ring", "data", "condition"⟩],
      .ofList [("true", .bool true), ("false", .bool false)]⟩),
    ("double", ⟨"doubled", [], .empty⟩)]

/-- The library with `twice` and with `doubled`, which calls it from the body of a callback. -/
def withDoubled : Environment := (withTwice.addFunction "doubled" doubled).run' #[]

/-- A program that would feed itself for ever comes to an end, also with the calls below it. -/
theorem answers_or_crashes_ringing :
    withDoubled.catalog.NonRecursive ∧ ∃ depth, ∀ run random inputs,
      let report := withDoubled.runWithin depth run random ringing inputs
      (∀ deeper, depth ≤ deeper →
        withDoubled.runWithin deeper run random ringing inputs = report) ∧
      ((∃ answer : Except RunError (Record Json), report.outcome = answer.mapError .failed) ∨
        report.outcome = .error .crashed ∧ withDoubled.host.Blames report.events) := by
  have hc : withDoubled.catalog.NonRecursive :=
    Catalog.nonRecursive_of_rank
      (fun name => if name = "doubled" then 2 else if name = "twice" then 1 else 0)
      (by decide +kernel)
  obtain ⟨⟨depth, hdepth⟩, -⟩ := answers_or_crashes hc ringing
  exact ⟨hc, depth, fun run random inputs => hdepth withDoubled rfl run random inputs⟩

/-- A text is repeated that becomes too long, beside a choice that gives the output. -/
def repeating : Program where
  input := []
  output := [⟨"out", ⟨"pick", "data"⟩, .bool⟩]
  nodes := .ofList [
    ("long", ⟨"str.repeat", [],
      .ofList [("str", .string "ab"), ("repeatNum", .number (.integer 10000000000000000000))]⟩),
    ("pick", ⟨"ctrl.if", [],
      .ofList [("condition", .bool true), ("true", .bool true), ("false", .bool false)]⟩)]

/-- The library without a cache, under the defaults. -/
def plain : Environment := ⟨Library.catalog, ⟨none, 10, false⟩, none, fun _ => none⟩

/-- A clean program of two library functions without any edges between them, and no depth at which
there is an answer. -/
theorem repetition_crashes :
    plain.catalog.NonRecursive ∧ plain.validate repeating = [] ∧ ∀ depth, 0 < depth →
      (plain.runWithin depth "" default repeating .empty).outcome = .error .crashed := by
  refine ⟨Catalog.nonRecursive_of_rank (fun _ => 0) (by decide +kernel), by decide +kernel,
    fun depth hdepth => ?_⟩
  have hcrash : (plain.runWithin 1 "" default repeating .empty).outcome = .error .crashed := by
    decide +kernel
  rw [runWithin_persists hdepth (by simp [hcrash]), hcrash]

end Environment

end Dataflow
