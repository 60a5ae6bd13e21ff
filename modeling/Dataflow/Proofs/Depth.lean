/-
Following calls deeper changes no answer.

An execution that follows calls to a given depth either runs out of depth or has an answer, and an
answer persists: a greater depth gives the same outcome in the same session. This needs nothing of
the functions; they may draw random numbers and use a cache.

* `Run.Persists` — one computation answers whatever another does, and in the same way;
* `Host.execute_persists` — the answers of executions persist as the depth grows;
* `Environment.runWithin_persists` — so do those of top-level runs.
-/
import Mathlib
import Dataflow.Environment
import Dataflow.Proofs.Run
namespace Dataflow

namespace Run

variable {α β : Type}

/-- Whatever `r` answers, `t` answers too. -/
def Persists (r t : Run α) : Prop := ∀ s, (r s).1 ≠ .error .outOfDepth → t s = r s

theorem Persists.refl (r : Run α) : r.Persists r := fun _ _ => rfl

theorem Persists.andThen {r t : Run α} {f g : α → Run β} (hr : r.Persists t)
    (hf : ∀ a, (f a).Persists (g a)) : (r.andThen f).Persists (t.andThen g) := by
  intro s hs
  rcases h : r s with ⟨halt | a, s'⟩
  · rw [andThen_of_error h] at hs ⊢
    have hne : (r s).1 ≠ .error .outOfDepth := by
      intro hout
      rw [h] at hout
      cases hout
      exact hs rfl
    exact andThen_of_error ((hr s hne).trans h)
  · rw [andThen_of_ok h] at hs ⊢
    have ht : t s = (.ok a, s') := by rw [hr s (by simp [h]), h]
    rw [andThen_of_ok ht]
    exact hf a s' hs

theorem Persists.attempt {r t : Run α} (hr : r.Persists t) : r.attempt.Persists t.attempt := by
  intro s hs
  have hne : (r s).1 ≠ .error .outOfDepth := by
    intro h
    refine hs ?_
    have hr : r s = (.error .outOfDepth, (r s).2) := Prod.ext h rfl
    rw [attempt_of_outOfDepth hr]
  rw [Run.attempt, Run.attempt, hr s hne]

end Run

private theorem Script.perform_persists {α : Type}
    {answer answer' : String → Record Json → Run (Record Json)}
    (h : ∀ callback args, (answer callback args).Persists (answer' callback args))
    (script : Script α) : (script.perform answer).Persists (script.perform answer') := by
  induction script with
  | done a => exact .refl _
  | fail error => exact .refl _
  | crash => exact .refl _
  | call callback args resume ih => exact (h callback args).attempt.andThen ih
  | remark level text next ih => exact (Run.Persists.refl _).andThen fun _ => ih
  | random resume ih => exact (Run.Persists.refl _).andThen ih

/-- Whatever nested runs answer on one side, they answer on the other. -/
def Executor.Persists (nested nested' : Executor) : Prop :=
  ∀ caller p frames, (nested caller p frames).Persists (nested' caller p frames)

namespace Host

variable {host : Host} {nested nested' : Executor}

private theorem runProgram_persists (hn : nested.Persists nested') (p : Program)
    (inputs : Record Json) (caller : String) :
    (runProgram nested p inputs caller).Persists (runProgram nested' p inputs caller) :=
  (Run.Persists.refl _).andThen fun frames => hn caller p frames

private theorem callClosure_persists (hn : nested.Persists nested') (closures : Record Closure)
    (caller name : String) (args : Record Json) :
    (callClosure nested closures caller name args).Persists
      (callClosure nested' closures caller name args) := by
  unfold callClosure
  cases closures.get? name with
  | none => exact .refl _
  | some closure => exact (Run.Persists.refl _).andThen fun frames => hn caller _ frames

private theorem invoke_persists (hn : nested.Persists nested') (function : String) (entry : Entry)
    (args : Record Json) (closures : Record Closure) (caller : String) :
    (invoke nested function entry args closures caller).Persists
      (invoke nested' function entry args closures caller) := by
  cases entry with
  | native signature runner =>
    exact Script.perform_persists (callClosure_persists hn closures caller) _
  | program signature p =>
    exact (runProgram_persists hn p args function).andThen fun values => .refl _

private theorem invokeCached_persists (hn : nested.Persists nested') (function : String)
    (entry : Entry) (args : Record Json) (closures : Record Closure) (caller : String) :
    (host.invokeCached nested function entry args closures caller).Persists
      (host.invokeCached nested' function entry args closures caller) := by
  have hinvoke := invoke_persists hn function entry args closures caller
  unfold invokeCached
  simp only [Run.bind_eq]
  refine (Run.Persists.refl _).andThen fun cache => ?_
  cases cacheKey? cache function args closures with
  | none => exact hinvoke
  | some key =>
    refine (Run.Persists.refl _).andThen fun found => ?_
    cases found with
    | some outputs => exact .refl _
    | none => exact hinvoke.andThen fun outputs => .refl _

private theorem fire_persists (hn : nested.Persists nested') (caller : String) (p : Program)
    (id : String) (node : Node) (entry : Entry) (frame : Frame) (frames : FrameQueue) :
    (host.fire nested caller p id node entry frame frames).Persists
      (host.fire nested' caller p id node entry frame frames) := by
  refine (Run.Persists.refl _).andThen fun extraction => ?_
  refine (Run.Persists.refl _).andThen fun _ => (Run.Persists.refl _).andThen fun _ => ?_
  exact (invokeCached_persists hn _ _ _ _ _).andThen fun results => .refl _

private theorem process_persists (hn : nested.Persists nested') (caller : String) (p : Program)
    (id : String) (frame : Frame) (frames : FrameQueue) (outputs : Record Json) :
    (host.process nested caller p id frame frames outputs).Persists
      (host.process nested' caller p id frame frames outputs) := by
  unfold process
  cases p.node? id with
  | none => exact .refl _
  | some node =>
    simp only
    cases host.catalog.get? node.function with
    | none => exact .refl _
    | some entry =>
      simp only
      split
      · exact (fire_persists hn caller p id node entry frame frames).andThen fun fired => .refl _
      · exact .refl _

theorem drain_persists (hn : nested.Persists nested') (caller : String) (p : Program) (steps : Nat)
    (frames : FrameQueue) (outputs : Record Json) :
    (host.drain nested caller p steps frames outputs).Persists
      (host.drain nested' caller p steps frames outputs) := by
  induction steps generalizing frames outputs with
  | zero => exact .refl _
  | succ steps ih =>
    simp only [drain]
    cases frames.pop? with
    | none => exact .refl _
    | some popped =>
      refine (process_persists hn caller p _ _ _ outputs).andThen fun progress => ?_
      cases progress with
      | complete outputs => exact .refl _
      | next frames outputs => exact ih frames outputs

/-- **Answers persist as the depth grows.** -/
theorem execute_persists {depth deeper : Nat} (h : depth ≤ deeper) :
    (host.execute depth).Persists (host.execute deeper) := by
  induction depth generalizing deeper with
  | zero =>
    -- At depth zero there is no answer that would have to persist.
    intro caller p frames s hs
    exact absurd rfl hs
  | succ depth ih =>
    obtain ⟨deeper, rfl⟩ : ∃ k, deeper = k + 1 := ⟨deeper - 1, by omega⟩
    intro caller p frames
    exact drain_persists (ih (by omega)) caller p _ frames .empty

end Host

namespace Environment

variable {env : Environment}

/-- A top-level run over whatever runs its programs. -/
def sessionOf (env : Environment) (nested : Executor) (run : String) (p : Program)
    (inputs : Record Json) : Run (Record Json) := do
  Run.note (.runStarted run p.size)
  Run.emit env.observer .runStarted
  match ← (Host.runProgram nested p inputs mainCaller).attempt with
  | .ok outputs =>
    Run.note (.runCompleted run outputs.names)
    Run.emit env.observer (.runCompleted outputs.names)
    return outputs
  | .error error =>
    Run.note (.runFailed run error.message)
    Run.emit env.observer (.runFailed error.message)
    Run.fail error

private theorem session_eq (env : Environment) (depth : Nat) :
    env.session depth = env.sessionOf (env.host.execute depth) := rfl

theorem sessionOf_persists {nested nested' : Executor} (hn : nested.Persists nested') (run : String)
    (p : Program) (inputs : Record Json) :
    (env.sessionOf nested run p inputs).Persists (env.sessionOf nested' run p inputs) := by
  unfold sessionOf
  simp only [Run.bind_eq]
  refine (Run.Persists.refl _).andThen fun _ => (Run.Persists.refl _).andThen fun _ => ?_
  exact (Host.runProgram_persists hn p inputs mainCaller).attempt.andThen fun answer => .refl _

/-- A top-level run that has an answer has the same report at every greater depth. -/
theorem runWithin_persists {depth deeper : Nat} (h : depth ≤ deeper) {run : String}
    {random : RandomSource} {p : Program} {inputs : Record Json}
    (hanswer : (env.runWithin depth run random p inputs).outcome ≠ .error .outOfDepth) :
    env.runWithin deeper run random p inputs = env.runWithin depth run random p inputs := by
  have hsession := sessionOf_persists (Host.execute_persists h) run p inputs
    ⟨env.cache.map MemoCache.clear, #[], #[], random⟩ hanswer
  rw [← session_eq, ← session_eq] at hsession
  simp only [runWithin, hsession]

end Environment

end Dataflow
