/-
Runs neither set a cache up nor throw it away.

A run that starts without a cache ends without one, however it ends.

* `Run.Steady` — there is a cache afterwards just when there was one before;
* `Host.execute_steady`, `Host.invoke_steady` — executions and calls are steady.
-/
import Mathlib
import Dataflow.Proofs.CachedCall
import Dataflow.Proofs.Firing
namespace Dataflow

namespace Run

variable {α β : Type}

/-- There is a cache after the run just when there was one before. -/
def Steady (r : Run α) : Prop := ∀ s, (r s).2.cache.isSome = s.cache.isSome

theorem Steady.cache_eq {r : Run α} (hr : r.Steady) {s s' : Session} {outcome : Except Halt α}
    (h : r s = (outcome, s')) : s'.cache.isSome = s.cache.isSome := by
  rw [← hr s, h]

theorem Steady.andThen {r : Run α} {f : α → Run β} (hr : r.Steady) (hf : ∀ a, (f a).Steady) :
    (r.andThen f).Steady := by
  intro s
  rcases h : r s with ⟨halt | a, s'⟩
  · rw [andThen_of_error h]
    exact hr.cache_eq h
  · rw [andThen_of_ok h, hf a s']
    exact hr.cache_eq h

theorem Steady.attempt {r : Run α} (hr : r.Steady) : r.attempt.Steady := by
  intro s
  rw [attempt_eq]
  exact hr s

private theorem steady_result (a : α) : (result a).Steady := fun _ => rfl

private theorem steady_halt (h : Halt) : (halt h : Run α).Steady := fun _ => rfl

private theorem steady_ofExcept (e : Except RunError α) : (ofExcept e).Steady := by
  cases e with
  | ok a => exact steady_result a
  | error error => exact steady_halt (.failed error)

theorem steady_note (n : Note) : (note n).Steady := fun _ => rfl

private theorem steady_random : random.Steady := by
  intro s
  rcases h : s.random.next with ⟨x, source⟩
  simp only [random, h]

end Run

/-- Where there was no cache and none was set up, there is none. -/
theorem Session.cache_eq_none {s s' : Session} (hs : s.cache = none)
    (h : s'.cache.isSome = s.cache.isSome) : s'.cache = none := by
  rw [hs] at h
  exact Option.isNone_iff_eq_none.1 (Option.isSome_eq_false_iff.1 h)

private theorem Script.perform_steady {α : Type} {answer : String → Record Json → Run (Record Json)}
    (h : ∀ callback args, (answer callback args).Steady) (script : Script α) :
    (script.perform answer).Steady := by
  induction script with
  | done a => exact Run.steady_result a
  | fail error => exact Run.steady_halt (.failed error)
  | crash => exact Run.steady_halt .crashed
  | call callback args resume ih => exact (h callback args).attempt.andThen ih
  | remark level text next ih => exact (Run.steady_note _).andThen fun _ => ih
  | random resume ih => exact Run.steady_random.andThen ih

/-- Nested runs are steady. -/
def Executor.Steady (nested : Executor) : Prop :=
  ∀ caller p frames, (nested caller p frames).Steady

namespace Host

variable {host : Host} {nested : Executor}

theorem callClosure_steady (hn : nested.Steady) (closures : Record Closure) (caller name : String)
    (args : Record Json) : (callClosure nested closures caller name args).Steady := by
  rw [callClosure]
  cases closures.get? name with
  | none => exact Run.steady_halt _
  | some closure => exact (Run.steady_ofExcept _).andThen fun frames => hn caller _ frames

theorem invoke_steady (hn : nested.Steady) (function : String) (entry : Entry)
    (args : Record Json) (closures : Record Closure) (caller : String) :
    (invoke nested function entry args closures caller).Steady := by
  cases entry with
  | native signature runner =>
    exact Script.perform_steady (callClosure_steady hn closures caller) _
  | program signature p =>
    refine Run.Steady.andThen (Run.Steady.andThen (Run.steady_ofExcept _) fun frames => ?_)
      fun values => Run.steady_result _
    exact hn function p frames

private theorem invokeCached_steady (hn : nested.Steady) (host : Host) (function : String)
    (entry : Entry) (args : Record Json) (closures : Record Closure) (caller : String) :
    (host.invokeCached nested function entry args closures caller).Steady := by
  intro s
  rcases invokeCached_follows host nested function entry args closures caller s with
    ⟨outputs, s', hs', hhit⟩ | ⟨s₁, s₂, hs₁, hs₂, hcall⟩
  · rw [hhit, hs']
  · rw [hcall, hs₂, invoke_steady hn function entry args closures caller s₁, hs₁]

theorem Processed.steady (hn : nested.Steady) {caller : String} {p : Program} {id : String}
    {frame : Frame} {frames : FrameQueue} {outputs : Record Json} {s : Session}
    {firing : Option Firing} {result : Except Halt Progress × Session}
    (h : host.Processed nested caller p id frame frames outputs s firing result) :
    result.2.cache.isSome = s.cache.isSome := by
  cases h with
  | unknown _ _ | unwired _ _ _ _ => rfl
  | dropped _ hquiet | deferred _ _ _ hquiet => rw [hquiet.cache]
  | failed _ _ _ _ hquiet hcall =>
    rw [(invokeCached_steady hn host _ _ _ _ _).cache_eq hcall, hquiet.cache]
  | fired _ _ _ _ hquiet hcall hquiet' =>
    rw [hquiet'.cache, (invokeCached_steady hn host _ _ _ _ _).cache_eq hcall, hquiet.cache]

theorem Drained.steady (hn : nested.Steady) {caller : String} {p : Program} {steps : Nat}
    {frames : FrameQueue} {outputs : Record Json} {s : Session} {log : List Firing}
    {final : Except Halt (Record Json) × Session}
    (h : host.Drained nested caller p steps frames outputs s log final) :
    final.2.cache.isSome = s.cache.isSome := by
  induction h with
  | empty _ => rfl
  | exhausted hquiet => rw [hquiet.cache]
  | halted _ hprocessed | complete _ hprocessed => exact hprocessed.steady hn
  | next _ hprocessed _ ih => rw [ih, hprocessed.steady hn]

/-- Executions are steady, at every depth. -/
theorem execute_steady (host : Host) (depth : Nat) : (host.execute depth).Steady := by
  induction depth with
  | zero => exact fun _ _ _ => Run.steady_halt .outOfDepth
  | succ depth ih => exact fun _ p frames s => (drain_drained _ frames .empty s).steady ih

end Host

end Dataflow
