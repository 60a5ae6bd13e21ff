/-
In whose name a program runs changes only what is told about it.

The caller's name goes into events and notes and nowhere else. So two executions of one program in
different names, started from sessions with the same cache and the same source of random numbers,
end in the same way, in sessions that again have both in common. Nothing is asked of the functions:
they may draw numbers, since both sides draw the same ones.

* `Run.Mirrors` — computations that do the same but for what they tell;
* `Host.execute_mirrors` — executions in different names mirror each other;
* `Host.runProgram_mirrors` — so do runs from inputs.
-/
import Mathlib
import Dataflow.Proofs.Delivery
namespace Dataflow

namespace Session.Quiet

variable {s s' t t' : Session}

theorem symm (h : s.Quiet s') : s'.Quiet s := ⟨h.cache.symm, h.random.symm⟩

/-- Both sides may go on, as long as they only tell and note. -/
theorem congr (h : s.Quiet t) (hs : s.Quiet s') (ht : t.Quiet t') : s'.Quiet t' :=
  hs.symm.trans (h.trans ht)

end Session.Quiet

namespace Run

variable {α β : Type}

/-- From sessions that differ in events and notes only, both computations end in the same way, in
sessions that differ in events and notes only. -/
def Mirrors (r t : Run α) : Prop :=
  ∀ s s', s.Quiet s' → (t s').1 = (r s).1 ∧ (r s).2.Quiet (t s').2

/-- Both sides end at once and in the same way. -/
theorem Mirrors.of_outcome {r t : Run α} (outcome : Except Halt α)
    (hr : ∀ s, (r s).1 = outcome ∧ s.Quiet (r s).2)
    (ht : ∀ s, (t s).1 = outcome ∧ s.Quiet (t s).2) : Mirrors r t := by
  intro s s' hquiet
  refine ⟨?_, hquiet.congr (hr s).2 (ht s').2⟩
  rw [(hr s).1, (ht s').1]

private theorem mirrors_result (a : α) : Mirrors (result a) (result a) := fun _ _ h => ⟨rfl, h⟩

private theorem mirrors_halt (h : Halt) : Mirrors (halt h : Run α) (halt h) := fun _ _ h => ⟨rfl, h⟩

private theorem mirrors_ofExcept (e : Except RunError α) : Mirrors (ofExcept e) (ofExcept e) := by
  cases e with
  | ok a => exact mirrors_result a
  | error error => exact mirrors_halt (.failed error)

private theorem mirrors_note (n n' : Note) : Mirrors (note n) (note n') :=
  .of_outcome (.ok ()) (fun s => ⟨rfl, .note n s⟩) fun s => ⟨rfl, .note n' s⟩

private theorem mirrors_emit (observer : Observer) (e e' : Event) :
    Mirrors (emit observer e) (emit observer e') :=
  .of_outcome (.ok ()) (fun s => ⟨(emit_outcome observer e s).1, .emit observer e s⟩)
    fun s => ⟨(emit_outcome observer e' s).1, .emit observer e' s⟩

/-- Both sides draw the same number, since they draw it from the same source. -/
theorem mirrors_random : Mirrors random random := by
  intro s s' h
  unfold random
  rw [h.random]
  -- which number comes next does not matter
  generalize s.random.next = drawn
  obtain ⟨x, source⟩ := drawn
  exact ⟨rfl, h.cache, rfl⟩

private theorem mirrors_cache? : Mirrors cache? cache? := by
  intro s s' h
  refine ⟨?_, h⟩
  simp only [cache?, h.cache]

private theorem mirrors_setCache (cache : MemoCache) : Mirrors (setCache cache) (setCache cache) :=
  fun _ _ h => ⟨rfl, rfl, h.random⟩

theorem Mirrors.andThen {r t : Run α} {f g : α → Run β} (hr : Mirrors r t)
    (hf : ∀ a, Mirrors (f a) (g a)) : Mirrors (r.andThen f) (t.andThen g) := by
  intro s s' hquiet
  obtain ⟨hout, hafter⟩ := hr s s' hquiet
  -- the second side ends as the first does, in its own session
  have ht : t s' = ((r s).1, (t s').2) := Prod.ext hout rfl
  rcases h : r s with ⟨halt | a, s₁⟩
  · rw [h] at ht hafter
    rw [andThen_of_error h, andThen_of_error ht]
    exact ⟨rfl, hafter⟩
  · rw [h] at ht hafter
    rw [andThen_of_ok h, andThen_of_ok ht]
    exact hf a s₁ _ hafter

theorem Mirrors.attempt {r t : Run α} (hr : Mirrors r t) : Mirrors r.attempt t.attempt := by
  intro s s' hquiet
  obtain ⟨hout, hafter⟩ := hr s s' hquiet
  rw [attempt_eq, attempt_eq, hout]
  exact ⟨rfl, hafter⟩

end Run

private theorem Script.perform_mirrors {α : Type}
    {answer answer' : String → Record Json → Run (Record Json)}
    (h : ∀ callback args, (answer callback args).Mirrors (answer' callback args))
    (script : Script α) : (script.perform answer).Mirrors (script.perform answer') := by
  induction script with
  | done a => exact Run.mirrors_result a
  | fail error => exact Run.mirrors_halt (.failed error)
  | crash => exact Run.mirrors_halt .crashed
  | call callback args resume ih => exact (h callback args).attempt.andThen ih
  | remark level text next ih => exact (Run.mirrors_note _ _).andThen fun _ => ih
  | random resume ih => exact Run.mirrors_random.andThen ih

/-- Nested runs do the same on both sides, in whosever name. -/
def Executor.Mirrors (nested nested' : Executor) : Prop :=
  ∀ caller caller' p frames, (nested caller p frames).Mirrors (nested' caller' p frames)

namespace Host

variable {host : Host} {nested nested' : Executor}

/-! ### Calls -/

theorem runProgram_mirrors (hn : nested.Mirrors nested') (p : Program) (inputs : Record Json)
    (caller caller' : String) :
    (runProgram nested p inputs caller).Mirrors (runProgram nested' p inputs caller') :=
  (Run.mirrors_ofExcept _).andThen fun frames => hn caller caller' p frames

private theorem callClosure_mirrors (hn : nested.Mirrors nested') (closures : Record Closure)
    (caller caller' name : String) (args : Record Json) :
    (callClosure nested closures caller name args).Mirrors
      (callClosure nested' closures caller' name args) := by
  unfold callClosure
  cases closures.get? name with
  | none => exact Run.mirrors_halt _
  | some closure => exact (Run.mirrors_ofExcept _).andThen fun frames => hn caller caller' _ frames

private theorem invoke_mirrors (hn : nested.Mirrors nested') (function : String) (entry : Entry)
    (args : Record Json) (closures : Record Closure) (caller caller' : String) :
    (invoke nested function entry args closures caller).Mirrors
      (invoke nested' function entry args closures caller') := by
  cases entry with
  | native signature runner =>
    exact Script.perform_mirrors (callClosure_mirrors hn closures caller caller') _
  | program signature p =>
    exact (runProgram_mirrors hn p args function function).andThen fun _ => Run.mirrors_result _

private theorem fetch_mirrors (key : String) : (fetch key).Mirrors (fetch key) := by
  refine Run.mirrors_cache?.andThen fun cache => ?_
  cases cache with
  | none => exact Run.mirrors_result _
  | some cache => exact (Run.mirrors_setCache _).andThen fun _ => Run.mirrors_result _

private theorem remember_mirrors (key : String) (outputs : Outputs) :
    (remember key outputs).Mirrors (remember key outputs) := by
  refine Run.mirrors_cache?.andThen fun cache => ?_
  cases cache with
  | none => exact Run.mirrors_result _
  | some cache => exact Run.mirrors_setCache _

private theorem invokeCached_mirrors (hn : nested.Mirrors nested') (function : String)
    (entry : Entry) (args : Record Json) (closures : Record Closure) (caller caller' : String) :
    (host.invokeCached nested function entry args closures caller).Mirrors
      (host.invokeCached nested' function entry args closures caller') := by
  have hinvoke := invoke_mirrors hn function entry args closures caller caller'
  unfold invokeCached
  simp only [Run.bind_eq, Run.pure_eq]
  refine Run.mirrors_cache?.andThen fun cache => ?_
  cases cacheKey? cache function args closures with
  | none => exact hinvoke
  | some key =>
    refine (fetch_mirrors key).andThen fun found => ?_
    cases found with
    | some outputs =>
      refine (Run.mirrors_note _ _).andThen fun _ => ?_
      exact (Run.mirrors_emit _ _ _).andThen fun _ => Run.mirrors_result outputs
    | none =>
      refine hinvoke.andThen fun outputs => ?_
      exact (remember_mirrors key outputs).andThen fun _ => Run.mirrors_result outputs

/-! ### The scheduler -/

private theorem deliver_mirrors (host : Host) (id : String) (signature : Signature)
    (results : Outputs) (edges : List Edge) (frames : FrameQueue) :
    (host.deliver id signature results edges frames).Mirrors
      (host.deliver id signature results edges frames) := by
  have hspec : ∀ s, (host.deliver id signature results edges frames s).1 =
      .ok (frames.receiveAll (Delivery.ofFiring signature results edges)) ∧
        s.Quiet (host.deliver id signature results edges frames s).2 := by
    intro s
    obtain ⟨s', hquiet, hdeliver⟩ := host.deliver_spec id signature results edges frames s
    rw [hdeliver]
    exact ⟨rfl, hquiet⟩
  exact .of_outcome _ hspec hspec

private theorem fire_mirrors (hn : nested.Mirrors nested') (caller caller' : String) (p : Program)
    (id : String) (node : Node) (entry : Entry) (frame : Frame) (frames : FrameQueue) :
    (host.fire nested caller p id node entry frame frames).Mirrors
      (host.fire nested' caller' p id node entry frame frames) := by
  unfold fire
  simp only [Run.bind_eq, Run.pure_eq]
  refine (Run.mirrors_ofExcept _).andThen fun extraction => ?_
  -- only here are the two names told
  refine (Run.mirrors_note _ _).andThen fun _ => (Run.mirrors_emit _ _ _).andThen fun _ => ?_
  refine (invokeCached_mirrors hn _ _ _ _ caller caller').andThen fun results => ?_
  exact (deliver_mirrors host id _ results _ _).andThen fun frames => Run.mirrors_result _

private theorem process_mirrors (hn : nested.Mirrors nested') (caller caller' : String)
    (p : Program) (id : String) (frame : Frame) (frames : FrameQueue) (outputs : Record Json) :
    (host.process nested caller p id frame frames outputs).Mirrors
      (host.process nested' caller' p id frame frames outputs) := by
  unfold process
  cases p.node? id with
  | none => exact (Run.mirrors_note _ _).andThen fun _ => Run.mirrors_result _
  | some node =>
    simp only
    cases host.catalog.get? node.function with
    | none => exact Run.mirrors_halt _
    | some entry =>
      simp only
      split
      · refine (fire_mirrors hn caller caller' p id node entry frame frames).andThen fun fired => ?_
        split <;> exact Run.mirrors_result _
      · exact (Run.mirrors_note _ _).andThen fun _ => Run.mirrors_result _

private theorem exhaust_mirrors (host : Host) (caller caller' : String) (pending : List String) :
    (host.exhaust caller pending).Mirrors (host.exhaust caller' pending) :=
  (Run.mirrors_note _ _).andThen fun _ => Run.mirrors_emit _ _ _

private theorem drain_mirrors (hn : nested.Mirrors nested') (caller caller' : String) (p : Program)
    (steps : Nat) (frames : FrameQueue) (outputs : Record Json) :
    (host.drain nested caller p steps frames outputs).Mirrors
      (host.drain nested' caller' p steps frames outputs) := by
  induction steps generalizing frames outputs with
  | zero =>
    simp only [drain]
    cases frames.pop? with
    | none => exact Run.mirrors_result _
    | some popped =>
      exact (exhaust_mirrors host caller caller' _).andThen fun _ => Run.mirrors_result _
  | succ steps ih =>
    simp only [drain]
    cases frames.pop? with
    | none => exact Run.mirrors_result _
    | some popped =>
      refine (process_mirrors hn caller caller' p _ _ _ outputs).andThen fun progress => ?_
      cases progress with
      | complete outputs => exact Run.mirrors_result _
      | next frames outputs => exact ih frames outputs

/-- **Executions in different names mirror each other.** -/
theorem execute_mirrors (host : Host) (depth : Nat) :
    (host.execute depth).Mirrors (host.execute depth) := by
  induction depth with
  | zero =>
    intro caller caller' p frames
    exact Run.mirrors_halt _
  | succ depth ih =>
    intro caller caller' p frames
    exact drain_mirrors ih caller caller' p _ frames .empty

end Host

end Dataflow
