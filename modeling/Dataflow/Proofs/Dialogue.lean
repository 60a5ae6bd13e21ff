/-
The dialogue of a script with its callbacks.

A script and whatever answers its calls take turns. The dialogue of a run lists the calls in their
order, each with what came back, so that a statement can speak about the calls that were made and
not only about the result. It ends where the run ends: a call that cannot be followed is its last
exchange.

* `Script.dialogue` — the exchanges of a run;
* `Script.perform_bind`, `Script.dialogue_bind` — one script after another;
* `Script.Tells` — what the dialogue and the outcome of a script have to do with each other;
* `Library.consult_tells` — one consultation is one exchange.
-/
import Mathlib
import Dataflow.Proofs.Habit
import Dataflow.Proofs.Library
namespace Dataflow

namespace Run

variable {α β γ : Type}

/-- What the run is followed by, which is nothing if it has no result. -/
def collect (r : Run α) (next : α → Session → List γ) (s : Session) : List γ :=
  match r s with
  | (.ok a, s) => next a s
  | (.error _, _) => []

theorem collect_of_ok {r : Run α} {next : α → Session → List γ} {s s' : Session} {a : α}
    (h : r s = (.ok a, s')) : r.collect next s = next a s' := by
  rw [collect, h]

theorem collect_of_error {r : Run α} {next : α → Session → List γ} {s s' : Session} {halt : Halt}
    (h : r s = (.error halt, s')) : r.collect next s = [] := by
  rw [collect, h]

private theorem exists_of_mem_collect {r : Run α} {next : α → Session → List γ} {s : Session}
    {c : γ} (h : c ∈ r.collect next s) : ∃ a s', c ∈ next a s' := by
  rcases hr : r s with ⟨halt | a, s'⟩
  · rw [collect_of_error hr] at h
    cases h
  · rw [collect_of_ok hr] at h
    exact ⟨a, s', h⟩

private theorem collect_andThen (r : Run α) (f : α → Run β) (next : β → Session → List γ)
    (s : Session) :
    (r.andThen f).collect next s = r.collect (fun a => (f a).collect next) s := by
  rcases h : r s with ⟨halt | a, s'⟩
  · rw [collect_of_error h, collect_of_error (andThen_of_error h)]
  · rw [collect_of_ok h, collect, andThen_of_ok h, collect]

private theorem collect_append {r : Run α} {next next₁ next₂ : α → Session → List γ}
    (h : ∀ a s, next a s = next₁ a s ++ next₂ a s) (s : Session) :
    r.collect next s = r.collect next₁ s ++ r.collect next₂ s := by
  rcases hr : r s with ⟨halt | a, s'⟩
  · simp only [collect_of_error hr, List.append_nil]
  · simp only [collect_of_ok hr, h]

end Run

namespace Script

variable {α β : Type} {answer : String → Record Json → Run (Record Json)}

/-- A call and what came back. -/
structure Exchange where
  callback : String
  args : Record Json
  reply : Except Halt (Record Json)

/-- The calls of a run in their order. -/
def dialogue (answer : String → Record Json → Run (Record Json)) :
    Script α → Session → List Exchange
  | .done _, _ | .fail _, _ | .crash, _ => []
  | .call callback args resume, s =>
    ⟨callback, args, (answer callback args s).1⟩ ::
      (answer callback args).attempt.collect (fun reply => dialogue answer (resume reply)) s
  | .remark level text next, s =>
    (Run.note (.remark level text)).collect (fun _ => dialogue answer next) s
  | .random resume, s => Run.random.collect (fun x => dialogue answer (resume x)) s

/-- What came back is what the callback was run for. -/
theorem reply_of_mem_dialogue {script : Script α} {s : Session} {e : Exchange}
    (h : e ∈ script.dialogue answer s) : ∃ s', e.reply = (answer e.callback e.args s').1 := by
  induction script generalizing s with
  | done a => cases h
  | fail error => cases h
  | crash => cases h
  | call callback args resume ih =>
    rcases List.mem_cons.1 h with rfl | h
    · exact ⟨s, rfl⟩
    · obtain ⟨reply, s', h⟩ := Run.exists_of_mem_collect h
      exact ih reply h
  | remark level text next ih =>
    obtain ⟨_, s', h⟩ := Run.exists_of_mem_collect h
    exact ih h
  | random resume ih =>
    obtain ⟨x, s', h⟩ := Run.exists_of_mem_collect h
    exact ih x h

/-! ### One script after another -/

theorem perform_bind (script : Script α) (f : α → Script β) :
    (script >>= f).perform answer =
      (script.perform answer).andThen fun a => (f a).perform answer := by
  show (script.bind f).perform answer = _
  induction script with
  | done a => rfl
  | fail error => rfl
  | crash => rfl
  | call callback args resume ih => simp only [Script.bind, perform, Run.andThen_assoc, ih]
  | remark level text next ih => simp only [Script.bind, perform, Run.andThen_assoc, ih]
  | random resume ih => simp only [Script.bind, perform, Run.andThen_assoc, ih]

theorem dialogue_bind (script : Script α) (f : α → Script β) (s : Session) :
    (script >>= f).dialogue answer s = script.dialogue answer s ++
      (script.perform answer).collect (fun a => (f a).dialogue answer) s := by
  show (script.bind f).dialogue answer s = _
  induction script generalizing s with
  | done a => rfl
  | fail error => rfl
  | crash => rfl
  | call callback args resume ih =>
    simp only [Script.bind, dialogue, perform, Run.collect_andThen, List.cons_append]
    rw [Run.collect_append ih]
  | remark level text next ih =>
    simp only [Script.bind, dialogue, perform, Run.collect_andThen]
    exact Run.collect_append (fun _ => ih) s
  | random resume ih =>
    simp only [Script.bind, dialogue, perform, Run.collect_andThen]
    exact Run.collect_append ih s

/-- Whatever the session, the dialogue and the outcome are related. -/
def Tells (answer : String → Record Json → Run (Record Json)) (script : Script α)
    (R : List Exchange → Except Halt α → Prop) : Prop :=
  ∀ s, R (script.dialogue answer s) (script.perform answer s).1

theorem tells_done {R : List Exchange → Except Halt α → Prop} {a : α} (h : R [] (.ok a)) :
    Tells answer (.done a) R := fun _ => h

/-- A second script adds to the dialogue of a first that has a result. -/
theorem Tells.bind {R : List Exchange → Except Halt α → Prop}
    {S : List Exchange → Except Halt β → Prop} {script : Script α} {f : α → Script β}
    (h : Tells answer script R) (halted : ∀ log halt, R log (.error halt) → S log (.error halt))
    (next : ∀ log a, R log (.ok a) →
      Tells answer (f a) fun log' outcome => S (log ++ log') outcome) :
    Tells answer (script >>= f) S := by
  intro s
  have hfirst := h s
  rw [dialogue_bind, perform_bind]
  rcases hrun : script.perform answer s with ⟨halt | a, s'⟩ <;> rw [hrun] at hfirst
  · rw [Run.collect_of_error hrun, Run.andThen_of_error hrun, List.append_nil]
    exact halted _ halt hfirst
  · rw [Run.collect_of_ok hrun, Run.andThen_of_ok hrun]
    exact next _ a hfirst s'

/-! ### Consultations -/

/-- To ask is to run the callback. -/
theorem perform_ask (callback : String) (args : Record Json) :
    (ask callback args).perform answer = answer callback args := by
  funext s
  show (answer callback args).attempt.andThen (fun reply => (ofExcept reply).perform answer) s = _
  rcases h : answer callback args s with ⟨(error | _ | _) | outputs, s'⟩
  · rw [Run.andThen_of_ok (Run.attempt_of_failed h)]
    rfl
  · rw [Run.andThen_of_error (Run.attempt_of_crashed h)]
  · rw [Run.andThen_of_error (Run.attempt_of_outOfDepth h)]
  · rw [Run.andThen_of_ok (Run.attempt_of_ok h)]
    rfl

private theorem dialogue_ask (callback : String) (args : Record Json) (s : Session) :
    (ask callback args).dialogue answer s = [⟨callback, args, (answer callback args s).1⟩] := by
  refine congrArg (List.cons _) ?_
  rcases h : (answer callback args).attempt s with ⟨halt | (error | outputs), s'⟩
  · exact Run.collect_of_error h
  · exact Run.collect_of_ok h
  · exact Run.collect_of_ok h

/-- What an exchange gives to a function that asks for the output `callback`. -/
def Exchange.value (e : Exchange) : Except Halt Json :=
  match e.reply with
  | .error halt => .error halt
  | .ok outputs =>
    match outputs.get? "callback" with
    | some value => .ok value
    | none => .error (.failed (.executionFailed "callback 'cb' produced no 'callback'"))

end Script

namespace Library

open Script

variable {answer : String → Record Json → Run (Record Json)}

/-- The exchange of a consultation. -/
def consultation (answer : String → Record Json → Run (Record Json))
    (args : List (String × Json)) (s : Session) : Exchange :=
  ⟨"cb", .ofList args, (answer "cb" (.ofList args) s).1⟩

/-- A consultation ends with the value that came back. -/
theorem perform_consult (args : List (String × Json)) (s : Session) :
    (consult args).perform answer s =
      ((consultation answer args s).value, (answer "cb" (.ofList args) s).2) := by
  rw [consult, askFor, perform_bind, perform_ask, consultation, Exchange.value]
  rcases h : answer "cb" (.ofList args) s with ⟨halt | outputs, s'⟩
  · rw [Run.andThen_of_error h]
  · rw [Run.andThen_of_ok h]
    cases hget : outputs.get? "callback" with
    | none => simp only [hget]; rfl
    | some value => simp only [hget]; rfl

/-- A consultation is one exchange. -/
theorem dialogue_consult (args : List (String × Json)) (s : Session) :
    (consult args).dialogue answer s = [consultation answer args s] := by
  rw [consult, askFor, dialogue_bind, dialogue_ask]
  rcases h : (ask "cb" (.ofList args)).perform answer s with ⟨halt | outputs, s'⟩
  · rw [Run.collect_of_error h]
    rfl
  · rw [Run.collect_of_ok h]
    cases outputs.get? "callback" with
    | none => rfl
    | some value => rfl

/-- What a consultation tells. -/
theorem consult_tells (args : List (String × Json)) :
    Tells answer (consult args) fun log outcome => ∃ e : Exchange,
      e.callback = "cb" ∧ e.args = .ofList args ∧ log = [e] ∧ outcome = e.value := by
  intro s
  rw [dialogue_consult, perform_consult]
  exact ⟨_, rfl, rfl, rfl, rfl⟩

/-- What a function with a callback does with an array. -/
theorem runner_of_withCallback (name : String) (output : Param) (input : List Param)
    (type : ValueType) {f : List Json → Script Json} (hlibrary : catalog.get? name = some
      (.native (withCallback name output input type f).signature
        (withCallback name output input type f).runner))
    {signature : Signature} {runner : Runner}
    (h : catalog.get? name = some (.native signature runner)) {args : Record Json}
    {items : List Json} (hitems : args.get? "arr" = some (.array items)) (callbacks : List String) :
    runner args callbacks = f items >>= fun value => .done (single output.name value) := by
  cases hlibrary.symm.trans h
  show (Script.ofExcept (array args "arr") >>= fun items => _) = _
  rw [array_of_get? hitems]
  rfl

theorem single_injective {key : String} {value value' : Json}
    (h : single key value = single key value') : value = value' := by
  have hget := congrArg (·.get? key) h
  simp only [single, Record.get?_insert_self] at hget
  exact Flow.value.inj (Option.some.inj hget)

end Library

end Dataflow
