/-
Scripts: how a library function behaves.

A library function sees its arguments and the names of its callbacks and answers with a script: it
calls callbacks, makes remarks and draws random numbers until it gives a result, fails or
crashes. What it does next depends only on what it was told, so a function that draws no random
number is a function of its arguments and of what its callbacks answer.
-/
import Dataflow.Flow
import Dataflow.Note
import Dataflow.RunError
namespace Dataflow

/-- A computation that may call callbacks. -/
inductive Script (α : Type) where
  | done (a : α)
  | fail (error : RunError)
  /-- Crash, so that nothing goes on. -/
  | crash
  /-- Call a callback and go on with its answer. -/
  | call (callback : String) (args : Record Json)
    (resume : Except RunError (Record Json) → Script α)
  | remark (level : Level) (text : String) (next : Script α)
  /-- Draw a number from zero up to one. -/
  | random (resume : Float → Script α)

namespace Script

variable {α β : Type}

/-- Go on with the result. -/
def bind (s : Script α) (f : α → Script β) : Script β :=
  match s with
  | .done a => f a
  | .fail error => .fail error
  | .crash => .crash
  | .call callback args resume => .call callback args fun answer => (resume answer).bind f
  | .remark level text next => .remark level text (next.bind f)
  | .random resume => .random fun x => (resume x).bind f

instance : Monad Script where
  pure := .done
  bind := .bind

/-- The script of a result that is known. -/
def ofExcept : Except RunError α → Script α
  | .ok a => .done a
  | .error error => .fail error

/-- Call a callback; its failure is the script's failure. -/
def ask (callback : String) (args : Record Json) : Script (Record Json) :=
  .call callback args ofExcept

/-- Call a callback for one of its outputs. -/
def askFor (callback : String) (args : Record Json) (output : String) : Script Json := do
  let answer ← ask callback args
  match answer.get? output with
  | some value => return value
  | none => .fail (.executionFailed s!"callback '{callback}' produced no '{output}'")

/-- A script that draws no random number. -/
inductive Deterministic : Script α → Prop where
  | done (a : α) : Deterministic (.done a)
  | fail (error : RunError) : Deterministic (.fail error)
  | crash : Deterministic .crash
  | call (callback : String) (args : Record Json)
    (resume : Except RunError (Record Json) → Script α) :
    (∀ answer, Deterministic (resume answer)) → Deterministic (.call callback args resume)
  | remark (level : Level) (text : String) (next : Script α) :
    Deterministic next → Deterministic (.remark level text next)

end Script

/-- A library function: what it does with its arguments and the names of its callbacks. -/
abbrev Runner := Record Json → List String → Script Outputs

end Dataflow
