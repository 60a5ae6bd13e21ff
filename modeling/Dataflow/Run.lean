/-
Runs: computations over a session.

A session is what one top-level run and everything it calls share: the cache,
the events told to the observer, the notes of the log and the source of random
numbers. All of it survives a failure. A run ends with a result, with an error, because a function
crashed, or because its calls were nested deeper than it was told to follow. Errors can be taken
back by the function that made the call. A crash cannot, and nobody is told about it. The last is a
limit of the evaluation and no error of the program.
-/
import Dataflow.Event
import Dataflow.MemoCache
import Dataflow.Note
import Dataflow.Random
import Dataflow.RunError
import Dataflow.Script
namespace Dataflow

/-- Why a run gives no result. -/
inductive Halt where
  | failed (error : RunError)
  /-- A function crashed. -/
  | crashed
  /-- The calls were nested too deeply to be followed. -/
  | outOfDepth
  deriving DecidableEq, Repr

/-- What a top-level run and everything it calls share. -/
structure Session where
  cache : Option MemoCache
  events : Array Event
  notes : Array Note
  random : RandomSource

/-- A computation over a session. -/
def Run (α : Type) : Type := Session → Except Halt α × Session

namespace Run

variable {α β : Type}

/-- A result that leaves the session alone. -/
def result (a : α) : Run α := fun s => (.ok a, s)

/-- Go on with the result. -/
def andThen (r : Run α) (f : α → Run β) : Run β := fun s =>
  match r s with
  | (.ok a, s) => f a s
  | (.error halt, s) => (.error halt, s)

instance : Monad Run where
  pure := result
  bind := andThen

/-- Stop. -/
def halt (h : Halt) : Run α := fun s => (.error h, s)

/-- Fail with an error. -/
def fail (error : RunError) : Run α := halt (.failed error)

/-- A result that is known. -/
def ofExcept : Except RunError α → Run α
  | .ok a => result a
  | .error error => fail error

/-- Make a note. -/
def note (n : Note) : Run Unit := fun s => (.ok (), { s with notes := s.notes.push n })

/-- Tell the observer about an event. A refusal is noted. -/
def emit (observer : Observer) (e : Event) : Run Unit := fun s =>
  let s := { s with events := s.events.push e }
  match observer e with
  | none => (.ok (), s)
  | some reason => (.ok (), { s with notes := s.notes.push (.refusedEvent reason) })

/-- The error of a failed run as a result. -/
def attempt (r : Run α) : Run (Except RunError α) := fun s =>
  match r s with
  | (.ok a, s) => (.ok (.ok a), s)
  | (.error (.failed error), s) => (.ok (.error error), s)
  | (.error .crashed, s) => (.error .crashed, s)
  | (.error .outOfDepth, s) => (.error .outOfDepth, s)

/-- Draw a random number. -/
def random : Run Float := fun s =>
  let (x, source) := s.random.next
  (.ok x, { s with random := source })

/-- The cache. -/
def cache? : Run (Option MemoCache) := fun s => (.ok s.cache, s)

/-- Put a cache in place of the old one. -/
def setCache (cache : MemoCache) : Run Unit := fun s => (.ok (), { s with cache := some cache })

end Run

/-- Run a script; `answer` runs its callbacks. -/
def Script.perform {α : Type} (answer : String → Record Json → Run (Record Json)) :
    Script α → Run α
  | .done a => Run.result a
  | .fail error => Run.fail error
  | .crash => Run.halt .crashed
  | .call callback args resume =>
    (answer callback args).attempt.andThen fun reply => perform answer (resume reply)
  | .remark level text next =>
    (Run.note (.remark level text)).andThen fun _ => perform answer next
  | .random resume => Run.random.andThen fun x => perform answer (resume x)

end Dataflow
