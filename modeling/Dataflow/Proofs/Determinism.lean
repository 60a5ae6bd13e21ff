/-
Executions that always end the same way.

Where no cache is set up and no random number is drawn, nothing that the session holds can be seen
by a program: its events and notes are only written. So an execution whose functions are
deterministic has one outcome, whatever was run before it in the session. Only the functions count
that the program calls, itself or through other programs; the catalog may hold others.

* `Run.Ends` — the outcome in every session without a cache;
* `Program.Deterministic` — the functions that a program can come to are deterministic;
* `Host.habit_ends`, `Host.callClosure_ends` — executions and calls of callbacks end in one way.
-/
import Mathlib
import Dataflow.Proofs.Habit
import Dataflow.Proofs.Library
import Dataflow.Proofs.Termination
namespace Dataflow

/-! ### One outcome -/

namespace Run

variable {α β : Type}

/-- Without a cache, the computation has this outcome and sets no cache up. -/
def Ends (r : Run α) (outcome : Except Halt α) : Prop :=
  ∀ s, s.cache = none → (r s).1 = outcome ∧ (r s).2.cache = none

theorem ends_result (a : α) : (result a).Ends (.ok a) := fun _ hs => ⟨rfl, hs⟩

theorem ends_halt (h : Halt) : (halt h : Run α).Ends (.error h) := fun _ hs => ⟨rfl, hs⟩

private theorem ends_note (n : Note) : (note n).Ends (.ok ()) := fun _ hs => ⟨rfl, hs⟩

private theorem ends_emit (observer : Observer) (e : Event) : (emit observer e).Ends (.ok ()) :=
  fun s hs => ⟨(emit_outcome observer e s).1, (emit_outcome observer e s).2.trans hs⟩

private theorem ends_cache? : cache?.Ends (.ok none) := fun _ hs => ⟨congrArg Except.ok hs, hs⟩

theorem Ends.andThen {r : Run α} {f : α → Run β} {outcome : Except Halt α}
    {g : α → Except Halt β} (hr : r.Ends outcome) (hf : ∀ a, outcome = .ok a → (f a).Ends (g a)) :
    (r.andThen f).Ends (outcome >>= g) := by
  intro s hs
  obtain ⟨houtcome, hcache⟩ := hr s hs
  rcases h : r s with ⟨halt | a, s'⟩ <;> rw [h] at houtcome hcache <;> subst houtcome
  · rw [andThen_of_error h]
    exact ⟨rfl, hcache⟩
  · rw [andThen_of_ok h]
    exact hf a rfl s' hcache

theorem Ends.attempt {r : Run α} {outcome : Except Halt α} (hr : r.Ends outcome) :
    ∃ outcome', r.attempt.Ends outcome' := by
  refine ⟨caught outcome, fun s hs => ?_⟩
  rw [attempt_eq, (hr s hs).1]
  exact ⟨rfl, (hr s hs).2⟩

/-- The result that always comes can come. -/
theorem Ends.gives {r : Run α} {a : α} (hr : r.Ends (.ok a)) : r.Gives a :=
  ⟨⟨none, #[], #[], default⟩, _, Prod.ext (hr _ rfl).1 rfl⟩

/-- To end in one way is kept by all combinations. -/
theorem ends_closed : Closed fun _ r => ∃ outcome, r.Ends outcome where
  result a := ⟨_, ends_result a⟩
  halt h := ⟨_, ends_halt h⟩
  note n := ⟨_, ends_note n⟩
  andThen {α β r f} hr hf := by
    obtain ⟨outcome, hr⟩ := hr
    -- What follows has an outcome for the result that comes, and no other has to be considered.
    have hnext : ∀ a, ∃ next, outcome = .ok a → (f a).Ends next := by
      intro a
      by_cases ha : outcome = .ok a
      · obtain ⟨next, hnext⟩ := hf a (ha ▸ hr).gives
        exact ⟨next, fun _ => hnext⟩
      · exact ⟨.error .outOfDepth, fun h => absurd h ha⟩
    choose next hnext using hnext
    exact ⟨_, hr.andThen hnext⟩
  attempt hr := hr.choose_spec.attempt

end Run

/-! ### Programs over deterministic functions -/

namespace Program

/-- One program calls the other, itself or through programs that it calls. -/
def CallsInto (c : Catalog) : Program → Program → Prop :=
  Relation.ReflTransGen fun p q => q ∈ c.programsIn p

/-- No function that the program comes to draws random numbers. -/
def Deterministic (p : Program) (c : Catalog) : Prop :=
  ∀ q, CallsInto c p q → ∀ id node signature runner, q.node? id = some node →
    c.get? node.function = some (.native signature runner) →
    ∀ args callbacks, (runner args callbacks).Deterministic

variable {c : Catalog} {p : Program}

theorem Deterministic.program (h : p.Deterministic c) {q : Program} (hq : q ∈ c.programsIn p) :
    q.Deterministic c :=
  fun q' hq' => h q' (.head hq hq')

/-- The nodes of a closure and the programs that it calls are those of the program around it. -/
theorem Deterministic.closure (h : p.Deterministic c) {site : String} {signature : Signature}
    {frames : FrameQueue} {extraction : Extraction}
    (hextract : Callback.extract p site signature frames = .ok extraction) {name : String}
    {closure : Closure} (hclosure : extraction.closures.get? name = some closure) :
    closure.program.Deterministic c := by
  intro q hq id node signature runner hnode hentry
  rcases hq.cases_head with rfl | ⟨q', hq', hrest⟩
  · obtain ⟨-, outer, houter, hfunction⟩ := Callback.node_of_closure hextract hclosure hnode
    exact h p .refl id outer signature runner houter (hfunction ▸ hentry)
  · exact h q (.head (Catalog.mem_programsIn_of_extract hextract hclosure hq') hrest) id node
      signature runner hnode hentry

/-- Of the library, only `math.random` is not deterministic. -/
theorem deterministic_of_library
    (h : ∀ id node, p.node? id = some node → node.function ≠ Library.random.name) :
    p.Deterministic Library.catalog := by
  intro q hq id node signature runner hnode hentry args callbacks
  rcases hq.cases_head with rfl | ⟨q', hq', -⟩
  · obtain ⟨f, hf, hname, heq⟩ := Library.get?_catalog hentry
    cases heq
    exact Library.function_deterministic hf (hname ▸ h id node hnode) args callbacks
  · obtain ⟨other, inner, entry, -, hinner, hprogram⟩ := Catalog.mem_programsIn.1 hq'
    obtain ⟨f, -, -, rfl⟩ := Library.get?_catalog hinner
    cases hprogram

end Program

namespace Host

private theorem fetch_ends (key : String) : (fetch key).Ends (.ok none) := by
  refine Run.ends_cache?.andThen (g := fun _ => .ok none) fun cache hcache => ?_
  cases hcache
  exact Run.ends_result none

private theorem remember_ends (key : String) (outputs : Outputs) :
    (remember key outputs).Ends (.ok ()) := by
  refine Run.ends_cache?.andThen (g := fun _ => .ok ()) fun cache hcache => ?_
  cases hcache
  exact Run.ends_result ()

/-- **Executions of deterministic programs end in one way.** -/
theorem habit_ends (host : Host) :
    host.Habit (fun _ r => ∃ outcome, r.Ends outcome) fun _ p _ =>
      p.Deterministic host.catalog where
  toClosed := Run.ends_closed
  native turn hdet hentry args callbacks answer hanswer :=
    (hdet _ .refl turn.id turn.node _ _ turn.node_eq (hentry ▸ turn.entry_eq) args
      callbacks).perform_closed Run.ends_closed hanswer
  call turn _ _ hinvoke := Run.ends_closed.andThen ⟨_, Run.ends_emit _ _⟩ fun _ _ =>
    Habit.invokeCached_of_acts Run.ends_closed (fun _ => ⟨_, Run.ends_emit _ _⟩)
      ⟨_, Run.ends_cache?⟩ (fun key => ⟨_, fetch_ends key⟩)
      (fun key outputs => ⟨_, remember_ends key outputs⟩) hinvoke
  stopped _ _ := ⟨_, Run.ends_emit _ _⟩
  exhausted _ _ := ⟨_, Run.ends_emit _ _⟩
  move hdet _ := hdet
  callback turn _ _ _ _ hdet hclosure _ := hdet.closure turn.extracted hclosure
  program turn _ _ hdet hentry _ := by
    refine hdet.program (Catalog.mem_programsIn.2 ⟨turn.id, turn.node, turn.entry, turn.node_eq,
      turn.entry_eq, ?_⟩)
    rw [hentry]
    rfl

/-- **Calls of a callback over deterministic functions end in one way**, whatever was called
before. -/
theorem callClosure_ends (host : Host) (depth : Nat) {closures : Record Closure} {name : String}
    (hdet : ∀ closure, closures.get? name = some closure →
      closure.program.Deterministic host.catalog) (caller : String) (args : Record Json) :
    ∃ outcome, (callClosure (host.execute depth) closures caller name args).Ends outcome := by
  unfold callClosure
  cases hclosure : closures.get? name with
  | none => exact ⟨_, Run.ends_halt _⟩
  | some closure =>
    refine Run.ends_closed.andThen (Run.ends_closed.ofExcept _) fun frames _ => ?_
    exact host.habit_ends.execute depth caller closure.program frames (hdet closure hclosure)

end Host

end Dataflow
