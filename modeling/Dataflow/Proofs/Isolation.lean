/-
Top-level runs do not influence each other.

A run changes two things that the next one could see: what the cache holds, and what it has counted.
The next run starts by clearing both. What is left of an environment once its cache is cleared is
therefore all that a run can depend on, and it is changed by registrations alone. So a history of
registrations and runs can be replaced by its registrations.

Two runs of one program also draw from different sources of random numbers and go by different
names. Neither matters if the library functions draw no numbers: the runs go in step.

* `Run.InStep` — computations that agree whatever was noted and whatever numbers can be drawn;
* `Environment.fresh` — an environment as the next run finds it;
* `Environment.fresh_afterAll` — runs leave no trace in it;
* `Environment.run_after_registrations` — a run after a history and after its registrations only.
-/
import Mathlib
import Dataflow.Proofs.Habit
import Dataflow.Proofs.Safety
import Dataflow.Proofs.Slack
namespace Dataflow

/-! ### Runs in step -/

namespace Run

variable {α β : Type}

/-- From sessions with the same cache and the same events, both computations end in the same way, in
sessions with the same cache and the same events. -/
def InStep (r t : Run α) : Prop :=
  ∀ s s', s.Alike s' → (t s').1 = (r s).1 ∧ (r s).2.Alike (t s').2

private theorem inStep_result (a : α) : InStep (result a) (result a) := fun _ _ h => ⟨rfl, h⟩

private theorem inStep_halt (h : Halt) : InStep (halt h : Run α) (halt h) := fun _ _ h => ⟨rfl, h⟩

private theorem inStep_note (n n' : Note) : InStep (note n) (note n') :=
  fun _ _ h => ⟨rfl, h.cache, h.events⟩

private theorem inStep_emit (observer : Observer) (e : Event) :
    InStep (emit observer e) (emit observer e) := by
  intro s s' h
  obtain ⟨hout, hcache⟩ := emit_outcome observer e s
  obtain ⟨hout', hcache'⟩ := emit_outcome observer e s'
  refine ⟨by rw [hout, hout'], ?_, ?_⟩
  · rw [hcache, hcache', h.cache]
  · rw [emit_events, emit_events, h.events]

private theorem inStep_cache? : InStep cache? cache? := by
  intro s s' h
  refine ⟨?_, h⟩
  show Except.ok s'.cache = Except.ok s.cache
  rw [h.cache]

private theorem inStep_setCache (cache : MemoCache) : InStep (setCache cache) (setCache cache) :=
  fun _ _ h => ⟨rfl, rfl, h.events⟩

theorem InStep.andThen {r t : Run α} {f g : α → Run β} (hr : InStep r t)
    (hf : ∀ a, r.Gives a → InStep (f a) (g a)) : InStep (r.andThen f) (t.andThen g) := by
  intro s s' halike
  obtain ⟨hout, hafter⟩ := hr s s' halike
  rcases h : r s with ⟨halt | a, s₁⟩
  · rw [h] at hout hafter
    have ht : t s' = (.error halt, (t s').2) := Prod.ext hout rfl
    rw [andThen_of_error h, andThen_of_error ht]
    exact ⟨rfl, hafter⟩
  · rw [h] at hout hafter
    have ht : t s' = (.ok a, (t s').2) := Prod.ext hout rfl
    rw [andThen_of_ok h, andThen_of_ok ht]
    exact hf a ⟨s, s₁, h⟩ s₁ _ hafter

theorem InStep.attempt {r t : Run α} (hr : InStep r t) : InStep r.attempt t.attempt := by
  intro s s' halike
  obtain ⟨hout, hafter⟩ := hr s s' halike
  rw [attempt_eq, attempt_eq, hout]
  exact ⟨rfl, hafter⟩

private theorem inStep_closed : Closed fun _ r => InStep r r where
  result := inStep_result
  halt := inStep_halt
  note n := inStep_note n n
  andThen := InStep.andThen
  attempt := InStep.attempt

/-! ### The settings of the cache -/

/-- All that the computation does to the cache is undone when the cache is cleared. -/
def KeepsSettings (r : Run α) : Prop :=
  ∀ s, (r s).2.cache.map MemoCache.clear = s.cache.map MemoCache.clear

private theorem keepsSettings_closed : Closed fun _ r => KeepsSettings r :=
  .of_trans (R := fun s s' => s'.cache.map MemoCache.clear = s.cache.map MemoCache.clear)
    (fun _ => rfl) (fun h h' => h'.trans h) fun _ _ => rfl

private theorem keepsSettings_emit (observer : Observer) (e : Event) :
    KeepsSettings (emit observer e) :=
  fun s => by rw [(emit_outcome observer e s).2]

private theorem keepsSettings_random : KeepsSettings random := by
  intro s
  obtain ⟨x, source, hrandom⟩ := random_eq s
  rw [hrandom]

end Run

namespace MemoCache

private theorem clear_lookup (c : MemoCache) (key : String) : (c.lookup key).2.clear = c.clear := by
  rw [lookup]
  cases c.entries.get? key <;> rfl

end MemoCache

namespace Host

private theorem fetch_inStep (key : String) : (fetch key).InStep (fetch key) := by
  refine Run.inStep_cache?.andThen fun cache _ => ?_
  cases cache with
  | none => exact Run.inStep_result _
  | some cache => exact (Run.inStep_setCache _).andThen fun _ _ => Run.inStep_result _

private theorem remember_inStep (key : String) (outputs : Outputs) :
    (remember key outputs).InStep (remember key outputs) := by
  refine Run.inStep_cache?.andThen fun cache _ => ?_
  cases cache with
  | none => exact Run.inStep_result _
  | some cache => exact Run.inStep_setCache _

/-- Executions with deterministic functions go in step with themselves. -/
theorem habit_inStep (host : Host) (hdet : host.catalog.Deterministic) :
    host.Habit (fun _ r => r.InStep r) fun _ _ _ => True := by
  refine .of_acts Run.inStep_closed ?_ (Run.inStep_emit _) Run.inStep_cache? fetch_inStep
    remember_inStep
  intro name signature runner hentry args callbacks answer hanswer
  exact (hdet name signature runner hentry args callbacks).perform_closed Run.inStep_closed hanswer

private theorem fetch_keepsSettings (key : String) : (fetch key).KeepsSettings := by
  intro s
  cases hs : s.cache with
  | none =>
    have hcache : Run.cache? s = (.ok s.cache, s) := rfl
    rw [fetch, Run.bind_eq, Run.andThen_of_ok hcache, hs]
    exact congrArg (Option.map MemoCache.clear) hs
  | some cache =>
    rw [fetch_of_cache key hs, Option.map_some, Option.map_some, MemoCache.clear_lookup]

private theorem remember_keepsSettings (key : String) (outputs : Outputs) :
    (remember key outputs).KeepsSettings := by
  intro s
  obtain ⟨s', hremember, hs'⟩ := remember_eq key outputs s
  rw [hremember, hs', Option.map_map]
  rfl

/-- Executions keep the settings of the cache. -/
theorem habit_keepsSettings (host : Host) :
    host.Habit (fun _ r => r.KeepsSettings) fun _ _ _ => True := by
  refine .of_acts Run.keepsSettings_closed ?_ (Run.keepsSettings_emit _) (fun _ => rfl)
    fetch_keepsSettings remember_keepsSettings
  intro name signature runner _ args callbacks answer hanswer
  exact Script.perform_closed Run.keepsSettings_closed Run.keepsSettings_random hanswer _

end Host

/-! ### What a run can depend on -/

/-- A function that draws no random numbers may be added to deterministic ones. -/
theorem Catalog.Deterministic.register {c : Catalog} (hc : c.Deterministic) {name : String}
    {entry : Entry} (hentry : ∀ {signature runner}, entry = .native signature runner →
      ∀ args callbacks, (runner args callbacks).Deterministic) :
    (c.register name entry).Deterministic := by
  intro other signature runner hfound args callbacks
  rw [Catalog.get?_register] at hfound
  split at hfound
  · exact hentry (Option.some.inj hfound) args callbacks
  · exact hc other signature runner hfound args callbacks

namespace Environment

/-- The environment as the next run finds it. -/
def fresh (env : Environment) : Environment := { env with cache := env.cache.map MemoCache.clear }

/-- A run sees no more of its environment than what is fresh. -/
theorem runWithin_fresh (env : Environment) (depth : Nat) (run : String) (random : RandomSource)
    (p : Program) (inputs : Record Json) :
    env.fresh.runWithin depth run random p inputs = env.runWithin depth run random p inputs := by
  have hclear : env.fresh.cache.map MemoCache.clear = env.cache.map MemoCache.clear := by
    rw [fresh, Option.map_map]
    rfl
  have hsession : env.fresh.session depth run p inputs = env.session depth run p inputs := rfl
  rw [runWithin, runWithin, hclear, hsession]
  rfl

private theorem session_keepsSettings (env : Environment) (depth : Nat) (run : String) (p : Program)
    (inputs : Record Json) : (env.session depth run p inputs).KeepsSettings := by
  have hrun := env.host.habit_keepsSettings.runProgram depth mainCaller p inputs fun _ _ => trivial
  have hemit := Run.keepsSettings_emit env.observer
  exact env.session_closed Run.keepsSettings_closed hrun (hemit _) (fun _ => hemit _)
    (fun _ => hemit _) run

/-- A run changes nothing that the next run can see. -/
theorem fresh_runWithin (env : Environment) (depth : Nat) (run : String) (random : RandomSource)
    (p : Program) (inputs : Record Json) :
    (env.runWithin depth run random p inputs).environment.fresh = env.fresh := by
  have hkeeps := env.session_keepsSettings depth run p inputs
    ⟨env.cache.map MemoCache.clear, #[], #[], random⟩
  rw [Option.map_map] at hkeeps
  rw [runWithin, fresh, fresh]
  congr 1

private theorem session_inStep {env : Environment} (hdet : env.catalog.Deterministic) (depth : Nat)
    (run run' : String) (p : Program) (inputs : Record Json) :
    (env.session depth run p inputs).InStep (env.session depth run' p inputs) := by
  have hemit := Run.inStep_emit env.observer
  have hrun : Run.InStep _ _ :=
    (env.host.habit_inStep hdet).runProgram depth mainCaller p inputs fun _ _ => trivial
  unfold session
  simp only [Run.bind_eq, Run.pure_eq]
  refine (Run.inStep_note _ _).andThen fun _ _ => (hemit _).andThen fun _ _ => ?_
  refine hrun.attempt.andThen fun answer _ => ?_
  cases answer with
  | ok outputs =>
    refine (Run.inStep_note _ _).andThen fun _ _ => (hemit _).andThen fun _ _ => ?_
    exact Run.inStep_result outputs
  | error error =>
    refine (Run.inStep_note _ _).andThen fun _ _ => (hemit _).andThen fun _ _ => ?_
    exact Run.inStep_halt (.failed error)

/-- Under another name and with other random numbers, a run returns the same, tells the same events
and leaves the same environment. -/
theorem runWithin_inStep {env : Environment} (hdet : env.catalog.Deterministic) (depth : Nat)
    (run run' : String) (random random' : RandomSource) (p : Program) (inputs : Record Json) :
    (env.runWithin depth run' random' p inputs).outcome =
        (env.runWithin depth run random p inputs).outcome ∧
      (env.runWithin depth run' random' p inputs).events =
        (env.runWithin depth run random p inputs).events ∧
      (env.runWithin depth run' random' p inputs).environment =
        (env.runWithin depth run random p inputs).environment := by
  obtain ⟨houtcome, hafter⟩ := session_inStep hdet depth run run' p inputs
    ⟨env.cache.map MemoCache.clear, #[], #[], random⟩
    ⟨env.cache.map MemoCache.clear, #[], #[], random'⟩ ⟨rfl, rfl⟩
  refine ⟨houtcome, hafter.events, ?_⟩
  rw [runWithin, runWithin]
  simp only [hafter.cache]

/-! ### Histories -/

/-- What can be done with an environment. -/
inductive Operation where
  | addFunction (name : String) (p : Program)
  | addNative (f : Library.NativeFunction)
  | run (depth : Nat) (name : String) (random : RandomSource) (p : Program) (inputs : Record Json)

namespace Operation

/-- Whether the operation registers a function. -/
def isRegistration : Operation → Bool
  | .addFunction .. | .addNative .. => true
  | .run .. => false

/-- Whether no library function that is added draws random numbers. -/
def Deterministic : Operation → Prop
  | .addNative f => ∀ args callbacks, (f.runner args callbacks).Deterministic
  | .addFunction .. | .run .. => True

end Operation

/-- The environment after an operation. -/
def after (env : Environment) : Operation → Environment
  | .addFunction name p => (env.addFunction name p).run' #[]
  | .addNative f => (env.addNative f).run' #[]
  | .run depth name random p inputs => (env.runWithin depth name random p inputs).environment

/-- The environment after a history. -/
def afterAll (env : Environment) (history : List Operation) : Environment :=
  history.foldl after env

/-- Only registrations change what the next run finds. -/
theorem fresh_after (env : Environment) (op : Operation) :
    (env.after op).fresh = if op.isRegistration then env.fresh.after op else env.fresh := by
  cases op with
  | addFunction name p =>
    show Environment.mk _ _ _ _ = Environment.mk _ _ _ _
    congr 1
    rw [fresh, Option.map_map]
    exact Option.map_map ..
  | addNative f => rfl
  | run depth name random p inputs => exact env.fresh_runWithin depth name random p inputs

/-- **Runs leave no trace**: what the next run finds is what the registrations have made. -/
theorem fresh_afterAll (env : Environment) (history : List Operation) :
    (env.afterAll history).fresh =
      env.fresh.afterAll (history.filter Operation.isRegistration) := by
  induction history generalizing env with
  | nil => rfl
  | cons op history ih =>
    show ((env.after op).afterAll history).fresh = _
    rw [ih, fresh_after, List.filter_cons]
    split <;> rfl

private theorem deterministic_after {env : Environment} (hdet : env.catalog.Deterministic)
    {op : Operation} (hop : op.Deterministic) : (env.after op).catalog.Deterministic := by
  cases op with
  | addFunction name p => exact hdet.register fun hentry => nomatch hentry
  | addNative f =>
    refine hdet.register fun hentry => ?_
    cases hentry
    exact hop
  | run depth name random p inputs => exact hdet

private theorem deterministic_afterAll {env : Environment} (hdet : env.catalog.Deterministic)
    {history : List Operation} (hhistory : ∀ op ∈ history, op.Deterministic) :
    (env.afterAll history).catalog.Deterministic := by
  induction history generalizing env with
  | nil => exact hdet
  | cons op history ih =>
    obtain ⟨hop, hrest⟩ := List.forall_mem_cons.1 hhistory
    exact ih (deterministic_after hdet hop) hrest

/-- A new environment with an observer. -/
def opened (catalog : Catalog) (config : Config) (observer : Observer) : Environment :=
  { (ofConfig catalog config).run' #[] with observer }

theorem cache_opened (catalog : Catalog) (config : Config) (observer : Observer) :
    (opened catalog config observer).cache = config.cache.map .ofConfig := by
  show ((ofConfig catalog config).run' #[]).cache = _
  rw [ofConfig]
  split <;> rfl

private theorem fresh_opened (catalog : Catalog) (config : Config) (observer : Observer) :
    (opened catalog config observer).fresh = opened catalog config observer := by
  rw [fresh, cache_opened, Option.map_map]
  exact congrArg (fun cache => { opened catalog config observer with cache })
    (cache_opened catalog config observer).symm

/-- **Top-level runs do not influence each other.** After any history of registrations and runs,
failed ones included, a run returns the same, tells the same events and leaves the same counters as
in a new environment in which only the registrations were made. The two runs may go by different
names and have different sources of random numbers. -/
theorem run_after_registrations {catalog : Catalog} (hcatalog : catalog.Deterministic)
    {history : List Operation} (hhistory : ∀ op ∈ history, op.Deterministic) (config : Config)
    (observer : Observer) (depth : Nat) (run run' : String) (random random' : RandomSource)
    (p : Program) (inputs : Record Json) :
    let start := opened catalog config observer
    let report := (start.afterAll history).runWithin depth run random p inputs
    let report' := (start.afterAll (history.filter Operation.isRegistration)).runWithin depth run'
      random' p inputs
    report.outcome = report'.outcome ∧ report.events = report'.events ∧
      report.environment.cacheStats = report'.environment.cacheStats := by
  intro start report report'
  have hfresh : (start.afterAll history).fresh =
      start.afterAll (history.filter Operation.isRegistration) := by
    rw [fresh_afterAll, fresh_opened]
  have hstart : start.catalog.Deterministic := by
    show ((ofConfig catalog config).run' #[]).catalog.Deterministic
    rw [catalog_ofConfig]
    exact hcatalog
  -- Runs change no function, so those of the last run are deterministic.
  have hdet := deterministic_afterAll hstart hhistory
  obtain ⟨houtcome, hevents, henvironment⟩ :=
    runWithin_inStep hdet depth run' run random' random p inputs
  -- The second run is made in what is fresh after the whole history.
  have hreport' : report' = (start.afterAll history).runWithin depth run' random' p inputs := by
    rw [← runWithin_fresh (start.afterAll history), hfresh]
  rw [hreport']
  exact ⟨houtcome, hevents, congrArg cacheStats henvironment⟩

/-- Words were asked for before `word` was known, which fails, and other words afterwards. Neither
shows in what comes out for the next flags, nor in the counters. -/
theorem run_after_registrations_words :
    let start := opened Library.settled ⟨some ⟨2, true⟩, 10, false⟩ fun _ => some "refused"
    let flags := Record.ofList [("flags", Json.array [.bool true, .bool false, .bool true])]
    let early := Operation.run 3 "early" default .wordsOf flags
    let history := [early, .addNative Library.ctrlIf, .addFunction "word" .wordOf,
      .run 3 "other" default .wordsOf (.ofList [("flags", .array [.bool false])])]
    let report := (start.afterAll history).runWithin 3 "last" default .wordsOf flags
    (start.runWithin 3 "early" default .wordsOf flags).outcome =
        .error (.failed (.functionNotFound "word")) ∧
      report.outcome =
        .ok (.ofList [("words", .array [.string "yes", .string "no", .string "yes"])]) ∧
      report.environment.cacheStats = some ⟨2, 2, 1, 2⟩ := by
  intro start flags early history report
  have hhistory : ∀ op ∈ history, op.Deterministic := by
    have hctrlIf : Library.ctrlIf ∈ Library.functions := by
      simp [Library.functions, Library.control]
    simp only [history, List.forall_mem_cons, List.not_mem_nil, false_implies, implies_true,
      and_true]
    exact ⟨trivial, Library.function_deterministic hctrlIf (by decide), trivial, trivial⟩
  obtain ⟨houtcome, -, hstats⟩ := run_after_registrations Library.settled_deterministic hhistory
    ⟨some ⟨2, true⟩, 10, false⟩ (fun _ => some "refused") 3 "last" "" default default
    .wordsOf flags
  refine ⟨by decide +kernel, houtcome.trans ?_, hstats.trans ?_⟩
  · decide +kernel
  · decide +kernel

end Environment

end Dataflow
