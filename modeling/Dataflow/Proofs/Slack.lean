/-
More slack changes nothing in a run that was not cut off.

Every execution in a run, at whatever level, has the same slack. With more of it two runs go in step
as long as the first has steps left: they fire the same nodes, tell the same events and keep the
same results. Where the first run is cut off it says so, so in a run that never says so the steps
were enough everywhere. The budget of an execution is reckoned in 64 bits, so all this is about
programs that are small enough for the greater slack.

* `Run.UnlessCut` — one computation does what another does, unless that one is cut off;
* `Host.executeOnly` — executions of programs that fit;
* `Host.execute_unlessCut` — executions with more slack;
* `Environment.runWithin_eq_of_uncut` — top-level runs.
-/
import Mathlib
import Dataflow.Proofs.Completion
import Dataflow.Proofs.Depth
import Dataflow.Proofs.Memoization
namespace Dataflow

/-! ### Sessions in step -/

namespace Session

/-- The sessions have the same cache and have told the same events. -/
structure Alike (s s' : Session) : Prop where
  cache : s'.cache = s.cache
  events : s'.events = s.events

/-- No execution was cut off so far. -/
def Uncut (s : Session) : Prop := ∀ e ∈ s.events, e.kind ≠ "budgetExhausted"

private theorem Uncut.of_prefix {s s' : Session} (h : s'.Uncut)
    (hevents : s.events.toList <+: s'.events.toList) : s.Uncut :=
  fun e he => h e (Array.mem_toList_iff.1 (hevents.subset (Array.mem_toList_iff.2 he)))

end Session

namespace Run

variable {α β : Type}

/-- Events are never taken back, and unless `r` runs out of depth or is cut off, `t` does the
same. -/
structure UnlessCut (r t : Run α) : Prop where
  keeps : ∀ s, s.events.toList <+: (r s).2.events.toList
  same : ∀ s s', s.Alike s' → (r s).1 ≠ .error .outOfDepth → (r s).2.Uncut →
    (t s').1 = (r s).1 ∧ (r s).2.Alike (t s').2

private theorem unlessCut_result (a : α) : UnlessCut (result a) (result a) :=
  ⟨fun _ => List.prefix_rfl, fun _ _ h _ _ => ⟨rfl, h⟩⟩

private theorem unlessCut_halt (h : Halt) : UnlessCut (halt h : Run α) (halt h) :=
  ⟨fun _ => List.prefix_rfl, fun _ _ h _ _ => ⟨rfl, h⟩⟩

private theorem unlessCut_ofExcept (e : Except RunError α) : UnlessCut (ofExcept e)
    (ofExcept e) := by
  cases e with
  | ok a => exact unlessCut_result a
  | error error => exact unlessCut_halt (.failed error)

private theorem unlessCut_note (n n' : Note) : UnlessCut (note n) (note n') :=
  ⟨fun _ => List.prefix_rfl, fun _ _ h _ _ => ⟨rfl, h.cache, h.events⟩⟩

private theorem unlessCut_emit (observer observer' : Observer) (e : Event) :
    UnlessCut (emit observer e) (emit observer' e) := by
  refine ⟨emit_keeps observer e, fun s s' h _ _ => ?_⟩
  obtain ⟨hout, hcache⟩ := emit_outcome observer e s
  obtain ⟨hout', hcache'⟩ := emit_outcome observer' e s'
  refine ⟨by rw [hout, hout'], ?_, ?_⟩
  · rw [hcache, hcache', h.cache]
  · rw [emit_events, emit_events, h.events]

private theorem unlessCut_cache? : UnlessCut cache? cache? := by
  refine ⟨fun _ => List.prefix_rfl, fun s s' h _ _ => ⟨?_, h⟩⟩
  show Except.ok s'.cache = Except.ok s.cache
  rw [h.cache]

private theorem unlessCut_setCache (cache : MemoCache) : UnlessCut (setCache cache)
    (setCache cache) :=
  ⟨fun _ => List.prefix_rfl, fun _ _ h _ _ => ⟨rfl, rfl, h.events⟩⟩

theorem UnlessCut.andThen {r t : Run α} {f g : α → Run β} (hr : UnlessCut r t)
    (hf : ∀ a, UnlessCut (f a) (g a)) : UnlessCut (r.andThen f) (t.andThen g) := by
  refine ⟨fun s => ?_, fun s s' halike hne huncut => ?_⟩
  · have hkeeps := hr.keeps s
    rcases h : r s with ⟨halt | a, s₁⟩
    · rw [andThen_of_error h]
      rwa [h] at hkeeps
    · rw [andThen_of_ok h]
      rw [h] at hkeeps
      exact hkeeps.trans ((hf a).keeps s₁)
  · have hsame := hr.same s s' halike
    rcases h : r s with ⟨halt | a, s₁⟩
    · rw [h] at hsame
      rw [andThen_of_error h] at hne huncut ⊢
      obtain ⟨hout, hafter⟩ := hsame (fun hout => hne (by cases hout; rfl)) huncut
      have ht : t s' = (.error halt, (t s').2) := Prod.ext hout rfl
      rw [andThen_of_error ht]
      exact ⟨rfl, hafter⟩
    · rw [h] at hsame
      rw [andThen_of_ok h] at hne huncut ⊢
      -- What was not cut off in the end was not cut off before.
      have hbefore : s₁.Uncut := huncut.of_prefix ((hf a).keeps s₁)
      obtain ⟨hout, hafter⟩ := hsame (fun hout => nomatch hout) hbefore
      have ht : t s' = (.ok a, (t s').2) := Prod.ext hout rfl
      rw [andThen_of_ok ht]
      exact (hf a).same s₁ _ hafter hne huncut

theorem UnlessCut.attempt {r t : Run α} (hr : UnlessCut r t) :
    UnlessCut r.attempt t.attempt := by
  refine ⟨fun s => ?_, fun s s' halike hne huncut => ?_⟩
  · rw [attempt_eq]
    exact hr.keeps s
  · rw [attempt_eq] at hne huncut
    obtain ⟨hout, hafter⟩ :=
      hr.same s s' halike (fun hout => hne (caught_eq_outOfDepth.2 hout)) huncut
    rw [attempt_eq, attempt_eq, hout]
    exact ⟨rfl, hafter⟩

end Run

/-- A script without random numbers stays in step when its callbacks do. -/
theorem Script.Deterministic.unlessCut {α : Type}
    {answer answer' : String → Record Json → Run (Record Json)}
    (h : ∀ callback args, Run.UnlessCut (answer callback args) (answer' callback args))
    {script : Script α} (hs : script.Deterministic) :
    Run.UnlessCut (script.perform answer) (script.perform answer') := by
  induction hs with
  | done a => exact Run.unlessCut_result a
  | fail error => exact Run.unlessCut_halt (.failed error)
  | crash => exact Run.unlessCut_halt .crashed
  | call callback args resume _ ih => exact (h callback args).attempt.andThen ih
  | remark level text next _ ih => exact (Run.unlessCut_note _ _).andThen fun _ => ih

/-! ### Calls and firings in step -/

namespace Host

variable {host host' : Host} {nested nested' : Executor}

section Calls

variable (hn : ∀ caller p frames, Run.UnlessCut (nested caller p frames) (nested' caller p frames))
include hn

private theorem runProgram_unlessCut (p : Program) (inputs : Record Json) (caller : String) :
    Run.UnlessCut (runProgram nested p inputs caller) (runProgram nested' p inputs caller) :=
  (Run.unlessCut_ofExcept _).andThen fun frames => hn caller p frames

private theorem callClosure_unlessCut (closures : Record Closure) (caller name : String)
    (args : Record Json) : Run.UnlessCut (callClosure nested closures caller name args)
      (callClosure nested' closures caller name args) := by
  unfold callClosure
  cases closures.get? name with
  | none => exact Run.unlessCut_halt _
  | some closure => exact (Run.unlessCut_ofExcept _).andThen fun frames => hn caller _ frames

private theorem invoke_unlessCut {catalog : Catalog} (hdet : catalog.Deterministic)
    {function : String}
    {entry : Entry} (hentry : catalog.get? function = some entry) (args : Record Json)
    (closures : Record Closure) (caller : String) :
    Run.UnlessCut (invoke nested function entry args closures caller)
      (invoke nested' function entry args closures caller) := by
  cases entry with
  | native signature runner =>
    exact (hdet function signature runner hentry args closures.names).unlessCut
      (callClosure_unlessCut hn closures caller)
  | program signature p =>
    exact (runProgram_unlessCut hn p args function).andThen fun values => Run.unlessCut_result _

/-- The caches are the same on both sides, so a call is known on both sides or on none. -/
theorem invokeCached_unlessCut {catalog : Catalog} (hdet : catalog.Deterministic)
    {function : String} {entry : Entry} (hentry : catalog.get? function = some entry)
    (args : Record Json) (closures : Record Closure) (caller : String) :
    Run.UnlessCut (host.invokeCached nested function entry args closures caller)
      (host'.invokeCached nested' function entry args closures caller) := by
  have hinvoke := invoke_unlessCut hn hdet hentry args closures caller
  have hfetch : ∀ key, Run.UnlessCut (fetch key) (fetch key) := by
    intro key
    unfold fetch
    simp only [Run.bind_eq]
    refine Run.unlessCut_cache?.andThen fun cache => ?_
    cases cache with
    | none => exact Run.unlessCut_result _
    | some cache => exact (Run.unlessCut_setCache _).andThen fun _ => Run.unlessCut_result _
  have hremember : ∀ key outputs, Run.UnlessCut (remember key outputs) (remember key outputs) := by
    intro key outputs
    unfold remember
    simp only [Run.bind_eq]
    refine Run.unlessCut_cache?.andThen fun cache => ?_
    cases cache with
    | none => exact Run.unlessCut_result _
    | some cache => exact Run.unlessCut_setCache _
  unfold invokeCached
  simp only [Run.bind_eq, Run.pure_eq]
  refine Run.unlessCut_cache?.andThen fun cache => ?_
  cases cacheKey? cache function args closures with
  | none => exact hinvoke
  | some key =>
    refine (hfetch key).andThen fun found => ?_
    cases found with
    | some outputs =>
      refine (Run.unlessCut_note _ _).andThen fun _ => ?_
      exact (Run.unlessCut_emit _ _ _).andThen fun _ => Run.unlessCut_result _
    | none =>
      refine hinvoke.andThen fun outputs => ?_
      exact (hremember key outputs).andThen fun _ => Run.unlessCut_result _

end Calls

private theorem deliver_unlessCut (id : String) (signature : Signature) (results : Outputs)
    (edges : List Edge) (frames : FrameQueue) :
    Run.UnlessCut (host.deliver id signature results edges frames)
      (host'.deliver id signature results edges frames) := by
  have hforward : ∀ edge frames, Run.UnlessCut (host.forward id edge results frames)
      (host'.forward id edge results frames) := by
    intro edge frames
    unfold forward
    cases results.get? edge.fromKey with
    | none => exact (Run.unlessCut_note _ _).andThen fun _ => Run.unlessCut_result _
    | some flow =>
      cases flow with
      | value value => exact Run.unlessCut_result _
      | stop =>
        refine (Run.unlessCut_note _ _).andThen fun _ => ?_
        exact (Run.unlessCut_emit _ _ _).andThen fun _ => Run.unlessCut_result _
  induction edges generalizing frames with
  | nil => exact Run.unlessCut_result _
  | cons edge rest ih =>
    unfold deliver
    split
    · exact (hforward edge frames).andThen ih
    · split
      · exact (Run.unlessCut_note _ _).andThen fun _ => ih frames
      · exact ih frames

section Scheduler

variable (hcatalog : host.catalog = host'.catalog) (hdet : host.catalog.Deterministic)
  (hn : ∀ caller p frames, Run.UnlessCut (nested caller p frames) (nested' caller p frames))
include hcatalog hdet hn

private theorem process_unlessCut (caller : String) (p : Program) (id : String) (frame : Frame)
    (frames : FrameQueue) (outputs : Record Json) :
    Run.UnlessCut (host.process nested caller p id frame frames outputs)
      (host'.process nested' caller p id frame frames outputs) := by
  unfold process
  rw [← hcatalog]
  cases p.node? id with
  | none => exact (Run.unlessCut_note _ _).andThen fun _ => Run.unlessCut_result _
  | some node =>
    simp only
    cases hentry : host.catalog.get? node.function with
    | none => exact Run.unlessCut_halt _
    | some entry =>
      have hfire : Run.UnlessCut (host.fire nested caller p id node entry frame frames)
          (host'.fire nested' caller p id node entry frame frames) := by
        refine (Run.unlessCut_ofExcept _).andThen fun extraction => ?_
        refine (Run.unlessCut_note _ _).andThen fun _ => ?_
        refine (Run.unlessCut_emit _ _ _).andThen fun _ => ?_
        refine (invokeCached_unlessCut hn hdet hentry _ _ _).andThen fun results => ?_
        exact (deliver_unlessCut id _ results _ _).andThen fun frames => Run.unlessCut_result _
      simp only
      split
      · refine hfire.andThen fun fired => ?_
        split <;> exact Run.unlessCut_result _
      · exact (Run.unlessCut_note _ _).andThen fun _ => Run.unlessCut_result _

/-- With no fewer steps, a queue is drained in the same way unless it was cut off. -/
theorem drain_unlessCut (caller : String) (p : Program) {steps steps' : Nat} (h : steps ≤ steps')
    (frames : FrameQueue) (outputs : Record Json) :
    Run.UnlessCut (host.drain nested caller p steps frames outputs)
      (host'.drain nested' caller p steps' frames outputs) := by
  induction steps generalizing steps' frames outputs with
  | zero =>
    cases hpop : frames.pop? with
    | none =>
      -- An empty queue needs no step.
      have hdone : host'.drain nested' caller p steps' frames outputs = Run.result outputs := by
        cases steps' <;> (simp only [drain, hpop]; rfl)
      rw [hdone]
      simp only [drain, hpop]
      exact Run.unlessCut_result outputs
    | some popped =>
      obtain ⟨⟨id, frame⟩, rest⟩ := popped
      simp only [drain, hpop, exhaust, Run.bind_eq, Run.pure_eq]
      have hkeeps : ∀ s, (Run.andThen (Run.andThen (Run.note
            (.budgetExhausted caller (id :: rest.pending).length)) fun _ =>
            Run.emit host.observer (.budgetExhausted caller (id :: rest.pending)))
          (fun _ => Run.result outputs) s).2.events =
          s.events.push (.budgetExhausted caller (id :: rest.pending)) := by
        intro s
        rw [Run.andThen_of_ok ((Run.andThen_of_ok (Run.note_eq ..)).trans (Run.emit_eq ..))]
        exact Run.emit_events ..
      refine ⟨fun s => ?_, fun s s' _ _ huncut => ?_⟩
      · rw [hkeeps, Array.toList_push]
        exact List.prefix_append ..
      · -- The cut is told.
        refine absurd rfl (huncut (.budgetExhausted caller (id :: rest.pending)) ?_)
        rw [hkeeps]
        exact Array.mem_push_self
  | succ steps ih =>
    obtain ⟨steps', rfl⟩ : ∃ k, steps' = k + 1 := ⟨steps' - 1, by omega⟩
    simp only [drain]
    cases frames.pop? with
    | none => exact Run.unlessCut_result _
    | some popped =>
      refine (process_unlessCut hcatalog hdet hn caller p _ _ _ outputs).andThen fun progress => ?_
      cases progress with
      | complete outputs => exact Run.unlessCut_result _
      | next frames outputs => exact ih (by omega) frames outputs

end Scheduler

/-! ### Executions of programs that fit -/

/-- Executions that follow no program that does not fit, as if it were nested too deeply. -/
def executeOnly (fits : Program → Bool) (host : Host) : (depth : Nat) → Executor
  | 0 => fun _ _ _ => Run.halt .outOfDepth
  | depth + 1 => fun caller p frames =>
    if fits p then
      host.drain (executeOnly fits host depth) caller p (p.steps host.slack) frames .empty
    else Run.halt .outOfDepth

/-- An execution that has an answer without the programs that do not fit executes none of them. -/
theorem executeOnly_persists (fits : Program → Bool) (host : Host) (depth : Nat) :
    (host.executeOnly fits depth).Persists (host.execute depth) := by
  induction depth with
  | zero => exact fun _ _ _ => .refl _
  | succ depth ih =>
    intro caller p frames
    simp only [executeOnly]
    split
    · exact drain_persists ih caller p _ frames .empty
    · exact fun s hs => absurd rfl hs

/-- **Executions with more slack do the same, unless those with less are cut off.** -/
theorem execute_unlessCut (hcatalog : host.catalog = host'.catalog)
    (hdet : host.catalog.Deterministic) (hslack : host.slack ≤ host'.slack) {fits : Program → Bool}
    (hfits : ∀ q, fits q = true → q.size + host'.slack.toNat < 2 ^ 64) (depth : Nat)
    (caller : String) (p : Program) (frames : FrameQueue) :
    Run.UnlessCut (host.executeOnly fits depth caller p frames)
      (host'.execute depth caller p frames) := by
  induction depth generalizing caller p frames with
  | zero => exact Run.unlessCut_halt _
  | succ depth ih =>
    simp only [executeOnly]
    split
    · rename_i hp
      have hmore : host.slack.toNat ≤ host'.slack.toNat := UInt64.le_iff_toNat_le.1 hslack
      have hsize := hfits p hp
      have hsteps : p.steps host.slack ≤ p.steps host'.slack := by
        rw [steps_of_lt hsize, steps_of_lt (lt_of_le_of_lt (Nat.add_le_add_left hmore _) hsize)]
        omega
      exact drain_unlessCut hcatalog hdet ih caller p hsteps frames .empty
    · exact ⟨fun _ => List.prefix_rfl, fun _ _ _ hne _ => absurd rfl hne⟩

end Host

/-! ### Top-level runs -/

namespace Environment

variable {env env' : Environment}

/-- The run has an answer, and every program that is executed for it fits: the program itself, the
programs that are called below it and the bodies of callbacks. -/
def ExecutesOnly (env : Environment) (fits : Program → Bool) (depth : Nat) (run : String)
    (random : RandomSource) (p : Program) (inputs : Record Json) : Prop :=
  (env.sessionOf (env.host.executeOnly fits depth) run p inputs
    ⟨env.cache.map MemoCache.clear, #[], #[], random⟩).1 ≠ .error .outOfDepth

private theorem sessionOf_unlessCut (env env' : Environment) {nested nested' : Executor}
    (hn : ∀ caller p frames, Run.UnlessCut (nested caller p frames) (nested' caller p frames))
    (run run' : String) (p : Program) (inputs : Record Json) :
    Run.UnlessCut (env.sessionOf nested run p inputs) (env'.sessionOf nested' run' p inputs) := by
  unfold sessionOf
  simp only [Run.bind_eq, Run.pure_eq]
  refine (Run.unlessCut_note _ _).andThen fun _ => (Run.unlessCut_emit _ _ _).andThen fun _ => ?_
  refine (Host.runProgram_unlessCut hn p inputs mainCaller).attempt.andThen fun answer => ?_
  cases answer with
  | ok outputs =>
    refine (Run.unlessCut_note _ _).andThen fun _ => ?_
    exact (Run.unlessCut_emit _ _ _).andThen fun _ => Run.unlessCut_result _
  | error error =>
    refine (Run.unlessCut_note _ _).andThen fun _ => ?_
    exact (Run.unlessCut_emit _ _ _).andThen fun _ => Run.unlessCut_halt _

/-- **More slack never changes a run that was not cut off.** Two environments have the same
functions, which draw no random numbers, and the same cache, and the second has no less slack. If a
run in the first executes only programs whose budget does not overflow with the slack of the second,
and tells of no exhausted budget at any level, then the run in the second has the same outcome,
tells the same events and leaves the same cache behind, with the same counters. -/
theorem runWithin_eq_of_uncut (hcatalog : env.catalog = env'.catalog)
    (hcache : env.cache = env'.cache) (hdet : env.catalog.Deterministic)
    (hslack : env.config.budgetSlack ≤ env'.config.budgetSlack) {depth : Nat} {run : String}
    {random : RandomSource} {p : Program} {inputs : Record Json}
    (hfits : env.ExecutesOnly (fun q => q.size + env'.config.budgetSlack.toNat < 2 ^ 64) depth run
      random p inputs)
    (huncut : ∀ e ∈ (env.runWithin depth run random p inputs).events,
      e.kind ≠ "budgetExhausted") (run' : String) (random' : RandomSource) :
    (env'.runWithin depth run' random' p inputs).outcome =
        (env.runWithin depth run random p inputs).outcome ∧
      (env'.runWithin depth run' random' p inputs).events =
        (env.runWithin depth run random p inputs).events ∧
      (env'.runWithin depth run' random' p inputs).environment.cache =
        (env.runWithin depth run random p inputs).environment.cache := by
  let fits : Program → Bool := fun q => q.size + env'.config.budgetSlack.toNat < 2 ^ 64
  have hroom : ∀ q, fits q = true → q.size + env'.host.slack.toNat < 2 ^ 64 :=
    fun q hq => of_decide_eq_true hq
  have hstep : ∀ caller q frames, Run.UnlessCut (env.host.executeOnly fits depth caller q frames)
      (env'.host.execute depth caller q frames) :=
    Host.execute_unlessCut hcatalog hdet hslack hroom depth
  -- Nothing but programs that fit is executed, so the run is the one that follows no others.
  have honly : env.session depth run p inputs ⟨env.cache.map MemoCache.clear, #[], #[], random⟩ =
      env.sessionOf (env.host.executeOnly fits depth) run p inputs
        ⟨env.cache.map MemoCache.clear, #[], #[], random⟩ :=
    sessionOf_persists (Host.executeOnly_persists fits env.host depth) run p inputs _ hfits
  have hstart : Session.Alike ⟨env.cache.map MemoCache.clear, #[], #[], random⟩
      ⟨env'.cache.map MemoCache.clear, #[], #[], random'⟩ := ⟨by rw [hcache], rfl⟩
  have hsame := (sessionOf_unlessCut env env' hstep run run' p inputs).same _ _ hstart hfits
  rw [← honly] at hsame
  obtain ⟨houtcome, halike⟩ := hsame huncut
  exact ⟨houtcome, halike.events, halike.cache⟩

/-- With all the slack that the budget of two nodes leaves room for, the words of the flags are
those that come out with a slack of ten, and so are the events and the cache. -/
theorem runWithin_eq_of_uncut_words :
    let env := withWord (some ⟨1, false⟩)
    let env' := { env with config := { env.config with budgetSlack := 18446744073709551613 } }
    let inputs := .ofList [("flags", .array [.bool true, .bool false, .bool true])]
    (env'.runWithin 3 "later" default .wordsOf inputs).outcome =
        .ok (.ofList [("words", .array [.string "yes", .string "no", .string "yes"])]) ∧
      (env'.runWithin 3 "later" default .wordsOf inputs).events =
        (env.runWithin 3 "" default .wordsOf inputs).events ∧
      (env'.runWithin 3 "later" default .wordsOf inputs).environment.cache =
        (env.runWithin 3 "" default .wordsOf inputs).environment.cache := by
  intro env env' inputs
  have hfits : env.ExecutesOnly (fun q => q.size + env'.config.budgetSlack.toNat < 2 ^ 64) 3 ""
      default .wordsOf inputs := by
    rw [ExecutesOnly]
    decide +kernel
  have huncut : ∀ e ∈ (env.runWithin 3 "" default .wordsOf inputs).events,
      e.kind ≠ "budgetExhausted" := by decide +kernel
  have houtcome : (env.runWithin 3 "" default .wordsOf inputs).outcome =
      .ok (.ofList [("words", .array [.string "yes", .string "no", .string "yes"])]) := by
    decide +kernel
  have hcatalog : env.catalog = env'.catalog := rfl
  have hcache : env.cache = env'.cache := rfl
  have hslack : env.config.budgetSlack ≤ env'.config.budgetSlack := by decide +kernel
  obtain ⟨hsame, hevents, hcache⟩ := runWithin_eq_of_uncut hcatalog hcache
    (withWord_deterministic _) hslack hfits huncut "later" default
  exact ⟨hsame.trans houtcome, hevents, hcache⟩

end Environment

end Dataflow
