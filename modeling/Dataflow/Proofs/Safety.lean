/-
Validated programs do not fail for want of what they look up.

Validation looks at one graph, but what a run looks up can be anywhere below it: in a program that
is called as a function, or in the body of a callback. Every such invocation is fed: its functions
are known and it has all its inputs. A fed invocation makes only fed ones, because a ready node has
all declared inputs, library functions read and pass on only what they declare, and bodies are cut
out of programs that were checked.

* `Run.Safe` — a computation that fails with no lookup error;
* `Invocation.Reaches` — the calls of programs and callbacks below an invocation;
* `Invocation.Reaches.fed` — all of them are fed;
* `Host.execute_safe` — executions of known programs are safe;
* `Environment.error_of_valid` — so are runs of validated programs.
-/
import Mathlib
import Dataflow.Environment
import Dataflow.Proofs.CachedCall
import Dataflow.Proofs.Extraction
import Dataflow.Proofs.Flaw
import Dataflow.Proofs.History
import Dataflow.Proofs.Library
namespace Dataflow

/-! ### Computations -/

namespace Run

variable {α β : Type}

/-- A computation that never fails for want of what it looks up. -/
def Safe (r : Run α) : Prop :=
  ∀ s error, (r s).1 = .error (.failed error) → error.isLookup = false

theorem Safe.of_eq {r : Run α} (hr : r.Safe) {s s' : Session} {error : RunError}
    (h : r s = (.error (.failed error), s')) : error.isLookup = false :=
  hr s error (by rw [h])

private theorem safe_of_ok {r : Run α} (h : ∀ s, ∃ a, (r s).1 = .ok a) : r.Safe := by
  intro s error herror
  obtain ⟨a, ha⟩ := h s
  rw [ha] at herror
  cases herror

private theorem safe_result (a : α) : (result a).Safe := safe_of_ok fun _ => ⟨a, rfl⟩

private theorem safe_note (n : Note) : (note n).Safe := safe_of_ok fun _ => ⟨(), rfl⟩

private theorem safe_emit (observer : Observer) (e : Event) : (emit observer e).Safe :=
  safe_of_ok fun s => ⟨(), (emit_outcome observer e s).1⟩

private theorem safe_random : random.Safe := safe_of_ok fun _ => ⟨_, rfl⟩

private theorem safe_fail {error : RunError} (h : error.isLookup = false) :
    (fail error : Run α).Safe := by
  intro s other hother
  cases hother
  exact h

private theorem safe_crash : (halt .crashed : Run α).Safe := fun _ _ h => nomatch h

theorem Safe.andThen {r : Run α} {f : α → Run β} (hr : r.Safe)
    (hf : ∀ a, r.Gives a → (f a).Safe) : (r.andThen f).Safe := by
  intro s error herror
  rcases h : r s with ⟨halt | a, s'⟩
  · rw [andThen_of_error h] at herror
    cases herror
    exact hr.of_eq h
  · rw [andThen_of_ok h] at herror
    exact hf a ⟨s, s', h⟩ s' error herror

private theorem safe_attempt (r : Run α) : r.attempt.Safe := by
  intro s error herror
  rw [attempt_eq] at herror
  generalize (r s).1 = outcome at herror
  rcases outcome with (other | _ | _) | a <;> cases herror

/-- What is attempted safely does not answer with a lookup error. -/
theorem Safe.attempt_gives {r : Run α} (hr : r.Safe) {error : RunError}
    (h : r.attempt.Gives (.error error)) : error.isLookup = false := by
  obtain ⟨s, s', h⟩ := h
  rw [attempt_eq] at h
  exact hr s error (caught_eq_failed.1 (congrArg Prod.fst h))

end Run

/-! ### Scripts -/

/-- What a library function may do: it calls declared callbacks with all their inputs and does not
fail for want of anything. -/
def Limits.lookupFree (signature : Signature) : Limits :=
  ⟨fun error => error.isLookup = false, signature.Admits, True, True⟩

namespace Script

variable {α : Type} {answer : String → Record Json → Run (Record Json)} {signature : Signature}

/-- The callbacks that a script calls when it is run in a session. -/
inductive Asks (answer : String → Record Json → Run (Record Json)) :
    Script α → Session → String → Record Json → Prop where
  | here {callback : String} {args : Record Json}
    {resume : Except RunError (Record Json) → Script α} {s : Session} :
    Asks answer (.call callback args resume) s callback args
  | later {callback name : String} {args values : Record Json}
    {resume : Except RunError (Record Json) → Script α} {s s' : Session}
    {reply : Except RunError (Record Json)} :
    (answer callback args).attempt s = (.ok reply, s') → Asks answer (resume reply) s' name values →
    Asks answer (.call callback args resume) s name values
  | remark {level : Level} {text name : String} {values : Record Json} {next : Script α}
    {s : Session} : Asks answer next (Run.note (.remark level text) s).2 name values →
    Asks answer (.remark level text next) s name values
  | random {name : String} {values : Record Json} {resume : Float → Script α} {s s' : Session}
    {x : Float} : Run.random s = (.ok x, s') → Asks answer (resume x) s' name values →
    Asks answer (.random resume) s name values

/-- A script that may not fail for want of anything is safe, if its callbacks are. -/
theorem Within.perform_safe {script : Script α} (h : script.Within (.lookupFree signature))
    (hanswer : ∀ callback args, signature.Admits callback args → (answer callback args).Safe) :
    (script.perform answer).Safe := by
  induction h with
  | done a => exact Run.safe_result a
  | fail herror => exact Run.safe_fail herror
  | crash _ => exact Run.safe_crash
  | call hcall _ ih =>
    -- The script goes on with an answer that is no lookup error, because the callback is safe.
    refine (Run.safe_attempt _).andThen fun reply hreply => ih reply fun error herror => ?_
    exact (hanswer _ _ hcall).attempt_gives (herror ▸ hreply)
  | remark _ ih => exact (Run.safe_note _).andThen fun _ _ => ih
  | random _ _ ih => exact Run.safe_random.andThen fun x _ => ih x

/-- It calls declared callbacks only, with all their inputs. -/
theorem Within.admits {script : Script α} (h : script.Within (.lookupFree signature))
    (hanswer : ∀ callback args, signature.Admits callback args → (answer callback args).Safe)
    {s : Session} {name : String} {values : Record Json}
    (hasks : script.Asks answer s name values) : signature.Admits name values := by
  induction hasks with
  | here =>
    cases h with
    | call hcall _ => exact hcall
  | later hreply _ ih =>
    cases h with
    | call hcall hresume =>
      refine ih (hresume _ fun error herror => ?_)
      exact (hanswer _ _ hcall).attempt_gives ⟨_, _, herror ▸ hreply⟩
  | remark _ ih =>
    cases h with
    | remark hnext => exact ih hnext
  | random _ _ ih =>
    cases h with
    | random _ hresume => exact ih (hresume _)

end Script

/-! ### Invocations -/

/-- A call of a program, or of a callback by its name. -/
inductive Invocation where
  | program (caller : String) (p : Program) (args : Record Json)
  | callback (caller : String) (closures : Record Closure) (name : String) (args : Record Json)

namespace Invocation

variable {c : Catalog} {nested : Executor} {i j : Invocation}

/-- What an invocation does. -/
def run (nested : Executor) : Invocation → Run (Record Json)
  | .program caller p args => Host.runProgram nested p args caller
  | .callback caller closures name args => Host.callClosure nested closures caller name args

/-- The execution that an invocation starts. -/
inductive Starts : Invocation → String → Program → FrameQueue → Prop where
  | program {caller : String} {p : Program} {args : Record Json} {frames : FrameQueue} :
    p.firstFrames args = .ok frames → Starts (.program caller p args) caller p frames
  | callback {caller name : String} {closures : Record Closure} {args : Record Json}
    {closure : Closure} {frames : FrameQueue} : closures.get? name = some closure →
    closure.frames args = .ok frames →
    Starts (.callback caller closures name args) caller closure.program frames

/-- The invocations that an invocation makes by itself: the programs that its firings call, and the
callbacks that the library functions call in them, in whatever session it runs. -/
inductive Makes (host : Host) (depth : Nat) (i : Invocation) : Invocation → Prop where
  | program {caller : String} {p q : Program} {frames : FrameQueue} {s : Session} {f : Firing}
    {signature : Signature} : i.Starts caller p frames →
    f ∈ host.executionFirings depth caller p frames s → f.entry = .program signature q →
    Makes host depth i (.program f.node.function q f.args)
  | callback {caller name : String} {p : Program} {frames waiting : FrameQueue} {s s' : Session}
    {f : Firing} {signature : Signature} {runner : Runner} {extraction : Extraction}
    {args : Record Json} : i.Starts caller p frames →
    f ∈ host.executionFirings depth caller p frames s → f.entry = .native signature runner →
    Callback.extract p f.id signature waiting = .ok extraction →
    (runner f.args extraction.closures.names).Asks
      (Host.callClosure (host.execute depth) extraction.closures caller) s' name args →
    Makes host depth i (.callback caller extraction.closures name args)

/-- The invocations below an invocation, with the depth that is left for them. -/
inductive Reaches (host : Host) : Nat → Invocation → Nat → Invocation → Prop where
  | self (depth : Nat) (i : Invocation) : Reaches host depth i depth i
  | made {depth left : Nat} {i j k : Invocation} : i.Makes host depth j →
    Reaches host depth j left k → Reaches host (depth + 1) i left k

/-- An invocation of known functions that has all its inputs. -/
inductive Fed (c : Catalog) : Invocation → Prop where
  | program {caller : String} {p : Program} {args : Record Json} : p.Known c →
    (∀ b ∈ p.input, args.contains b.name = true) → Fed c (.program caller p args)
  | callback {caller name : String} {closures : Record Closure} {args : Record Json}
    {closure : Closure} : closures.get? name = some closure → closure.program.Known c →
    (∀ b ∈ closure.program.input, args.contains b.name = true) →
    Fed c (.callback caller closures name args)

/-- A fed invocation executes a known program. -/
theorem Fed.known (h : i.Fed c) {caller : String} {p : Program} {frames : FrameQueue}
    (hstarts : i.Starts caller p frames) : p.Known c := by
  cases h with
  | program hp _ =>
    cases hstarts with
    | program _ => exact hp
  | callback hclosure hp _ =>
    cases hstarts with
    | callback hclosure' _ =>
      cases hclosure.symm.trans hclosure'
      exact hp

/-- A fed invocation is safe, if executions of known programs are. -/
theorem Fed.safe (h : i.Fed c)
    (hn : ∀ caller p frames, p.Known c → (nested caller p frames).Safe) : (i.run nested).Safe := by
  cases h with
  | program hp hinputs =>
    obtain ⟨frames, hframes⟩ := Program.exists_firstFrames hinputs
    rw [run, Host.runProgram, hframes]
    exact (Run.safe_result frames).andThen fun frames _ => hn _ _ frames hp
  | callback hclosure hp hinputs =>
    obtain ⟨frames, hframes⟩ := Closure.exists_frames hinputs
    rw [run, Host.callClosure, hclosure]
    simp only [hframes]
    exact (Run.safe_result frames).andThen fun frames _ => hn _ _ frames hp

end Invocation

/-! ### Catalogs -/

/-- A catalog of library functions and of programs that call functions of the catalog. -/
def Catalog.Closed (c : Catalog) : Prop :=
  ∀ name entry, c.get? name = some entry →
    (∃ f ∈ Library.functions, entry = .native f.signature f.runner) ∨
      ∃ p, entry = .ofProgram p ∧ p.Known c

/-- The parameters of a list of bindings have all its names. -/
theorem Program.mem_names_params {b : Binding} {bindings : List Binding} (hb : b ∈ bindings)
    (seen : List String) : b.name ∈ seen ∨ b.name ∈ Param.names (params seen bindings) := by
  induction bindings generalizing seen with
  | nil => cases hb
  | cons first rest ih =>
    rw [params]
    rcases List.mem_cons.1 hb with rfl | hb
    · split
      · exact .inl (by assumption)
      · exact .inr (List.mem_cons_self ..)
    · split
      · exact ih hb seen
      · rcases ih hb (first.name :: seen) with hseen | hnames
        · rcases List.mem_cons.1 hseen with hname | hseen
          · exact .inr (hname ▸ List.mem_cons_self ..)
          · exact .inl hseen
        · exact .inr (List.mem_cons_of_mem _ hnames)

namespace Invocation

variable {c : Catalog}

/-- A program that is called as a function with all declared inputs is fed. -/
theorem fed_program {p : Program} {args : Record Json} (hp : p.Known c)
    (hargs : ∀ key ∈ p.signature.inputNames, args.contains key = true) (caller : String) :
    (Invocation.program caller p args).Fed c := by
  refine .program hp fun b hb => hargs b.name ?_
  rcases Program.mem_names_params hb [] with hseen | hnames
  · cases hseen
  · exact hnames

/-- A declared callback that is called with all its inputs is fed. -/
theorem fed_callback {p : Program} {id name : String} {node : Node} {signature : Signature}
    {frames : FrameQueue} {extraction : Extraction} {args : Record Json} (hp : p.Known c)
    (hnode : p.node? id = some node)
    (hextract : Callback.extract p id signature frames = .ok extraction)
    (hadmits : signature.Admits name args) (caller : String) :
    (Invocation.callback caller extraction.closures name args).Fed c := by
  obtain ⟨callback, hcallback, hargs⟩ := hadmits
  obtain ⟨closure, hclosure, hknown, hinput⟩ :=
    Callback.exists_closure hnode hextract hcallback hp
  exact .callback hclosure hknown fun b hb => hargs b.name (hinput b hb)

end Invocation

/-- A library function that has its declared arguments does not fail for want of anything. -/
theorem Library.function_lookupFree {f : NativeFunction} (hf : f ∈ functions) {args : Record Json}
    (hargs : ∀ key ∈ f.signature.inputNames, args.contains key = true) (callbacks : List String) :
    (f.runner args callbacks).Within (.lookupFree f.signature) := by
  refine function_within hf callbacks ⟨fun _ h => h, fun key hkey hnone => ?_, fun _ _ h => h⟩
    (fun _ => trivial) fun _ _ => trivial
  have hcontains := hargs key hkey
  rw [Record.contains_eq_false.2 hnone] at hcontains
  cases hcontains

/-! ### Executions -/

namespace Host

variable {host : Host} {nested : Executor} {caller : String} {p : Program}

/-- The function of a ready node is called safely. -/
theorem invoke_safe (hc : host.catalog.Closed)
    (hn : ∀ caller p frames, p.Known host.catalog → (nested caller p frames).Safe)
    (hp : p.Known host.catalog) {id : String} {node : Node} {entry : Entry} {frames : FrameQueue}
    {extraction : Extraction} (hcalls : p.Calls host.catalog id node entry)
    (hextract : Callback.extract p id entry.signature frames = .ok extraction) {args : Record Json}
    (hargs : ∀ key ∈ entry.signature.inputNames, args.contains key = true) (caller : String) :
    (invoke nested node.function entry args extraction.closures caller).Safe := by
  -- A library function is bounded by its signature, a program by its bindings.
  rcases hc _ _ hcalls.entry_eq with ⟨f, hf, rfl⟩ | ⟨q, rfl, hq⟩
  · refine (Library.function_lookupFree hf hargs _).perform_safe fun name values hadmits => ?_
    exact (Invocation.fed_callback hp hcalls.node_eq hextract hadmits caller).safe hn
  · have hcall := (Invocation.fed_program hq hargs node.function).safe hn
    exact hcall.andThen fun values _ => Run.safe_result _

/-- A cache adds no failures. -/
theorem invokeCached_safe {function : String} {entry : Entry} {args : Record Json}
    {closures : Record Closure} (h : (invoke nested function entry args closures caller).Safe) :
    (host.invokeCached nested function entry args closures caller).Safe := by
  intro s error herror
  rcases host.invokeCached_follows nested function entry args closures caller s with
    ⟨outputs, s', -, hhit⟩ | ⟨s₁, s₂, -, -, hcall⟩
  · rw [hhit] at herror
    cases herror
  · rw [hcall] at herror
    exact h s₁ error herror

/-- A step of a known program does not fail for want of anything. -/
theorem Processed.safe (hc : host.catalog.Closed)
    (hn : ∀ caller p frames, p.Known host.catalog → (nested caller p frames).Safe)
    (hp : p.Known host.catalog) {id : String} {frame : Frame} {frames : FrameQueue}
    {outputs : Record Json} {s : Session} {firing : Option Firing}
    {result : Except Halt Progress × Session} {error : RunError}
    (h : host.Processed nested caller p id frame frames outputs s firing result)
    (herror : result.1 = .error (.failed error)) : error.isLookup = false := by
  cases h with
  | dropped _ _ | deferred _ _ _ _ => cases herror
  | unknown hnode hentry =>
    obtain ⟨entry, hcalls⟩ := hp _ _ hnode
    cases hentry.symm.trans hcalls.entry_eq
  | unwired _ _ _ hextract =>
    cases herror
    obtain ⟨callback, key, side, rfl⟩ := Callback.extract_eq_error hextract
    rfl
  | failed hnode hentry hready hextract _ hcall =>
    cases herror
    have hsafe := invoke_safe hc hn hp ⟨hnode, hentry⟩ hextract
      (fun key hkey => (Node.contains_arguments hready key).2 hkey) caller
    exact (invokeCached_safe hsafe).of_eq hcall
  | fired _ _ _ _ _ _ _ => cases herror

/-- Nor does any sequence of steps. -/
theorem Drained.safe (hc : host.catalog.Closed)
    (hn : ∀ caller p frames, p.Known host.catalog → (nested caller p frames).Safe)
    (hp : p.Known host.catalog) {steps : Nat} {frames : FrameQueue} {outputs : Record Json}
    {s : Session} {log : List Firing} {final : Except Halt (Record Json) × Session}
    {error : RunError} (h : host.Drained nested caller p steps frames outputs s log final)
    (herror : final.1 = .error (.failed error)) : error.isLookup = false := by
  induction h with
  | empty _ | exhausted _ | complete _ _ => cases herror
  | halted _ hprocessed =>
    cases herror
    exact hprocessed.safe hc hn hp rfl
  | next _ _ _ ih => exact ih herror

/-- **Executions of known programs are safe**, however deeply calls are followed. -/
theorem execute_safe (hc : host.catalog.Closed) (depth : Nat) (caller : String) (p : Program)
    (frames : FrameQueue) (hp : p.Known host.catalog) :
    (host.execute depth caller p frames).Safe := by
  -- Induction on the depth: the calls inside an execution are followed one level less.
  induction depth generalizing caller p frames with
  | zero =>
    intro s error herror
    cases herror
  | succ depth ih =>
    intro s error herror
    exact (drain_drained (p.steps host.slack) frames .empty s).safe hc ih hp herror

end Host

namespace Invocation

variable {host : Host} {i j : Invocation} {depth left : Nat}

/-- A fed invocation makes fed ones. -/
theorem Makes.fed (hc : host.catalog.Closed) (hi : i.Fed host.catalog)
    (h : i.Makes host depth j) : j.Fed host.catalog := by
  -- Every firing has the arguments that its function declares.
  have hfiring : ∀ {caller p frames s f}, f ∈ host.executionFirings depth caller p frames s →
      p.Calls host.catalog f.id f.node f.entry ∧
        ∀ key ∈ f.entry.signature.inputNames, f.args.contains key = true := by
    intro caller p frames s f hf
    obtain ⟨before, after, hlog⟩ := List.append_of_mem hf
    have hjustified := (Host.drain_drained (p.steps host.slack) frames .empty s).justified
      (FrameQueue.tracks_deliveries p frames) hlog
    exact ⟨⟨hjustified.node, hjustified.entry⟩, fun key hkey => (hjustified.names key).2 hkey⟩
  cases h with
  | program hstarts hf hentry =>
    obtain ⟨hcalls, hargs⟩ := hfiring hf
    rw [hentry] at hargs
    rcases hc _ _ (hentry ▸ hcalls.entry_eq) with ⟨g, -, heq⟩ | ⟨q, heq, hq⟩
    · cases heq
    · cases heq
      exact fed_program hq hargs _
  | callback hstarts hf hentry hextract hasks =>
    obtain ⟨hcalls, hargs⟩ := hfiring hf
    rw [hentry] at hargs
    have hp := hi.known hstarts
    rcases hc _ _ (hentry ▸ hcalls.entry_eq) with ⟨g, hg, heq⟩ | ⟨q, heq, -⟩
    · cases heq
      refine fed_callback hp hcalls.node_eq hextract ?_ _
      refine (Library.function_lookupFree hg hargs _).admits (fun name values hadmits => ?_) hasks
      exact (fed_callback hp hcalls.node_eq hextract hadmits _).safe (Host.execute_safe hc depth)
    · cases heq

/-- **All invocations below a fed one are fed.** -/
theorem Reaches.fed (hc : host.catalog.Closed) (hi : i.Fed host.catalog)
    (h : i.Reaches host depth left j) : j.Fed host.catalog := by
  induction h with
  | self _ _ => exact hi
  | made hmakes _ ih => exact ih (hmakes.fed hc hi)

end Invocation

/-! ### Environments -/

private theorem RunError.cause_of_not_isLookup {error : RunError} (h : error.isLookup = false) :
    (∃ callback key side, error = .callbackWiring callback key side) ∨
      (∃ key expected, error = .invalidArgument key expected) ∨
      ∃ reason, error = .executionFailed reason := by
  cases error with
  | callbackWiring callback key side => exact .inl ⟨callback, key, side, rfl⟩
  | invalidArgument key expected => exact .inr (.inl ⟨key, expected, rfl⟩)
  | executionFailed reason => exact .inr (.inr ⟨reason, rfl⟩)
  | functionNotFound _ | missingInput _ | missingCallbackInput _ _ | argumentNotFound _
  | unknownCallback _ | serialization _ => cases h

namespace Environment

variable {env : Environment} {registered : List (String × Program)} {p : Program}
  {inputs : Record Json}

/-- The environments over the library to which the listed programs have been added as functions.
They may have an observer and may have been used for runs. -/
inductive Holds : List (String × Program) → Environment → Prop where
  | library (config : Config) (notes : Array Note) :
    Holds [] ((ofConfig Library.catalog config).run' notes)
  | added {registered : List (String × Program)} {env : Environment} (name : String) (p : Program)
    (notes : Array Note) : Holds registered env →
    Holds ((name, p) :: registered) ((env.addFunction name p).run' notes)
  | observed {registered : List (String × Program)} {env : Environment} (observer : Observer) :
    Holds registered env → Holds registered { env with observer := observer }
  | used {registered : List (String × Program)} {env : Environment} (depth : Nat) (run : String)
    (random : RandomSource) (p : Program) (inputs : Record Json) : Holds registered env →
    Holds registered (env.runWithin depth run random p inputs).environment

theorem catalog_ofConfig (catalog : Catalog) (config : Config) (notes : Array Note) :
    ((ofConfig catalog config).run' notes).catalog = catalog := by
  rw [ofConfig]
  split <;> rfl

/-- What stands in the catalog is from the library or was added. -/
theorem Holds.get?_catalog (h : Holds registered env) {name : String} {entry : Entry}
    (hentry : env.catalog.get? name = some entry) :
    (∃ f ∈ Library.functions, entry = .native f.signature f.runner) ∨
      ∃ r ∈ registered, entry = .ofProgram r.2 := by
  induction h with
  | library config notes =>
    rw [catalog_ofConfig] at hentry
    obtain ⟨f, hf, -, rfl⟩ := Library.get?_catalog hentry
    exact .inl ⟨f, hf, rfl⟩
  | @added registered env added p notes _ ih =>
    have hregister : (env.catalog.register added (.ofProgram p)).get? name = some entry := hentry
    rw [Catalog.get?_register] at hregister
    split at hregister
    · cases hregister
      exact .inr ⟨(added, p), List.mem_cons_self .., rfl⟩
    · rcases ih hregister with hlibrary | ⟨r, hr, rfl⟩
      · exact .inl hlibrary
      · exact .inr ⟨r, List.mem_cons_of_mem _ hr, rfl⟩
  | observed _ _ ih | used _ _ _ _ _ _ ih => exact ih hentry

theorem known_of_validate (h : env.validate p = []) : p.Known env.catalog :=
  fun _ _ hnode => (Program.valid_of_validate h).functions hnode

theorem Holds.closed (h : Holds registered env) (hvalid : ∀ r ∈ registered, env.validate r.2 = []) :
    env.catalog.Closed := by
  intro name entry hentry
  rcases h.get?_catalog hentry with hlibrary | ⟨r, hr, rfl⟩
  · exact .inl hlibrary
  · exact .inr ⟨r.2, rfl, known_of_validate (hvalid r hr)⟩

/-- A top-level run fails as its program does. -/
theorem session_safe {depth : Nat}
    (h : (Host.runProgram (env.host.execute depth) p inputs mainCaller).Safe) (run : String) :
    (env.session depth run p inputs).Safe := by
  unfold session
  simp only [Run.bind_eq, Run.pure_eq]
  refine (Run.safe_note _).andThen fun _ _ => (Run.safe_emit _ _).andThen fun _ _ => ?_
  refine (Run.safe_attempt _).andThen fun answer hanswer => ?_
  cases answer with
  | ok outputs =>
    refine (Run.safe_note _).andThen fun _ _ => (Run.safe_emit _ _).andThen fun _ _ => ?_
    exact Run.safe_result outputs
  | error error =>
    refine (Run.safe_note _).andThen fun _ _ => (Run.safe_emit _ _).andThen fun _ _ => ?_
    exact Run.safe_fail (h.attempt_gives hanswer)

/-- **Validated programs do not fail for want of what they look up.** In an environment over the
library in which all added programs are valid, a run of a valid program with all its inputs fails
only because a callback is not wired, an argument is of the wrong kind or a function gives up; and
so does every call of a program or a callback below it. -/
theorem error_of_valid (henv : Holds registered env)
    (hregistered : ∀ r ∈ registered, env.validate r.2 = []) (hp : env.validate p = [])
    (hinputs : ∀ b ∈ p.input, inputs.contains b.name = true) :
    (∀ depth run random error,
      (env.runWithin depth run random p inputs).outcome = .error (.failed error) →
      (∃ callback key side, error = .callbackWiring callback key side) ∨
        (∃ key expected, error = .invalidArgument key expected) ∨
        ∃ reason, error = .executionFailed reason) ∧
    ∀ depth left i, Invocation.Reaches env.host depth (.program mainCaller p inputs) left i →
      ∀ s error, (i.run (env.host.execute left) s).1 = .error (.failed error) →
      (∃ callback key side, error = .callbackWiring callback key side) ∨
        (∃ key expected, error = .invalidArgument key expected) ∨
        ∃ reason, error = .executionFailed reason := by
  have hc : env.host.catalog.Closed := henv.closed hregistered
  have htop : (Invocation.program mainCaller p inputs).Fed env.host.catalog :=
    .program (known_of_validate hp) hinputs
  refine ⟨fun depth run random error herror => ?_, fun depth left i hreaches s error herror => ?_⟩
  · have hsafe := session_safe (htop.safe (Host.execute_safe hc depth)) run
    exact RunError.cause_of_not_isLookup (hsafe _ error herror)
  · have hsafe := (hreaches.fed hc htop).safe (Host.execute_safe hc left)
    exact RunError.cause_of_not_isLookup (hsafe s error herror)

/-- Twice a number. -/
def twiceOf : Program where
  input := [⟨"x", ⟨"add", "a"⟩, .num⟩, ⟨"x", ⟨"add", "b"⟩, .num⟩]
  output := [⟨"sum", ⟨"add", "result"⟩, .num⟩]
  nodes := .ofList [("add", ⟨"math.add", [], .empty⟩)]

/-- Twice each number of an array: the body of the callback calls `twice`. -/
def doubled : Program where
  input := [⟨"xs", ⟨"map", "arr"⟩, .arrayOf .num⟩]
  output := [⟨"ys", ⟨"map", "arr"⟩, .arrayOf .num⟩]
  nodes := .ofList [
    ("map", ⟨"array.map", [⟨"body", "item", "x"⟩], .empty⟩),
    ("body", ⟨"twice", [⟨"map", "sum", "callback"⟩], .empty⟩)]

/-- The library with `twice`, with a cache. -/
def withTwice : Environment :=
  (((ofConfig Library.catalog ⟨some ⟨1, false⟩, 10, false⟩).run' #[]).addFunction "twice"
    twiceOf).run' #[]

/-- A text among the numbers is told as an argument of the wrong kind, from a program in the body of
a callback. -/
theorem error_of_valid_doubled :
    ∃ error, (withTwice.runWithin 4 "" default doubled
        (.ofList [("xs", .array [.string "one"])])).outcome = .error (.failed error) ∧
      ((∃ callback key side, error = .callbackWiring callback key side) ∨
        (∃ key expected, error = .invalidArgument key expected) ∨
        ∃ reason, error = .executionFailed reason) := by
  have henv : Holds [("twice", twiceOf)] withTwice := .added _ _ _ (.library _ _)
  have hregistered : ∀ r ∈ [("twice", twiceOf)], withTwice.validate r.2 = [] := by decide +kernel
  have hp : withTwice.validate doubled = [] := by decide +kernel
  have hinputs : ∀ b ∈ doubled.input,
      (Record.ofList [("xs", Json.array [.string "one"])]).contains b.name = true := by
    decide +kernel
  have herror : (withTwice.runWithin 4 "" default doubled
      (.ofList [("xs", .array [.string "one"])])).outcome =
        .error (.failed (.invalidArgument "a" "num")) := by decide +kernel
  exact ⟨_, herror, (error_of_valid henv hregistered hp hinputs).1 _ _ _ _ herror⟩

end Environment

end Dataflow
