/-
How deeply calls are nested.

Calls are nested in two ways. A callback runs a program that is cut out of the one around it, and
that one is smaller. A function that was added as a program runs that program, and when programs do
not use each other in a circle this can only go on for so long. Both together bound the depth that a
program needs, whatever the slack, the cache and the inputs are.

* `Run.Settles` — a computation that always has an answer, unless it crashes;
* `Host.settlesBy_of_programs` — the depth that a program needs beyond the programs it uses;
* `Catalog.NonRecursive` — no program uses itself, directly or through others;
* `Host.exists_settlesBy` — then every program needs a finite depth.
-/
import Mathlib
import Dataflow.Proofs.CachedCall
import Dataflow.Proofs.Depth
import Dataflow.Proofs.Firing
import Dataflow.Proofs.Safety
import Dataflow.Proofs.Slice
namespace Dataflow

/-! ### Computations with an answer -/

namespace Run

variable {α β : Type}

/-- The computation never runs out of depth. -/
def Settles (r : Run α) : Prop := ∀ s, (r s).1 ≠ .error .outOfDepth

private theorem settles_result (a : α) : (result a).Settles := fun _ h => nomatch h

private theorem settles_fail (error : RunError) :
    (fail error : Run α).Settles := fun _ h => nomatch h

private theorem settles_ofExcept (e : Except RunError α) : (ofExcept e).Settles := by
  cases e with
  | ok a => exact settles_result a
  | error error => exact settles_fail error

private theorem settles_emit (observer : Observer) (e : Event) : (emit observer e).Settles := by
  intro s h
  rw [(emit_outcome observer e s).1] at h
  cases h

theorem Settles.andThen {r : Run α} {f : α → Run β} (hr : r.Settles) (hf : ∀ a, (f a).Settles) :
    (r.andThen f).Settles := by
  intro s
  rcases h : r s with ⟨halt | a, s'⟩
  · rw [andThen_of_error h]
    intro hout
    cases hout
    exact hr s (congrArg Prod.fst h)
  · rw [andThen_of_ok h]
    exact hf a s'

theorem Settles.attempt {r : Run α} (hr : r.Settles) : r.attempt.Settles := by
  intro s
  rw [attempt_eq]
  exact fun hout => hr s (caught_eq_outOfDepth.1 hout)

/-- A computation that settles has an answer or crashes. -/
theorem Settles.ended {r : Run α} (hr : r.Settles) (s : Session) :
    (∃ answer : Except RunError α, (r s).1 = answer.mapError .failed) ∨
      (r s).1 = .error .crashed := by
  rcases h : (r s).1 with (error | _ | _) | a
  · exact .inl ⟨.error error, rfl⟩
  · exact .inr rfl
  · exact absurd h (hr s)
  · exact .inl ⟨.ok a, rfl⟩

end Run

private theorem Script.perform_settles {α : Type}
    {answer : String → Record Json → Run (Record Json)}
    (h : ∀ callback args, (answer callback args).Settles) (script : Script α) :
    (script.perform answer).Settles := by
  induction script with
  | done a => exact Run.settles_result a
  | fail error => exact Run.settles_fail error
  | crash => exact fun _ h => nomatch h
  | call callback args resume ih => exact (h callback args).attempt.andThen ih
  | remark level text next ih => exact Run.Settles.andThen (fun _ h => nomatch h) fun _ => ih
  | random resume ih => exact Run.Settles.andThen (fun _ h => nomatch h) ih

/-! ### Programs that need no more than a given depth -/

/-- The program of a function that is one. -/
def Entry.program? : Entry → Option Program
  | .native .. => none
  | .program _ p => some p

namespace Host

variable {host : Host} {nested : Executor} {depth deeper : Nat} {p : Program}

private theorem callClosure_settles {closures : Record Closure}
    (h : ∀ name closure, closures.get? name = some closure →
      ∀ caller frames, (nested caller closure.program frames).Settles)
    (caller name : String) (args : Record Json) :
    (callClosure nested closures caller name args).Settles := by
  unfold callClosure
  cases hclosure : closures.get? name with
  | none => exact Run.settles_fail _
  | some closure =>
    exact (Run.settles_ofExcept _).andThen fun frames => h name closure hclosure caller frames

/-- A call settles when the programs that it can run do. -/
theorem invokeCached_settles {entry : Entry} {closures : Record Closure}
    (hclosures : ∀ name closure, closures.get? name = some closure →
      ∀ caller frames, (nested caller closure.program frames).Settles)
    (hprogram : ∀ q, entry.program? = some q → ∀ caller frames, (nested caller q frames).Settles)
    (function : String) (args : Record Json) (caller : String) :
    (host.invokeCached nested function entry args closures caller).Settles := by
  have hinvoke : (invoke nested function entry args closures caller).Settles := by
    cases entry with
    | native signature runner =>
      exact Script.perform_settles (callClosure_settles hclosures caller) _
    | program signature q =>
      have hrun : (runProgram nested q args function).Settles :=
        (Run.settles_ofExcept _).andThen fun frames => hprogram q rfl function frames
      exact hrun.andThen fun values => Run.settles_result _
  intro s
  rcases invokeCached_follows host nested function entry args closures caller s with
    ⟨outputs, s', -, hhit⟩ | ⟨s₁, s₂, -, -, hcall⟩
  · rw [hhit]
    exact fun hout => nomatch hout
  · rw [hcall]
    exact hinvoke s₁

/-- An execution settles when all its calls do. -/
theorem drain_settles
    (hcalls : ∀ id node entry frames extraction, p.node? id = some node →
      host.catalog.get? node.function = some entry →
      Callback.extract p id entry.signature frames = .ok extraction → ∀ args caller,
      (host.invokeCached nested node.function entry args extraction.closures caller).Settles)
    (caller : String) (steps : Nat) (frames : FrameQueue) (outputs : Record Json) :
    (host.drain nested caller p steps frames outputs).Settles := by
  have hstep : ∀ {id frame frames outputs s firing} {result : Except Halt Progress × Session},
      host.Processed nested caller p id frame frames outputs s firing result →
      result.1 ≠ .error .outOfDepth := by
    intro id frame frames outputs s firing result h hout
    cases h with
    | dropped | unknown | deferred | unwired | fired => cases hout
    | failed hnode hentry _ hextract _ hcall =>
      cases hout
      exact hcalls _ _ _ _ _ hnode hentry hextract _ _ _ (congrArg Prod.fst hcall)
  intro s
  have hdrained : host.Drained nested caller p steps frames outputs s _ _ :=
    drain_drained steps frames outputs s
  generalize host.firings nested caller p steps frames outputs s = log at hdrained
  generalize host.drain nested caller p steps frames outputs s = final at hdrained
  induction hdrained with
  | empty | exhausted | complete => exact fun hout => nomatch hout
  | halted _ hprocessed =>
    intro hout
    cases hout
    exact hstep hprocessed rfl
  | next _ _ _ ih => exact ih

/-- From the given depth on, every execution of the program has an answer. -/
def SettlesBy (host : Host) (depth : Nat) (p : Program) : Prop :=
  ∀ deeper, depth ≤ deeper → ∀ caller frames, (host.execute deeper caller p frames).Settles

theorem SettlesBy.mono (h : host.SettlesBy depth p) (hle : depth ≤ deeper) :
    host.SettlesBy deeper p :=
  fun further hfurther => h further (le_trans hle hfurther)

end Host

namespace Catalog

/-- The programs that stand behind the functions of a program's nodes. -/
def programsIn (c : Catalog) (p : Program) : List Program :=
  p.nodes.entries.filterMap fun (_, node) => (c.get? node.function).bind Entry.program?

variable {c : Catalog} {p q : Program}

theorem mem_programsIn : q ∈ c.programsIn p ↔ ∃ id node entry, p.node? id = some node ∧
    c.get? node.function = some entry ∧ entry.program? = some q := by
  rw [programsIn, List.mem_filterMap]
  constructor
  · rintro ⟨⟨id, node⟩, hmem, h⟩
    obtain ⟨entry, hentry, hq⟩ := Option.bind_eq_some_iff.1 h
    exact ⟨id, node, entry, Table.mem_entries.1 hmem, hentry, hq⟩
  · rintro ⟨id, node, entry, hnode, hentry, hq⟩
    exact ⟨(id, node), Table.mem_entries.2 hnode, Option.bind_eq_some_iff.2 ⟨entry, hentry, hq⟩⟩

/-- A closure uses no program that the program around it does not use. -/
theorem mem_programsIn_of_extract {site : String} {signature : Signature} {frames : FrameQueue}
    {extraction : Extraction} (h : Callback.extract p site signature frames = .ok extraction)
    {name : String} {closure : Closure} (hclosure : extraction.closures.get? name = some closure)
    (hq : q ∈ c.programsIn closure.program) : q ∈ c.programsIn p := by
  obtain ⟨id, inner, entry, hinner, hentry, hq⟩ := mem_programsIn.1 hq
  obtain ⟨-, node, hnode, hfunction⟩ := Callback.node_of_closure h hclosure hinner
  exact mem_programsIn.2 ⟨id, node, entry, hnode, hfunction ▸ hentry, hq⟩

end Catalog

namespace Host

variable {host : Host} {depth : Nat} {p : Program}

/-- **Beyond the programs it uses, a program needs one level of depth for each node and one more.**
The closures that it makes are smaller and use the same programs. -/
theorem settlesBy_of_programs (h : ∀ q ∈ host.catalog.programsIn p, host.SettlesBy depth q) :
    host.SettlesBy (depth + p.size + 1) p := by
  induction hsize : p.size using Nat.strong_induction_on generalizing p with
  | _ size ih =>
    intro deeper hdeeper caller frames
    obtain ⟨below, rfl⟩ : ∃ below, deeper = below + 1 := ⟨deeper - 1, by omega⟩
    refine drain_settles (fun id node entry frames extraction hnode hentry hextract => ?_) caller _
      frames .empty
    refine fun args caller => invokeCached_settles (fun name closure hclosure => ?_)
      (fun q hq => ?_) node.function args caller
    · have hlt := Callback.size_lt_of_extract hextract hclosure
      have hinner : host.SettlesBy (depth + closure.program.size + 1) closure.program :=
        ih _ (hsize ▸ hlt)
          (fun q hq => h q (Catalog.mem_programsIn_of_extract hextract hclosure hq)) rfl
      exact hinner below (by omega)
    · exact h q (Catalog.mem_programsIn.2 ⟨id, node, entry, hnode, hentry, hq⟩) below (by omega)

/-- Where programs use each other to a finite depth, they settle. -/
theorem exists_settlesBy {c : Catalog} (h : Acc (fun q p => q ∈ c.programsIn p) p) :
    ∃ depth, ∀ host : Host, host.catalog = c → host.SettlesBy depth p := by
  induction h with
  | intro p _ ih =>
    choose! bound hbound using ih
    let depth := ((c.programsIn p).map bound).sum
    refine ⟨depth + p.size + 1, ?_⟩
    rintro host rfl
    refine settlesBy_of_programs fun q hq => (hbound q hq host rfl).mono ?_
    exact List.single_le_sum (by simp) _ (List.mem_map.2 ⟨q, hq, rfl⟩)

end Host

/-! ### Catalogs without recursion -/

namespace Catalog

/-- The functions that the program of a function calls and that are programs themselves. -/
def uses (c : Catalog) (name : String) : List String :=
  match (c.get? name).bind Entry.program? with
  | some p => (p.nodes.entries.map fun (_, node) => node.function).filter fun function =>
      ((c.get? function).bind Entry.program?).isSome
  | none => []

/-- No program uses itself, directly or through others. -/
def NonRecursive (c : Catalog) : Prop :=
  ∀ name, ¬ Relation.TransGen (fun f g => g ∈ c.uses f) name name

variable {c : Catalog} {f g : String} {p : Program}

private theorem mem_names_of_mem_uses (h : g ∈ c.uses f) : f ∈ c.names := by
  rw [uses] at h
  split at h
  · rename_i p hp
    obtain ⟨entry, hentry, -⟩ := Option.bind_eq_some_iff.1 hp
    exact List.mem_map.2 ⟨(f, entry), Record.mem_entries.2 hentry, rfl⟩
  · cases h

/-- The program of a function that another program calls is used by it. -/
theorem mem_uses {q : Program} (hp : (c.get? f).bind Entry.program? = some p)
    (hq : q ∈ c.programsIn p) :
    ∃ g ∈ c.uses f, (c.get? g).bind Entry.program? = some q := by
  obtain ⟨id, node, entry, hnode, hentry, hq⟩ := mem_programsIn.1 hq
  have hg : (c.get? node.function).bind Entry.program? = some q :=
    Option.bind_eq_some_iff.2 ⟨entry, hentry, hq⟩
  refine ⟨node.function, ?_, hg⟩
  rw [uses, hp]
  refine List.mem_filter.2 ⟨?_, by rw [hg]; rfl⟩
  exact List.mem_map.2 ⟨(id, node), Table.mem_entries.2 hnode, rfl⟩

/-- There are finitely many names, so without a circle every chain of uses ends. -/
theorem NonRecursive.wellFounded (h : c.NonRecursive) : WellFounded fun g f => g ∈ c.uses f := by
  let used : {name // name ∈ c.names} → {name // name ∈ c.names} → Prop :=
    fun g f => Relation.TransGen (fun f g => g ∈ c.uses f) f.1 g.1
  have : Finite {name // name ∈ c.names} := List.finite_toSet c.names
  have : IsTrans _ used := ⟨fun _ _ _ hab hbc => hbc.trans hab⟩
  have : Std.Irrefl used := ⟨fun name => h name.1⟩
  have hwf : WellFounded used := Finite.wellFounded_of_trans_of_irrefl used
  have hnames : ∀ name : {name // name ∈ c.names}, Acc (fun g f => g ∈ c.uses f) name.1 := by
    intro name
    induction name using hwf.induction with
    | _ name ih =>
      refine ⟨_, fun g hg => ?_⟩
      by_cases hmem : g ∈ c.names
      · exact ih ⟨g, hmem⟩ (.single hg)
      · -- A name without a function uses nothing.
        exact ⟨_, fun next hnext => absurd (mem_names_of_mem_uses hnext) hmem⟩
  refine ⟨fun f => ⟨_, fun g hg => ?_⟩⟩
  by_cases hmem : g ∈ c.names
  · exact hnames ⟨g, hmem⟩
  · exact ⟨_, fun next hnext => absurd (mem_names_of_mem_uses hnext) hmem⟩

/-- Over a catalog without recursion, every program uses others to a finite depth. -/
theorem NonRecursive.acc (h : c.NonRecursive) (p : Program) :
    Acc (fun q p => q ∈ c.programsIn p) p := by
  have hadded : ∀ f q, (c.get? f).bind Entry.program? = some q →
      Acc (fun q p => q ∈ c.programsIn p) q := by
    intro f
    induction f using h.wellFounded.induction with
    | _ f ih =>
      intro q hq
      refine ⟨_, fun r hr => ?_⟩
      obtain ⟨g, hg, hgr⟩ := mem_uses hq hr
      exact ih g hg r hgr
  refine ⟨_, fun q hq => ?_⟩
  obtain ⟨-, node, entry, -, hentry, hq⟩ := mem_programsIn.1 hq
  exact hadded node.function q (Option.bind_eq_some_iff.2 ⟨entry, hentry, hq⟩)

/-- A catalog whose programs use programs of lower rank only is not recursive. -/
theorem nonRecursive_of_rank (rank : String → Nat)
    (h : ∀ f ∈ c.names, ∀ g ∈ c.uses f, rank g < rank f) : c.NonRecursive := by
  have hlt : ∀ {f g}, Relation.TransGen (fun f g => g ∈ c.uses f) f g → rank g < rank f := by
    intro f g hfg
    induction hfg with
    | single hg => exact h f (mem_names_of_mem_uses hg) _ hg
    | tail _ hg ih => exact lt_trans (h _ (mem_names_of_mem_uses hg) _ hg) ih
  exact fun name hname => lt_irrefl _ (hlt hname)

end Catalog

/-! ### Top-level runs -/

namespace Environment

theorem session_settles {env : Environment} {depth : Nat} {p : Program}
    (h : env.host.SettlesBy depth p) (run : String) (inputs : Record Json) :
    (env.session depth run p inputs).Settles := by
  have hrun : (Host.runProgram (env.host.execute depth) p inputs mainCaller).Settles :=
    (Run.settles_ofExcept _).andThen fun frames => h depth le_rfl mainCaller frames
  unfold session
  simp only [Run.bind_eq, Run.pure_eq]
  refine Run.Settles.andThen (fun _ h => nomatch h) fun _ => ?_
  refine (Run.settles_emit _ _).andThen fun _ => ?_
  refine hrun.attempt.andThen fun answer => ?_
  cases answer with
  | ok outputs =>
    exact Run.Settles.andThen (fun _ h => nomatch h) fun _ =>
      (Run.settles_emit _ _).andThen fun _ => Run.settles_result outputs
  | error error =>
    exact Run.Settles.andThen (fun _ h => nomatch h) fun _ =>
      (Run.settles_emit _ _).andThen fun _ => Run.settles_fail error

end Environment

end Dataflow
