/-
The scheduler computes the dataflow meaning of a graph.

As long as some node has a meaning and has not fired, the first of these in the order of the edges
is ready and stands in line. The frames before it go to the end of the line or fire, so it is
reached after fewer steps than there are nodes. A slack of the square of the number of nodes is
enough for all of them.

* `Program.Stage.exists_ready` — while something is missing, some node is ready;
* `Program.Enough` — the steps that are left suffice;
* `Host.Drained.completes` — a run that has enough steps ends with the meaning;
* `Host.runProgram_eval` — a run gives the meaning of the program.
-/
import Mathlib
import Dataflow.Library.Control
import Dataflow.Proofs.FeedForward
import Dataflow.Proofs.Steady
namespace Dataflow

namespace Program

variable {p : Program} {c : Catalog} {F : String → Record Json → Outputs} {inputs : Record Json}
  {fired : List String} {frames rest : FrameQueue} {outputs : Record Json} {id : String}
  {frame : Frame} {node : Node} {entry : Entry}

/-! ### Progress -/

/-- A node that stands in line with all that its function needs. -/
def Ready (p : Program) (c : Catalog) (frames : FrameQueue) (id : String) : Prop :=
  ∃ node entry frame, p.Calls c id node entry ∧ frames.get? id = some frame ∧
    node.isReady entry.signature frame = true

private theorem node?_of_eval (h : (p.eval c F inputs id).isSome) :
    ∃ node, p.node? id = some node := by
  rw [eval] at h
  cases hsize : p.size with
  | zero =>
    rw [hsize] at h
    cases h
  | succ size =>
    rw [hsize, evalWithin] at h
    cases hnode : p.node? id with
    | none =>
      rw [hnode] at h
      cases h
    | some node => exact ⟨node, rfl⟩

/-- A missing node is ready once all its sources have fired. -/
theorem Stage.ready_of_sources (hs : p.Stage c F inputs fired frames outputs)
    (h : p.FeedForward c) (hid : id ∉ fired) (heval : (p.eval c F inputs id).isSome)
    (hsources : ∀ e ∈ p.incoming id, e.1 ∈ fired) : p.Ready c frames id := by
  obtain ⟨node, hnode⟩ := node?_of_eval heval
  obtain ⟨entry, hcalls⟩ := h.valid.functions hnode
  rw [eval_eq h F hcalls, Option.isSome_map] at heval
  obtain ⟨args, hargs⟩ := Option.isSome_iff_exists.1 heval
  rw [← Stage.argumentsOf_given hsources] at hargs
  cases hframe : frames.get? id with
  | some frame =>
    refine ⟨node, entry, frame, hcalls, hframe, ?_⟩
    by_contra hready
    rw [argumentsOf_eq entry.signature (hs.get?_frame hframe), if_neg hready] at hargs
    cases hargs
  | none =>
    -- Without a frame nothing has been fed to the node; but then it is a head, and heads have one.
    have hfed : ∀ key, p.fed inputs (p.given c F inputs fired) id key = none := by
      intro key
      rw [← hs.gathered id hid (Option.isSome_iff_exists.2 ⟨node, hnode⟩), FrameQueue.gathered,
        hframe]
      rfl
    cases hincoming : p.incoming id with
    | nil => exact absurd (hs.heads id (mem_heads hnode hincoming) hid) (hs.sound.not_mem hframe)
    | cons e _ =>
      have he : e ∈ p.incoming id := hincoming ▸ List.mem_cons_self ..
      have hkey := h.toKey_mem hcalls he
      obtain ⟨-, -, hdefault⟩ := h.only_edge hcalls hkey (mem_edgesTo.2 ⟨he, rfl⟩)
      have hvalue := isSome_valueOf hargs hkey
      rw [valueOf, hfed, hdefault] at hvalue
      cases hvalue

/-- **While a node that has a meaning is missing, some node is ready.** -/
theorem Stage.exists_ready (hs : p.Stage c F inputs fired frames outputs) (h : p.FeedForward c)
    (hid : id ∉ fired) (heval : (p.eval c F inputs id).isSome) :
    ∃ other, p.Ready c frames other := by
  obtain ⟨rank, -, hrank⟩ := h.exists_rank
  -- Induction on the rank: a source that has not fired is missing as well.
  induction hn : rank id using Nat.strong_induction_on generalizing id with
  | _ n ih =>
    by_cases hsources : ∀ e ∈ p.incoming id, e.1 ∈ fired
    · exact ⟨id, hs.ready_of_sources h hid heval hsources⟩
    · push Not at hsources
      obtain ⟨e, he, hfired⟩ := hsources
      obtain ⟨node, hnode⟩ := node?_of_eval heval
      obtain ⟨entry, hcalls⟩ := h.valid.functions hnode
      have hsome := heval
      rw [eval_eq h F hcalls, Option.isSome_map] at hsome
      obtain ⟨args, hargs⟩ := Option.isSome_iff_exists.1 hsome
      exact ih (rank e.1) (hn ▸ hrank hnode e he) hfired (h.isSome_source hcalls hargs he) rfl

/-! ### Steps that are left -/

/-- The number of nodes that have a meaning and have not fired. -/
def missing (p : Program) (c : Catalog) (F : String → Record Json → Outputs) (inputs : Record Json)
    (fired : List String) : Nat :=
  (p.ids.filter fun id => (p.eval c F inputs id).isSome ∧ id ∉ fired).length

private theorem missing_le_size : p.missing c F inputs fired ≤ p.size := by
  have hlength : p.ids.length = p.size := List.length_map ..
  rw [missing, ← hlength]
  exact List.length_filter_le ..

/-- Each firing leaves less to be done. -/
theorem missing_concat (heval : (p.eval c F inputs id).isSome) (hid : id ∉ fired) :
    p.missing c F inputs (fired ++ [id]) < p.missing c F inputs fired := by
  have hfilter : p.ids.filter
      (fun other => (p.eval c F inputs other).isSome ∧ other ∉ fired ++ [id]) =
      (p.ids.filter fun other => (p.eval c F inputs other).isSome ∧ other ∉ fired).filter
        fun other => other ≠ id := by
    rw [List.filter_filter]
    refine List.filter_congr fun other _ => ?_
    by_cases hother : other = id <;> simp [hother]
  rw [missing, missing, hfilter, List.length_filter_lt_length_iff_exists]
  refine ⟨id, List.mem_filter.2 ⟨Table.mem_names.2 (node?_of_eval heval), ?_⟩, by simp⟩
  simp [heval, hid]

/-- The steps suffice for what is missing: nothing is, or some ready node stands in line, and there
is a step for each frame before it and for each frame that can wait before each later one. -/
def Enough (p : Program) (c : Catalog) (F : String → Record Json → Outputs) (inputs : Record Json)
    (fired : List String) (frames : FrameQueue) (steps : Nat) : Prop :=
  (∀ id, (p.eval c F inputs id).isSome → id ∈ fired) ∨
    ∃ before id after, frames.order = before ++ id :: after ∧ p.Ready c frames id ∧
      p.missing c F inputs fired * p.size + before.length + 1 ≤ steps + p.size

private theorem Stage.length_order (hs : p.Stage c F inputs fired frames outputs) :
    frames.order.length ≤ p.size := by
  have hlength : p.ids.length = p.size := List.length_map ..
  rw [← hlength]
  refine (hs.sound.nodup.subperm fun id hid => ?_).length_le
  exact Table.mem_names.2 (Option.isSome_iff_exists.1 (hs.waiting id hid).2)

/-- A round through the line for each missing node is enough. -/
theorem Stage.enough (hs : p.Stage c F inputs fired frames outputs) (h : p.FeedForward c)
    {steps : Nat} (hsteps : p.missing c F inputs fired * p.size ≤ steps) :
    p.Enough c F inputs fired frames steps := by
  by_cases hall : ∀ id, (p.eval c F inputs id).isSome → id ∈ fired
  · exact .inl hall
  · push Not at hall
    obtain ⟨id, heval, hid⟩ := hall
    obtain ⟨other, hready⟩ := hs.exists_ready h hid heval
    obtain ⟨node, entry, frame, hcalls, hframe, hnode⟩ := hready
    obtain ⟨before, after, horder⟩ :=
      List.append_of_mem ((hs.sound.mem_order other).2 ⟨frame, hframe⟩)
    refine .inr ⟨before, other, after, horder, ⟨node, entry, frame, hcalls, hframe, hnode⟩, ?_⟩
    have hlength := hs.length_order
    rw [horder, List.length_append, List.length_cons] at hlength
    omega

/-- A frame that is put back costs one step and is one frame less before the ready node. -/
theorem Stage.enough_defer (hs : p.Stage c F inputs fired frames outputs) {steps : Nat}
    (hpop : frames.pop? = some ((id, frame), rest)) (hcalls : p.Calls c id node entry)
    (hready : node.isReady entry.signature frame = false)
    (henough : p.Enough c F inputs fired frames (steps + 1)) :
    p.Enough c F inputs fired (rest.defer id frame) steps := by
  obtain ⟨horder, hframe, -⟩ := FrameQueue.pop?_eq_some hs.sound hpop
  rcases henough with hall | ⟨before, other, after, hsplit, hother, hsteps⟩
  · exact .inl hall
  · obtain ⟨node', entry', frame', hcalls', hframe', hready'⟩ := hother
    -- The ready node is not the one that is put back, so it is not the first in line.
    have hne : other ≠ id := by
      rintro rfl
      obtain ⟨rfl, rfl⟩ := hcalls.unique hcalls'
      cases hframe.symm.trans hframe'
      rw [hready] at hready'
      cases hready'
    cases before with
    | nil =>
      rw [horder] at hsplit
      cases hsplit
      exact absurd rfl hne
    | cons first before =>
      rw [horder, List.cons_append, List.cons.injEq] at hsplit
      obtain ⟨rfl, hsplit⟩ := hsplit
      refine .inr ⟨before, other, after ++ [id], ?_, ⟨node', entry', frame', hcalls', ?_, hready'⟩,
        ?_⟩
      · rw [FrameQueue.order_popped_deferred hs.sound hpop, hsplit, List.append_assoc,
          List.cons_append]
      · rw [FrameQueue.get?_popped_deferred hs.sound hpop, hframe']
      · rw [List.length_cons] at hsteps
        omega

/-- A firing leaves a round less to be done. -/
theorem missing_mul_le {steps : Nat} (heval : (p.eval c F inputs id).isSome) (hid : id ∉ fired)
    (henough : p.Enough c F inputs fired frames (steps + 1)) :
    p.missing c F inputs (fired ++ [id]) * p.size ≤ steps := by
  rcases henough with hall | ⟨before, other, after, -, -, hsteps⟩
  · exact absurd (hall id heval) hid
  · have hround : (p.missing c F inputs (fired ++ [id]) + 1) * p.size ≤
        p.missing c F inputs fired * p.size :=
      Nat.mul_le_mul_right _ (missing_concat heval hid)
    rw [Nat.add_mul, Nat.one_mul] at hround
    omega

/-- A node that is ready has a meaning and has not fired. -/
theorem Stage.missing_of_ready (hs : p.Stage c F inputs fired frames outputs) (h : p.FeedForward c)
    (hready : p.Ready c frames id) : (p.eval c F inputs id).isSome ∧ id ∉ fired := by
  obtain ⟨node, entry, frame, hcalls, hframe, hready⟩ := hready
  refine ⟨?_, (hs.waiting id ((hs.sound.mem_order id).2 ⟨frame, hframe⟩)).1⟩
  rw [eval_eq h F hcalls, (hs.arguments_of_ready h hframe hcalls hready).1]
  rfl

/-- When steps suffice that are not there, nothing is missing. -/
theorem Stage.all_of_enough_zero (hs : p.Stage c F inputs fired frames outputs)
    (h : p.FeedForward c) (henough : p.Enough c F inputs fired frames 0) :
    ∀ id, (p.eval c F inputs id).isSome → id ∈ fired := by
  rcases henough with hall | ⟨before, id, after, -, hready, hsteps⟩
  · exact hall
  · obtain ⟨heval, hid⟩ := hs.missing_of_ready h hready
    have hlt := missing_concat heval hid
    -- One missing node would need a round of its own.
    have hround : 1 * p.size ≤ p.missing c F inputs fired * p.size :=
      Nat.mul_le_mul_right _ (by omega)
    omega

/-- When no frame waits, nothing is missing. -/
theorem Enough.all_of_empty {steps : Nat} (henough : p.Enough c F inputs fired frames steps)
    (horder : frames.order = []) : ∀ id, (p.eval c F inputs id).isSome → id ∈ fired := by
  rcases henough with hall | ⟨before, id, after, hsplit, -, -⟩
  · exact hall
  · rw [horder] at hsplit
    simp at hsplit

/-! ### The end of a run -/

/-- The outputs are those that the meaning of the program gives. -/
def Completes (p : Program) (c : Catalog) (F : String → Record Json → Outputs)
    (inputs outputs : Record Json) : Prop :=
  ∀ name, outputs.get? name = (p.output? name).bind (outputOf (p.eval c F inputs))

theorem outputOf_eq_some {results : String → Option Outputs} {b : Binding} {value : Json} :
    outputOf results b = some value ↔ ∃ outputs, results b.address.id = some outputs ∧
      outputs.get? b.address.key = some (.value value) := by
  rw [outputOf, Option.bind_eq_some_iff]
  constructor
  · rintro ⟨flow, hflow, hvalue⟩
    cases Flow.value?_eq_some.1 hvalue
    exact Option.bind_eq_some_iff.1 hflow
  · rintro ⟨outputs, houtputs, hflow⟩
    exact ⟨.value value, Option.bind_eq_some_iff.2 ⟨outputs, houtputs, hflow⟩, rfl⟩

/-- The complete outputs are the values that flow where the output bindings read. -/
theorem Completes.get?_eq_some (h : p.Completes c F inputs outputs) (hd : p.outputNames.Nodup)
    {name : String} {value : Json} :
    outputs.get? name = some value ↔ ∃ b ∈ p.output, b.name = name ∧
      ∃ results, p.eval c F inputs b.address.id = some results ∧
        results.get? b.address.key = some (.value value) := by
  rw [h name, Option.bind_eq_some_iff]
  simp only [output?_eq_some hd, outputOf_eq_some, and_assoc]

/-- When nothing is missing, the outputs are complete. -/
theorem Stage.completes (hs : p.Stage c F inputs fired frames outputs)
    (hall : ∀ id, (p.eval c F inputs id).isSome → id ∈ fired) : p.Completes c F inputs outputs := by
  have hgiven : p.given c F inputs fired = p.eval c F inputs := by
    funext id
    by_cases hid : id ∈ fired
    · exact given_of_mem hid
    · rw [given_of_not_mem hid]
      refine (Option.not_isSome_iff_eq_none.1 fun hsome => hid (hall id hsome)).symm
  intro name
  rw [hs.recorded, hgiven]

/-- When every output has a value, nothing that still fires can change one. -/
theorem Stage.completes_of_isComplete (hs : p.Stage c F inputs fired frames outputs)
    (hcomplete : p.isComplete outputs = true) : p.Completes c F inputs outputs := by
  intro name
  rw [hs.recorded]
  cases hb : p.output? name with
  | none => rfl
  | some b =>
    have hname : b.name = name := by simpa using List.find?_some hb
    have hmem : name ∈ p.outputNames := List.mem_map.2 ⟨b, List.mem_of_find?_eq_some hb, hname⟩
    rw [isComplete, Bool.and_eq_true] at hcomplete
    obtain ⟨value, hvalue⟩ := Record.contains_eq_true.1 (List.all_eq_true.1 hcomplete.2 name hmem)
    rw [hs.recorded, hb, Option.bind_some] at hvalue
    -- A value was read, so the node has fired, and what it gives is its meaning.
    have hfired : b.address.id ∈ fired := by
      by_contra hfired
      rw [outputOf, given_of_not_mem hfired] at hvalue
      cases hvalue
    rw [Option.bind_some, Option.bind_some, outputOf, outputOf, given_of_mem hfired]

end Program

/-- A function without callbacks has no bodies to cut out. -/
theorem Callback.extract_of_plain {signature : Signature} (h : signature.callbacks = .empty)
    (p : Program) (site : String) (frames : FrameQueue) :
    extract p site signature frames = .ok ⟨.empty, []⟩ := by
  have hfeeding : feedingEdges p site signature = [] :=
    List.filter_eq_nil_iff.2 fun edge _ => by
      rw [Signature.hasCallbackInput_of_plain h]
      exact Bool.false_ne_true
  rw [extract, if_pos]
  refine .inr ⟨?_, ?_⟩
  · rw [h]
    rfl
  · rw [hfeeding]
    rfl

/-! ### Functions by themselves -/

/-- The value of a script that neither calls nor draws. -/
def Script.value? {α : Type} : Script α → Option α
  | .done a => some a
  | .remark _ _ next => next.value?
  | _ => none

theorem Script.perform_of_value? {α : Type} {script : Script α} {a : α}
    (h : script.value? = some a) (answer : String → Record Json → Run (Record Json)) (s : Session) :
    (script.perform answer s).1 = .ok a := by
  induction script generalizing s with
  | done b =>
    cases h
    rfl
  | remark level text next ih => exact ih h _
  | fail | crash | call | random => cases h

/-- What a native function without callbacks gives by itself. -/
def Catalog.result? (c : Catalog) (function : String) (args : Record Json) : Option Outputs :=
  match c.get? function with
  | some (.native _ runner) => (runner args []).value?
  | _ => none

/-- A function gives a value under its one output, and needs nothing but its arguments. -/
def Catalog.Gives (c : Catalog) (function : String) (args : List (String × Json)) (output : String)
    (value : Json) : Prop :=
  c.result? function (.ofList args) = some (Library.single output value)

/-- A function that only looks at its arguments gives what it makes of them. -/
theorem Catalog.gives_of_plain {c : Catalog} {function output : String} {signature : Signature}
    {f : Record Json → Except RunError Outputs} {args : List (String × Json)} {value : Json}
    (h : c.get? function = some (.native signature (Library.plainRunner f)))
    (hf : f (.ofList args) = .ok (Library.single output value)) :
    c.Gives function args output value := by
  rw [Gives, result?, h]
  show (Script.ofExcept (f (.ofList args))).value? = _
  rw [hf]
  rfl

/-- What the functions of a catalog give by themselves; nothing, where they need more. -/
def Catalog.result (c : Catalog) (function : String) (args : Record Json) : Outputs :=
  (c.result? function args).getD .empty

/-! ### Runs -/

namespace Host

variable {host : Host} {nested : Executor} {caller : String} {p : Program}
  {F : String → Record Json → Outputs} {inputs : Record Json} {fired : List String}
  {frames rest : FrameQueue} {outputs : Record Json} {s : Session} {id : String} {frame : Frame}

/-- A node that is ready and takes no callbacks makes its call, and fails with it or fires. -/
theorem Processed.of_plain {node : Node} {entry : Entry} {firing : Option Firing}
    {result : Except Halt Progress × Session}
    (h : host.Processed nested caller p id frame rest outputs s firing result)
    (hcalls : p.Calls host.catalog id node entry) (hplain : entry.signature.callbacks = .empty)
    (hready : node.isReady entry.signature frame = true) :
    ∃ s₁ s₂, s.Quiet s₁ ∧
      ((∃ halt, host.invokeCached nested node.function entry (node.arguments entry.signature frame)
          .empty caller s₁ = (.error halt, s₂) ∧ result = (.error halt, s₂)) ∨
        ∃ results s₃, host.invokeCached nested node.function entry
            (node.arguments entry.signature frame) .empty caller s₁ = (.ok results, s₂) ∧
          result = (.ok (if p.isComplete (p.recordOutputs id results outputs) then
              .complete (p.recordOutputs id results outputs)
            else .next (rest.receiveAll (Delivery.ofFiring entry.signature results node.next))
              (p.recordOutputs id results outputs)), s₃)) := by
  cases h with
  | dropped hnode _ => cases hcalls.node_eq.symm.trans hnode
  | unknown hnode hentry =>
    cases hcalls.node_eq.symm.trans hnode
    cases hcalls.entry_eq.symm.trans hentry
  | deferred hnode hentry hnot _ =>
    obtain ⟨rfl, rfl⟩ := hcalls.unique ⟨hnode, hentry⟩
    cases hready.symm.trans hnot
  | unwired hnode hentry _ hextract =>
    obtain ⟨rfl, rfl⟩ := hcalls.unique ⟨hnode, hentry⟩
    cases (Callback.extract_of_plain hplain p id rest).symm.trans hextract
  | failed hnode hentry _ hextract hquiet hcall =>
    obtain ⟨rfl, rfl⟩ := hcalls.unique ⟨hnode, hentry⟩
    cases (Callback.extract_of_plain hplain p id rest).symm.trans hextract
    exact ⟨_, _, hquiet, .inl ⟨_, hcall, rfl⟩⟩
  | fired hnode hentry _ hextract hquiet hcall _ =>
    obtain ⟨rfl, rfl⟩ := hcalls.unique ⟨hnode, hentry⟩
    cases (Callback.extract_of_plain hplain p id rest).symm.trans hextract
    exact ⟨_, _, hquiet, .inr ⟨_, _, hcall, rfl⟩⟩

/-- The functions that a program calls always give the results of `F`. -/
def Realizes (nested : Executor) (p : Program) (c : Catalog) (F : String → Record Json → Outputs)
    (inputs : Record Json) : Prop :=
  ∀ id node entry args, p.Calls c id node entry →
    p.argumentsOf inputs (p.eval c F inputs) id node entry.signature = some args →
    ∀ caller s, s.cache = none →
      (invoke nested node.function entry args .empty caller s).1 = .ok (F node.function args)

/-- Functions of which each call settles on its value do so in every run. -/
theorem realizes_result {c : Catalog}
    (h : ∀ x ∈ p.nodes.entries, ∀ entry ∈ c.get? x.2.function,
      ∀ args ∈ p.argumentsOf inputs (p.eval c c.result inputs) x.1 x.2 entry.signature,
        (c.result? x.2.function args).isSome) : Realizes nested p c c.result inputs := by
  intro id node entry args hcalls hargs caller s _
  obtain ⟨results, hresults⟩ := Option.isSome_iff_exists.1
    (h (id, node) (Table.mem_entries.2 hcalls.node_eq) entry hcalls.entry_eq args hargs)
  have hresult : c.result node.function args = results := by
    rw [Catalog.result, hresults]
    rfl
  rw [Catalog.result?, hcalls.entry_eq] at hresults
  cases entry with
  | native signature runner =>
    rw [hresult]
    exact Script.perform_of_value? hresults _ s
  | program signature q => cases hresults

/-- The call of a ready node gives the meaning of the node. -/
theorem Realizes.call (hF : Realizes nested p host.catalog F inputs)
    (h : p.FeedForward host.catalog) (hs : p.Stage host.catalog F inputs fired frames outputs)
    (hframe : frames.get? id = some frame)
    {node : Node} {entry : Entry} (hcalls : p.Calls host.catalog id node entry)
    (hready : node.isReady entry.signature frame = true) (hcache : s.cache = none)
    (caller : String) : ∃ results, p.eval host.catalog F inputs id = some results ∧
      (host.invokeCached nested node.function entry (node.arguments entry.signature frame) .empty
        caller s).1 = .ok results := by
  obtain ⟨hargs, -⟩ := hs.arguments_of_ready h hframe hcalls hready
  refine ⟨F node.function (node.arguments entry.signature frame), ?_, ?_⟩
  · rw [Program.eval_eq h F hcalls, hargs]
    rfl
  · rw [invokeCached_of_none (by rw [hcache]; rfl)]
    exact hF id node entry _ hcalls hargs caller s hcache

/-- A step puts a frame back or fires a node with its meaning; it never fails. -/
theorem Processed.advances {steps : Nat} {firing : Option Firing}
    {result : Except Halt Progress × Session} (h : p.FeedForward host.catalog)
    (hF : Realizes nested p host.catalog F inputs)
    (hprocessed : host.Processed nested caller p id frame rest outputs s firing result)
    (hpop : frames.pop? = some ((id, frame), rest)) (hcache : s.cache = none)
    (hs : p.Stage host.catalog F inputs fired frames outputs)
    (henough : p.Enough host.catalog F inputs fired frames (steps + 1)) :
    ∃ frames' outputs', p.Stage host.catalog F inputs (fired ++ firing.toList.map (·.id)) frames'
        outputs' ∧
      p.Enough host.catalog F inputs (fired ++ firing.toList.map (·.id)) frames' steps ∧
      (∀ f ∈ firing, ∃ results, f.results = some results ∧
        p.eval host.catalog F inputs f.id = some results) ∧
      (result.1 = .ok (.next frames' outputs') ∨
        p.isComplete outputs' = true ∧ result.1 = .ok (.complete outputs')) := by
  obtain ⟨horder, hframe, -⟩ := FrameQueue.pop?_eq_some hs.sound hpop
  obtain ⟨hid, hknown⟩ := hs.waiting id (horder ▸ List.mem_cons_self ..)
  -- Valid programs have no unknown nodes or functions, and without callbacks nothing is unwired.
  cases hprocessed with
  | dropped hnode _ =>
    rw [hnode] at hknown
    cases hknown
  | unknown hnode hentry =>
    obtain ⟨entry, hcalls⟩ := h.valid.functions hnode
    cases hentry.symm.trans hcalls.entry_eq
  | deferred hnode hentry hready _ =>
    refine ⟨rest.defer id frame, outputs, ?_, ?_, by simp, .inl rfl⟩
    · rw [Option.toList_none, List.map_nil, List.append_nil]
      exact hs.defer hpop
    · rw [Option.toList_none, List.map_nil, List.append_nil]
      exact hs.enough_defer hpop ⟨hnode, hentry⟩ hready henough
  | @unwired node entry _ hnode hentry _ hextract =>
    have hplain : entry.signature.callbacks = .empty := h.plain ⟨hnode, hentry⟩
    cases (Callback.extract_of_plain hplain p id rest).symm.trans hextract
  | @failed node entry _ halt s₁ s₂ hnode hentry hready hextract hquiet hcall =>
    have hplain : entry.signature.callbacks = .empty := h.plain ⟨hnode, hentry⟩
    cases (Callback.extract_of_plain hplain p id rest).symm.trans hextract
    obtain ⟨results, -, hresults⟩ := hF.call h hs hframe ⟨hnode, hentry⟩ hready
      (hquiet.cache.trans hcache) caller
    rw [hcall] at hresults
    cases hresults
  | @fired node entry _ results s₁ s₂ s₃ hnode hentry hready hextract hquiet hcall _ =>
    have hplain : entry.signature.callbacks = .empty := h.plain ⟨hnode, hentry⟩
    cases (Callback.extract_of_plain hplain p id rest).symm.trans hextract
    obtain ⟨results', heval, hresults⟩ := hF.call h hs hframe ⟨hnode, hentry⟩ hready
      (hquiet.cache.trans hcache) caller
    rw [hcall] at hresults
    cases hresults
    have hsome : (p.eval host.catalog F inputs id).isSome := by rw [heval]; rfl
    have hstage := hs.fire h hpop ⟨hnode, hentry⟩ hready heval
    refine ⟨_, _, hstage, hstage.enough h (Program.missing_mul_le hsome hid henough), ?_, ?_⟩
    · intro f hf
      cases hf
      exact ⟨results, rfl, heval⟩
    · split
      · exact .inr ⟨by assumption, rfl⟩
      · exact .inl rfl

/-- **A run with enough steps ends with the meaning of the program**, and every node that fires does
so once and with its own meaning. -/
theorem Drained.completes {steps : Nat} {log : List Firing}
    {final : Except Halt (Record Json) × Session} (hn : nested.Steady)
    (h : p.FeedForward host.catalog) (hF : Realizes nested p host.catalog F inputs)
    (hdrained : host.Drained nested caller p steps frames outputs s log final)
    (hcache : s.cache = none) (hs : p.Stage host.catalog F inputs fired frames outputs)
    (henough : p.Enough host.catalog F inputs fired frames steps) :
    (∃ outputs', final.1 = .ok outputs' ∧ p.Completes host.catalog F inputs outputs') ∧
      (fired ++ log.map (·.id)).Nodup ∧
      ∀ f ∈ log, ∃ results, f.results = some results ∧
        p.eval host.catalog F inputs f.id = some results := by
  induction hdrained generalizing fired with
  | empty hpop =>
    have hall := henough.all_of_empty (FrameQueue.pop?_eq_none hs.sound hpop)
    exact ⟨⟨_, rfl, hs.completes hall⟩, by simpa using hs.nodup, by simp⟩
  | exhausted _ =>
    exact ⟨⟨_, rfl, hs.completes (hs.all_of_enough_zero h henough)⟩, by simpa using hs.nodup,
      by simp⟩
  | halted hpop hprocessed =>
    obtain ⟨_, _, -, -, -, hresult | ⟨-, hresult⟩⟩ :=
      hprocessed.advances h hF hpop hcache hs henough
    · cases hresult
    · cases hresult
  | complete hpop hprocessed =>
    obtain ⟨_, _, hstage, -, hresults, hresult | ⟨hcomplete, hresult⟩⟩ :=
      hprocessed.advances h hF hpop hcache hs henough
    · cases hresult
    · cases hresult
      exact ⟨⟨_, rfl, hstage.completes_of_isComplete hcomplete⟩, hstage.nodup,
        fun f hf => hresults f (Option.mem_toList.1 hf)⟩
  | next hpop hprocessed _ ih =>
    have hsteady := hprocessed.steady hn
    rw [hcache] at hsteady
    obtain ⟨_, _, hstage, hsteps, hresults, hresult | ⟨-, hresult⟩⟩ :=
      hprocessed.advances h hF hpop hcache hs henough
    · cases hresult
      obtain ⟨hfinal, hnodup, hlog⟩ :=
        ih (Option.isSome_eq_false_iff.1 hsteady |> Option.isNone_iff_eq_none.1) hstage hsteps
      refine ⟨hfinal, ?_, fun f hf => ?_⟩
      · rw [List.map_append, ← List.append_assoc]
        exact hnodup
      · rcases List.mem_append.1 hf with hf | hf
        · exact hresults f (Option.mem_toList.1 hf)
        · exact hlog f hf
    · cases hresult

/-- The steps of an execution, when the budget does not wrap around. -/
theorem steps_of_lt (h : p.size + host.slack.toNat < 2 ^ 64) :
    p.steps host.slack = p.size + host.slack.toNat - 1 := by
  have hsize : p.size < 2 ^ 64 := by omega
  rw [Program.steps, UInt64.toNat_add, UInt64.toNat_ofNat', Nat.mod_eq_of_lt hsize,
    Nat.mod_eq_of_lt h]

/-- **The scheduler computes the dataflow meaning of the graph.** The functions of a feed-forward
program are `F`, all inputs are given, nothing is cached, and the slack is at least the square of
the number of nodes. Then a run succeeds, its outputs are exactly the values that flow where the
output bindings read, and no node fires twice or with anything but its meaning. -/
theorem runProgram_eval {depth : Nat} (h : p.FeedForward host.catalog)
    (hF : Realizes (host.execute depth) p host.catalog F inputs)
    (hinputs : ∀ b ∈ p.input, inputs.contains b.name = true)
    (hslack : p.size * p.size ≤ host.slack.toNat) (hsize : p.size + host.slack.toNat < 2 ^ 64)
    (hcache : s.cache = none) (caller : String) :
    (∀ id node entry, p.Calls host.catalog id node entry → p.eval host.catalog F inputs id =
      (p.argumentsOf inputs (p.eval host.catalog F inputs) id node entry.signature).map
        (F node.function)) ∧
    ∃ frames outputs, p.firstFrames inputs = .ok frames ∧
      (runProgram (host.execute (depth + 1)) p inputs caller s).1 = .ok outputs ∧
      (∀ name value, outputs.get? name = some value ↔ ∃ b ∈ p.output, b.name = name ∧
        ∃ results, p.eval host.catalog F inputs b.address.id = some results ∧
          results.get? b.address.key = some (.value value)) ∧
      ((host.executionFirings depth caller p frames s).map (·.id)).Nodup ∧
      ∀ f ∈ host.executionFirings depth caller p frames s, ∃ results,
        f.results = some results ∧ p.eval host.catalog F inputs f.id = some results := by
  obtain ⟨frames, hfirst⟩ := Program.exists_firstFrames hinputs
  have hstage : p.Stage host.catalog F inputs [] frames .empty := .start h hfirst
  have hmissing : p.missing host.catalog F inputs [] * p.size ≤ p.size * p.size :=
    Nat.mul_le_mul_right _ Program.missing_le_size
  have hsteps : p.missing host.catalog F inputs [] * p.size ≤ p.steps host.slack := by
    rw [steps_of_lt hsize]
    -- A program without nodes needs no step.
    rcases Nat.eq_zero_or_pos p.size with hzero | hpos
    · rw [hzero]
      omega
    · omega
  obtain ⟨⟨outputs, hfinal, hcompletes⟩, hnodup, hlog⟩ :=
    (drain_drained (p.steps host.slack) frames .empty s).completes (execute_steady host depth) h hF
      hcache hstage (hstage.enough h hsteps)
  refine ⟨fun id node entry hcalls => Program.eval_eq h F hcalls, frames, outputs, hfirst, ?_, ?_,
    hnodup, hlog⟩
  · have hframes : Run.ofExcept (p.firstFrames inputs) s = (.ok frames, s) := by
      rw [hfirst]
      rfl
    rw [runProgram, Run.bind_eq, Run.andThen_of_ok hframes]
    exact hfinal
  · exact fun name value => hcompletes.get?_eq_some h.distinct

/-- With the flag set, the word comes out at the branch that is taken, and the other branch has no
meaning. -/
theorem runProgram_eval_branching :
    branching.FeedForward branches.catalog ∧
    ∃ outputs, (runProgram (branches.execute 1) branching (.ofList [("flag", .bool true)]) "main"
        ⟨none, #[], #[], default⟩).1 = .ok outputs ∧
      outputs.get? "then" = some (.string "on") ∧ outputs.get? "else" = none := by
  have hfeed : branching.FeedForward branches.catalog := by decide +kernel
  have hF : Realizes (branches.execute 0) branching branches.catalog branches.catalog.result
      (.ofList [("flag", .bool true)]) := realizes_result (by decide +kernel)
  have hinputs : ∀ b ∈ branching.input,
      (Record.ofList [("flag", Json.bool true)]).contains b.name = true := by decide +kernel
  have hcache : (⟨none, #[], #[], default⟩ : Session).cache = none := rfl
  obtain ⟨-, _, outputs, -, hrun, hget, -⟩ :=
    runProgram_eval hfeed hF hinputs (by decide) (by decide) hcache "main"
  refine ⟨hfeed, outputs, hrun, (hget _ _).2 ⟨_, List.mem_cons_self .., rfl, ?_⟩, ?_⟩
  · exact Option.bind_eq_some_iff.1 (by decide +kernel)
  · refine Option.eq_none_iff_forall_ne_some.2 fun value hvalue => ?_
    obtain ⟨b, hb, hname, results, heval, -⟩ := (hget _ _).1 hvalue
    have hnone : ∀ b ∈ branching.output, b.name = "else" →
        (branching.eval branches.catalog branches.catalog.result (.ofList [("flag", .bool true)])
          b.address.id).isNone := by decide +kernel
    rw [Option.isNone_iff_eq_none.1 (hnone b hb hname)] at heval
    cases heval

end Host

end Dataflow
