/-
Calling a program is running it.

A program that is registered as a function can be called from a node of another program. The least
that such a caller can be is one node that hands all inputs in and all outputs out. Running this
caller is running the program itself: the same outputs come back, all of them or some, or the same
error, whatever the program calls on its way, itself included. The caller only adds a level of
calls, so the two are compared at depths that differ by one.

* `Program.calling` — the program that does nothing but call a function;
* `Program.firstFrames_eq` — the start of a run: the first missing input, or the first frames;
* `Host.execute_names` — a run gives declared outputs only;
* `Host.runProgram_calling` — the call and the run, with all that they share;
* `Environment.returns_calling_iff` — the two return the same.
-/
import Mathlib
import Dataflow.Proofs.Caller
import Dataflow.Proofs.Completion
import Dataflow.Proofs.Depth
import Dataflow.Proofs.Memoization
import Dataflow.Proofs.Reordering
import Dataflow.Proofs.Safety
namespace Dataflow

/-! ### The start of a run -/

/-- Bindings are all delivered, or the first one without a value is the error. -/
theorem Delivery.foldlM_bindings_eq (values : Record Json) (missing : String → RunError)
    (bindings : List Binding) (start : FrameQueue) :
    bindings.foldlM
      (fun frames b =>
        match values.get? b.name with
        | some value => Except.ok (frames.add b.address.id b.address.key value)
        | none => Except.error (missing b.name))
      start =
    match (bindings.map (·.name)).find? fun name => !values.contains name with
    | some name => .error (missing name)
    | none => .ok (start.receiveAll (ofBindings values bindings)) := by
  induction bindings generalizing start with
  | nil => rfl
  | cons b rest ih =>
    rw [List.foldlM_cons, List.map_cons, List.find?_cons, Record.contains, ofBindings,
      List.filterMap_cons]
    cases hvalue : values.get? b.name with
    | none => rfl
    | some value => exact ih _

namespace Program

variable {p : Program} {inputs : Record Json}

/-- The first input that is missing. -/
def missing? (p : Program) (inputs : Record Json) : Option String :=
  (p.input.map (·.name)).find? fun name => !inputs.contains name

/-- A run starts with its first frames, or it ends with the first input that is missing. -/
theorem firstFrames_eq (p : Program) (inputs : Record Json) :
    p.firstFrames inputs =
      match p.missing? inputs with
      | some name => .error (.missingInput name)
      | none => .ok (p.heads.foldl FrameQueue.ensure
          (FrameQueue.empty.receiveAll (Delivery.ofBindings inputs p.input))) := by
  have hfold := Delivery.foldlM_bindings_eq inputs .missingInput p.input .empty
  rw [firstFrames, missing?]
  refine (congrArg (fun frames => frames >>= fun frames =>
    pure (p.heads.foldl FrameQueue.ensure frames)) hfold).trans ?_
  cases (p.input.map (·.name)).find? fun name => !inputs.contains name <;> rfl

/-- A run depends on the inputs that are bound, and on no others. -/
theorem firstFrames_congr {inputs' : Record Json}
    (h : ∀ b ∈ p.input, inputs.get? b.name = inputs'.get? b.name) :
    p.firstFrames inputs = p.firstFrames inputs' := by
  have hdeliveries : Delivery.ofBindings inputs p.input = Delivery.ofBindings inputs' p.input :=
    List.filterMap_congr fun b hb => by rw [h b hb]
  have hmissing : p.missing? inputs = p.missing? inputs' := by
    rw [missing?, missing?, List.find?_map, List.find?_map]
    congr 1
    refine List.find?_congr fun b hb => ?_
    simp only [Function.comp_apply, Record.contains, h b hb]
  rw [firstFrames_eq, firstFrames_eq, hdeliveries, hmissing]

/-- Leaving out repeated names changes nothing about the first that is missing, once those that were
seen before are present. -/
theorem find?_params (bindings : List Binding) {seen : List String}
    (hseen : ∀ name ∈ seen, inputs.contains name = true) :
    (Param.names (params seen bindings)).find? (fun name => !inputs.contains name) =
      (bindings.map (·.name)).find? fun name => !inputs.contains name := by
  induction bindings generalizing seen with
  | nil => rfl
  | cons b rest ih =>
    rw [params, List.map_cons, List.find?_cons]
    split
    · rename_i hmem
      simp only [hseen b.name hmem, Bool.not_true]
      exact ih hseen
    · rw [Param.names, List.map_cons, List.find?_cons]
      cases hb : inputs.contains b.name with
      | false => rfl
      | true =>
        refine ih fun name hname => ?_
        rcases List.mem_cons.1 hname with rfl | hname
        · exact hb
        · exact hseen name hname

private theorem mem_inputNames_signature {b : Binding} (hb : b ∈ p.input) :
    b.name ∈ p.signature.inputNames :=
  (mem_names_params hb []).resolve_left List.not_mem_nil

private theorem mem_outputNames_signature {name : String} (h : name ∈ p.outputNames) :
    name ∈ p.signature.outputNames := by
  obtain ⟨b, hb, rfl⟩ := List.mem_map.1 h
  exact (mem_names_params hb []).resolve_left List.not_mem_nil

/-! ### The outputs of a run -/

/-- A firing records declared outputs only. -/
theorem contains_of_recordOutputs {id name : String} {results : Outputs} {outputs : Record Json}
    (h : (p.recordOutputs id results outputs).contains name = true) :
    outputs.contains name = true ∨ name ∈ p.outputNames := by
  rw [recordOutputs, outputsOf, List.foldl_filter] at h
  rw [outputNames]
  generalize p.output = bindings at h
  induction bindings generalizing outputs with
  | nil => exact .inl h
  | cons b rest ih =>
    rw [List.map_cons, List.mem_cons]
    -- what the later bindings did not bring was there before them, or is brought by this one
    rcases ih h with hcontains | hrest
    · dsimp only at hcontains
      split at hcontains
      · split at hcontains
        · rw [Record.contains, Record.get?_insert] at hcontains
          by_cases hname : name = b.name
          · exact .inr (.inl hname)
          · rw [if_neg hname] at hcontains
            exact .inl hcontains
        · exact .inl hcontains
      · exact .inl hcontains
    · exact .inr (.inr hrest)

end Program

namespace Host

variable {host : Host} {nested : Executor} {caller : String} {p : Program}

/-- The outputs that a frame leaves. -/
def Progress.outputs : Progress → Record Json
  | .next _ outputs | .complete outputs => outputs

/-- A popped frame adds declared outputs only. -/
theorem Processed.names {id : String} {frame : Frame} {frames : FrameQueue}
    {outputs : Record Json} {s s' : Session} {firing : Option Firing} {progress : Progress}
    (h : host.Processed nested caller p id frame frames outputs s firing (.ok progress, s'))
    {name : String} (hname : progress.outputs.contains name = true) :
    outputs.contains name = true ∨ name ∈ p.outputNames := by
  generalize hresult : (Except.ok progress, s') = result at h
  cases h with
  | unknown | unwired | failed => cases hresult
  | dropped | deferred =>
    cases hresult
    exact .inl hname
  | fired =>
    cases hresult
    split at hname <;> exact Program.contains_of_recordOutputs hname

/-- Draining a queue adds declared outputs only. -/
theorem Drained.names {steps : Nat} {frames : FrameQueue} {outputs final : Record Json}
    {s s' : Session} {log : List Firing}
    (h : host.Drained nested caller p steps frames outputs s log (.ok final, s')) {name : String}
    (hname : final.contains name = true) :
    outputs.contains name = true ∨ name ∈ p.outputNames := by
  generalize hresult : (Except.ok final, s') = result at h
  induction h with
  | halted => cases hresult
  | empty | exhausted =>
    cases hresult
    exact .inl hname
  | complete _ hprocessed =>
    cases hresult
    exact hprocessed.names hname
  | next _ hprocessed _ ih =>
    rcases ih hresult with hbefore | hdeclared
    · exact hprocessed.names hbefore
    · exact .inr hdeclared

/-- **A run gives declared outputs only.** -/
theorem execute_names {depth : Nat} {frames : FrameQueue} {final : Record Json} {s s' : Session}
    (h : host.execute depth caller p frames s = (.ok final, s')) {name : String}
    (hname : final.contains name = true) : name ∈ p.outputNames := by
  cases depth with
  | zero => cases congrArg Prod.fst h
  | succ depth =>
    have hdrained : host.Drained (host.execute depth) caller p (p.steps host.slack) frames .empty s
        _ (host.execute (depth + 1) caller p frames s) := drain_drained ..
    rw [h] at hdrained
    exact (hdrained.names hname).resolve_left Bool.false_ne_true

private theorem runProgram_names {depth : Nat} {inputs final : Record Json} {s s' : Session}
    (h : runProgram (host.execute depth) p inputs caller s = (.ok final, s')) {name : String}
    (hname : final.contains name = true) : name ∈ p.outputNames := by
  cases hframes : p.firstFrames inputs with
  | error error =>
    rw [runProgram_of_error hframes] at h
    cases h
  | ok frames =>
    rw [runProgram_of_ok hframes] at h
    exact execute_names h hname

end Host

/-! ### The program that only calls -/

/-- A queue with a frame for one node only gives it and is empty. -/
theorem FrameQueue.Sound.pop?_of_alone {q : FrameQueue} {id : String} (hq : q.Sound)
    (h : ∀ other, other ∈ q.order ↔ other = id) :
    ∃ frame rest, q.get? id = some frame ∧ q.pop? = some ((id, frame), rest) ∧
      rest.pop? = none := by
  rcases hpop : q.pop? with _ | ⟨⟨other, frame⟩, rest⟩
  · have hmem := (h id).2 rfl
    rw [FrameQueue.pop?_eq_none hq hpop] at hmem
    cases hmem
  · obtain ⟨horder, hframe, -⟩ := FrameQueue.pop?_eq_some hq hpop
    obtain rfl : other = id := (h other).1 (horder ▸ List.mem_cons_self ..)
    refine ⟨frame, rest, hframe, rfl, ?_⟩
    have hnodup := hq.nodup
    rw [horder, List.nodup_cons] at hnodup
    have hrest : rest.order = [] := by
      refine List.eq_nil_iff_forall_not_mem.2 fun another hmem => hnodup.1 ?_
      rwa [← (h another).1 (horder ▸ List.mem_cons_of_mem _ hmem)]
    rw [FrameQueue.pop?, hrest, FrameQueue.firstWaiting]

/-- A parameter bound to the key of the same name. -/
def Param.binding (id : String) (param : Param) : Binding :=
  ⟨param.name, ⟨id, param.name⟩, param.type⟩

/-- What is found under a name when the values of declared names are put over what was there. -/
def Param.overlay (params : List Param) (values : Record Json) (name : String)
    (before : Option Json) : Option Json :=
  if name ∈ Param.names params then values.get? name <|> before else before

/-- Parameters are put over one at a time. -/
theorem Param.overlay_cons (param : Param) (rest : List Param) (values : Record Json)
    (name : String) (before : Option Json) :
    overlay (param :: rest) values name before =
      overlay rest values name
        (if name = param.name then values.get? name <|> before else before) := by
  have hmem : name ∈ Param.names (param :: rest) ↔ name = param.name ∨ name ∈ Param.names rest :=
    List.mem_cons
  simp only [overlay, hmem]
  by_cases hname : name = param.name <;> by_cases hrest : name ∈ Param.names rest <;>
    cases values.get? name <;> simp [hname, hrest]

namespace Program

/-- The program that does nothing but call a function: one node, all inputs bound to it and all
outputs from it. -/
def calling (id function : String) (signature : Signature) : Program where
  input := signature.input.map (·.binding id)
  output := signature.output.map (·.binding id)
  nodes := .ofList [(id, .bare function)]

variable {id function : String} {signature : Signature} {inputs : Record Json}

private theorem node?_calling : (calling id function signature).node? id = some (.bare function) :=
  if_pos rfl

private theorem heads_calling : (calling id function signature).heads = [id] := rfl

private theorem names_binding (params : List Param) :
    (params.map (Param.binding id)).map (·.name) = Param.names params := by
  rw [List.map_map]
  rfl

/-- The call lacks the same input first as the run. -/
theorem missing?_calling (p : Program) (id function : String) (inputs : Record Json) :
    (calling id function p.signature).missing? inputs = p.missing? inputs := by
  rw [missing?, calling, names_binding]
  exact find?_params p.input fun name hname => absurd hname List.not_mem_nil

/-- A call that cannot start fails as the run does. -/
theorem firstFrames_calling_eq_error {p : Program} {error : RunError}
    (h : (calling id function p.signature).firstFrames inputs = .error error) :
    p.firstFrames inputs = .error error := by
  rw [firstFrames_eq, missing?_calling] at h
  rw [firstFrames_eq]
  cases hmissing : p.missing? inputs with
  | none =>
    rw [hmissing] at h
    cases h
  | some name => rwa [hmissing] at h

/-- The values that are given go to the keys of their names. -/
theorem gathered_bindings (params : List Param) (q : FrameQueue) (key : String) :
    (q.receiveAll (Delivery.ofBindings inputs (params.map (Param.binding id)))).gathered id key =
      Param.overlay params inputs key (q.gathered id key) := by
  induction params generalizing q with
  | nil => rfl
  | cons param rest ih =>
    rw [List.map_cons, Delivery.ofBindings, List.filterMap_cons, Param.overlay_cons]
    cases hvalue : inputs.get? (param.binding id).name with
    | none =>
      -- what is not given is not delivered
      have hnone : inputs.get? param.name = none := hvalue
      refine (ih q).trans (congrArg _ ?_)
      split
      · rename_i hkey
        rw [hkey, hnone]
        rfl
      · rfl
    | some value =>
      have hsome : inputs.get? param.name = some value := hvalue
      refine (ih (q.receive ⟨id, param.name, value⟩)).trans (congrArg _ ?_)
      rw [FrameQueue.gathered_receive]
      by_cases hkey : key = param.name
      · simp [hkey, hsome]
      · simp [hkey]

/-- A call that has its inputs starts with one frame, which holds them. -/
theorem firstFrames_calling {frames : FrameQueue}
    (h : (calling id function signature).firstFrames inputs = .ok frames) :
    ∃ frame rest, frames.pop? = some ((id, frame), rest) ∧ rest.pop? = none ∧
      ∀ key ∈ signature.inputNames, frame.get? key = inputs.get? key := by
  have hsound := firstFrames_sound h
  obtain ⟨-, hframes⟩ := firstFrames_eq_ok h
  rw [heads_calling] at hframes
  have halone : ∀ other, other ∈ frames.order ↔ other = id := by
    intro other
    have hempty := FrameQueue.Sound.empty
    rw [hframes, (hempty.receiveAll _).mem_order_ensureAll, hempty.mem_order_receiveAll,
      List.mem_singleton]
    refine ⟨?_, .inr⟩
    rintro ((hmem | ⟨d, hd, rfl⟩) | hother)
    · cases hmem
    · obtain ⟨b, hb, hvalue⟩ := List.mem_filterMap.1 hd
      obtain ⟨value, -, rfl⟩ := Option.map_eq_some_iff.1 hvalue
      obtain ⟨param, -, rfl⟩ := List.mem_map.1 hb
      rfl
    · exact hother
  obtain ⟨frame, rest, hframe, hpop, hrest⟩ := hsound.pop?_of_alone halone
  refine ⟨frame, rest, hpop, hrest, fun key hkey => ?_⟩
  have hgathered : frames.gathered id key = inputs.get? key := by
    rw [hframes, FrameQueue.gathered_ensureAll, calling, gathered_bindings]
    refine (if_pos hkey).trans ?_
    simp [FrameQueue.gathered]
  rwa [FrameQueue.gathered, hframe] at hgathered

/-- What a call gives back is recorded under its declared names. -/
theorem get?_recordOutputs_calling (values outputs : Record Json) (name : String) :
    ((calling id function signature).recordOutputs id (values.map fun _ value => .value value)
        outputs).get? name =
      Param.overlay signature.output values name (outputs.get? name) := by
  have hall : (calling id function signature).outputsOf id =
      signature.output.map (Param.binding id) := by
    refine List.filter_eq_self.2 fun b hb => ?_
    obtain ⟨param, -, rfl⟩ := List.mem_map.1 hb
    exact decide_eq_true rfl
  rw [recordOutputs, hall, List.foldl_map]
  generalize signature.output = params
  induction params generalizing outputs with
  | nil => rfl
  | cons param rest ih =>
    rw [List.foldl_cons, ih, Param.overlay_cons, Record.get?_map]
    refine congrArg _ ?_
    cases hvalue : values.get? (param.binding id).address.key with
    | none =>
      have hnone : values.get? param.name = none := hvalue
      by_cases hname : name = param.name
      · simp [hname, hnone]
      · simp [hname]
    | some value =>
      have hsome : values.get? param.name = some value := hvalue
      have hbound : (param.binding id).name = param.name := rfl
      simp only [Option.map_some, Record.get?_insert, hbound]
      by_cases hname : name = param.name
      · simp [hname, hsome]
      · simp [hname]

/-- A call records exactly what it gives back. -/
theorem recordOutputs_calling {values : Record Json}
    (h : ∀ name, values.contains name = true → name ∈ signature.outputNames) :
    (calling id function signature).recordOutputs id (values.map fun _ value => .value value)
      .empty = values := by
  refine Record.ext_get? fun name => ?_
  rw [get?_recordOutputs_calling, Record.get?_empty, Param.overlay]
  split
  · simp
  · rename_i hname
    cases hvalue : values.get? name with
    | none => rfl
    | some value => exact absurd (h name (Record.contains_eq_true.2 ⟨value, hvalue⟩)) hname

end Program

namespace Host

variable {host : Host} {p : Program} {f : String} {inputs : Record Json} {s : Session}

private theorem drain_of_empty {nested : Executor} {caller : String} {frames : FrameQueue}
    (h : frames.pop? = none) (steps : Nat) (outputs : Record Json) (s : Session) :
    host.drain nested caller p steps frames outputs s = (.ok outputs, s) := by
  cases steps <;> rw [drain, h] <;> rfl

/-- The call itself: without a cache, the program runs in its own name. Its arguments are the inputs
that it declares, and it reads no others. -/
theorem invokeCached_calling {nested : Executor} {frame : Frame} {caller : String}
    (hcache : s.cache = none)
    (hframe : ∀ key ∈ p.signature.inputNames, frame.get? key = inputs.get? key) :
    host.invokeCached nested f (.ofProgram p) ((Node.bare f).arguments p.signature frame) .empty
        caller s =
      (runProgram nested p inputs f).andThen
        (fun values => Run.result (values.map fun _ value => .value value)) s := by
  have hkey : cacheKey? s.cache f ((Node.bare f).arguments p.signature frame) .empty = none := by
    rw [hcache]
    rfl
  have hstart : p.firstFrames ((Node.bare f).arguments p.signature frame) =
      p.firstFrames inputs := by
    refine Program.firstFrames_congr fun b hb => ?_
    have hmem := Program.mem_inputNames_signature hb
    rw [Node.get?_arguments, if_pos hmem, hframe _ hmem]
    simp [Node.bare]
  rw [invokeCached_of_none hkey, runProgram, ← hstart]
  rfl

/-- What becomes of the one frame of a call: the called program runs, and what it gives back is
recorded. -/
theorem Processed.calling {id : String} {frame : Frame} {rest : FrameQueue} {depth : Nat}
    {caller : String} {firing : Option Firing} {result : Except Halt Progress × Session}
    (h : host.Processed (host.execute depth) caller (.calling id f p.signature) id frame rest .empty
      s firing result) (hf : host.catalog.get? f = some (.ofProgram p)) (hcache : s.cache = none)
    (hgiven : ∀ key ∈ p.signature.inputNames, inputs.contains key = true)
    (hframe : ∀ key ∈ p.signature.inputNames, frame.get? key = inputs.get? key) :
    ∃ s₁, s.Quiet s₁ ∧
      result.1.map Progress.outputs = (runProgram (host.execute depth) p inputs f s₁).1 ∧
      ∀ frames outputs, result.1 = .ok (.next frames outputs) → frames = rest := by
  have hready : (Node.bare f).isReady p.signature frame = true := by
    refine List.all_eq_true.2 fun key hkey => Bool.or_eq_true_iff.2 (.inl ?_)
    rw [Record.contains, hframe key hkey]
    exact hgiven key hkey
  -- The node makes its call, in which the called program fails or gives outputs.
  obtain ⟨s₁, s₂, hquiet, ⟨halt, hcall, rfl⟩ | ⟨results, s₃, hcall, rfl⟩⟩ :=
    h.of_plain ⟨Program.node?_calling, hf⟩ rfl hready
  · have hrun := (invokeCached_calling (f := f) (hquiet.cache.trans hcache) hframe).symm.trans hcall
    refine ⟨s₁, hquiet, ?_, fun _ _ hnext => by cases hnext⟩
    rcases hvalues : runProgram (host.execute depth) p inputs f s₁ with ⟨_ | values, s₂⟩
    · rw [Run.andThen_of_error hvalues] at hrun
      cases hrun
      rfl
    · rw [Run.andThen_of_ok hvalues] at hrun
      cases hrun
  · have hrun := (invokeCached_calling (f := f) (hquiet.cache.trans hcache) hframe).symm.trans hcall
    rcases hvalues : runProgram (host.execute depth) p inputs f s₁ with ⟨_ | values, s₂⟩
    · rw [Run.andThen_of_error hvalues] at hrun
      cases hrun
    · rw [Run.andThen_of_ok hvalues] at hrun
      cases hrun
      have hdeclared : ∀ name, values.contains name = true → name ∈ p.signature.outputNames :=
        fun name hname => Program.mem_outputNames_signature (runProgram_names hvalues hname)
      refine ⟨s₁, hquiet, ?_, fun frames outputs hnext => ?_⟩
      · rw [Program.recordOutputs_calling hdeclared, hvalues]
        split <;> rfl
      · -- the node has no edges, so nothing is delivered
        split at hnext
        · cases hnext
        · cases hnext
          rfl

/-- The call fires, and ends as the called program does. -/
theorem execute_calling (hf : host.catalog.get? f = some (.ofProgram p)) (hcache : s.cache = none)
    (hslack : 1 ≤ host.slack.toNat) (hfits : 1 + host.slack.toNat < 2 ^ 64)
    {id : String} {frames : FrameQueue}
    (hframes : (Program.calling id f p.signature).firstFrames inputs = .ok frames)
    (depth : Nat) (caller : String) :
    ∃ s₁, s.Quiet s₁ ∧
      (host.execute (depth + 1) caller (.calling id f p.signature) frames s).1 =
        (runProgram (host.execute depth) p inputs f s₁).1 := by
  obtain ⟨frame, rest, hpop, hrest, hframe⟩ := Program.firstFrames_calling hframes
  have hgiven : ∀ key ∈ p.signature.inputNames, inputs.contains key = true := by
    intro key hkey
    obtain ⟨param, hparam, rfl⟩ := List.mem_map.1 hkey
    exact (Program.firstFrames_eq_ok hframes).1 _ (List.mem_map_of_mem hparam)
  have hprocessed : host.Processed (host.execute depth) caller (.calling id f p.signature) id frame
      rest .empty s _ _ := process_processed
  obtain ⟨s₁, hquiet, hout, hnext⟩ := hprocessed.calling hf hcache hgiven hframe
  refine ⟨s₁, hquiet, ?_⟩
  obtain ⟨steps, hsteps⟩ : ∃ steps,
      (Program.calling id f p.signature).steps host.slack = steps + 1 := by
    have hsize : (Program.calling id f p.signature).size = 1 := rfl
    refine ⟨host.slack.toNat - 1, ?_⟩
    rw [steps_of_lt (by omega), hsize]
    omega
  show (host.drain (host.execute depth) caller _ (Program.steps _ host.slack) frames .empty s).1 = _
  rw [hsteps, drain, hpop, ← hout]
  simp only [Run.bind_eq]
  rcases hresult : host.process (host.execute depth) caller (.calling id f p.signature) id frame
    rest .empty s with ⟨halt | progress, s₂⟩
  · rw [Run.andThen_of_error hresult]
    rfl
  · rw [Run.andThen_of_ok hresult]
    rw [hresult] at hnext
    cases progress with
    | complete outputs => rfl
    | next frames outputs =>
      have hempty : frames.pop? = none := hnext frames outputs rfl ▸ hrest
      show (host.drain _ caller _ steps frames outputs s₂).1 = _
      rw [drain_of_empty hempty]
      rfl

/-- **The call and the run have the same outcome**, the call one level deeper. -/
theorem runProgram_calling (hf : host.catalog.get? f = some (.ofProgram p))
    (hcache : s.cache = none) (hslack : 1 ≤ host.slack.toNat)
    (hfits : 1 + host.slack.toNat < 2 ^ 64) (id : String) (depth : Nat) (caller caller' : String)
    {s' : Session} (hs : s.Quiet s') (inputs : Record Json) :
    (runProgram (host.execute (depth + 1)) (.calling id f p.signature) inputs caller s).1 =
      (runProgram (host.execute depth) p inputs caller' s').1 := by
  cases hframes : (Program.calling id f p.signature).firstFrames inputs with
  | error error =>
    have hstart := Program.firstFrames_calling_eq_error hframes
    rw [runProgram_of_error hframes, runProgram_of_error hstart]
  | ok frames =>
    obtain ⟨s₁, hquiet, hout⟩ := execute_calling hf hcache hslack hfits hframes depth caller
    rw [runProgram_of_ok hframes, hout]
    exact (runProgram_mirrors (host.execute_mirrors depth) p inputs caller' f s' s₁
      (hs.symm.trans hquiet)).1

end Host

namespace Environment

variable {env : Environment} {p : Program} {f : String}

/-- A top-level run of the call ends as a run of the program, one level deeper. -/
theorem runWithin_calling (hf : env.catalog.get? f = some (.ofProgram p))
    (hcache : env.cache = none) (hslack : 1 ≤ env.config.budgetSlack.toNat)
    (hfits : 1 + env.config.budgetSlack.toNat < 2 ^ 64) (id : String) (depth : Nat)
    (run run' : String) (random : RandomSource) (inputs : Record Json) :
    (env.runWithin (depth + 1) run random (.calling id f p.signature) inputs).outcome =
      (env.runWithin depth run' random p inputs).outcome := by
  let first : Session := ⟨env.cache.map MemoCache.clear, #[], #[], random⟩
  have hfirst : first.cache = none := by
    show env.cache.map MemoCache.clear = none
    rw [hcache]
    rfl
  obtain ⟨s, hs, hcall⟩ :=
    session_outcome env (depth + 1) run (.calling id f p.signature) inputs first
  obtain ⟨s', hs', hrun⟩ := session_outcome env depth run' p inputs first
  refine hcall.trans (Eq.trans ?_ hrun.symm)
  exact Host.runProgram_calling hf (hs.cache.trans hfirst) hslack hfits id depth mainCaller
    mainCaller (hs.symm.trans hs') inputs

/-- **Calling a registered program is running it.** Let the cache be off and the slack be at least
one, without the budget of a single node wrapping around. Then the program whose only node calls `f`
returns what the program that is registered as `f` returns on the same inputs: the same outputs, all
or some of them, or the same error. -/
theorem returns_calling_iff (hf : env.catalog.get? f = some (.ofProgram p))
    (hcache : env.cache = none) (hslack : 1 ≤ env.config.budgetSlack.toNat)
    (hfits : 1 + env.config.budgetSlack.toNat < 2 ^ 64) (id run run' : String)
    (random : RandomSource) (inputs : Record Json) (answer : Except RunError (Record Json)) :
    env.Returns run random (.calling id f p.signature) inputs answer ↔
      env.Returns run' random p inputs answer := by
  have hdepth := fun depth =>
    runWithin_calling hf hcache hslack hfits id depth run run' random inputs
  constructor
  · rintro ⟨depth, hanswer⟩
    -- one more level changes no answer, and leaves a level for the call
    have hne : (env.runWithin depth run random (.calling id f p.signature) inputs).outcome ≠
        .error .outOfDepth := by
      rw [hanswer]
      cases answer <;> exact fun h => nomatch h
    have hdeeper := runWithin_persists (Nat.le_succ depth) hne
    exact ⟨depth, (hdepth depth).symm.trans (hdeeper ▸ hanswer)⟩
  · rintro ⟨depth, hanswer⟩
    exact ⟨depth + 1, (hdepth depth).trans hanswer⟩

/-- A program that calls itself as `lower`: a raised flag is lowered and tried again, and a lowered
one is told. The output has two sources, of which one is used, and a second output never comes. -/
def lowering : Program where
  input := [⟨"flag", ⟨"split", "condition"⟩, .bool⟩]
  output := [⟨"word", ⟨"again", "word"⟩, .string⟩, ⟨"word", ⟨"tell", "data"⟩, .string⟩,
    ⟨"never", ⟨"tell", "other"⟩, .string⟩]
  nodes := .ofList [
    ("split", ⟨"ctrl.split", [⟨"again", "true", "flag"⟩, ⟨"tell", "false", "condition"⟩],
      .ofList [("data", .bool false)]⟩),
    ("again", .bare "lower"),
    ("tell", ⟨"ctrl.if", [], .ofList [("true", .string "up"), ("false", .string "down")]⟩)]

/-- An environment in which `lowering` is known as `lower`. -/
def withLower : Environment :=
  (do
    let env ← ofConfig Library.settled ⟨none, 1, false⟩
    env.addFunction "lower" lowering : Noted Environment).run' #[]

/-- Called from a node with the least slack, the program that calls itself gives the one output that
it has, and without its input it fails as it does by itself. -/
theorem returns_calling_iff_lower :
    withLower.Returns "" default (.calling "node" "lower" lowering.signature)
        (.ofList [("flag", .bool true)]) (.ok (.ofList [("word", .string "down")])) ∧
      withLower.Returns "" default (.calling "node" "lower" lowering.signature) .empty
        (.error (.missingInput "flag")) := by
  have hf : withLower.catalog.get? "lower" = some (.ofProgram lowering) := by
    show (Library.settled.register "lower" (.ofProgram lowering)).get? "lower" = _
    rw [Catalog.get?_register, if_pos rfl]
  have hiff := fun inputs answer => returns_calling_iff hf rfl (by decide) (by decide) "node" ""
    "" default inputs answer
  exact ⟨(hiff _ _).2 ⟨3, by decide +kernel⟩, (hiff _ _).2 ⟨0, by decide +kernel⟩⟩

end Environment

end Dataflow
