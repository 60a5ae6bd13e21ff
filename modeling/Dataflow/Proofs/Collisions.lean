/-
What the collisions of a signature say.

Edges arrive at a node on its inputs and on what its callbacks give back, and they leave from its
outputs and from what it hands to its callbacks. A collision is reported for every name that comes
once more in one of these two lists, so as many are reported as there are names too many. A
signature without collisions tells from the key of an edge where the edge belongs, and the signature
of a program never has any.

* `Signature.arriving`, `Signature.leaving` — the two name spaces;
* `Signature.length_collisions` — the collisions are counted by names and distinct names;
* `Signature.Unambiguous` — every key belongs to one place;
* `Program.inputNames_signature` — a program lists its bound names, each once;
* `Signature.collisions_exact` — all of this.
-/
import Mathlib
import Dataflow.Proofs.Calling
import Dataflow.Proofs.Cutting
namespace Dataflow

/-! ### Counting repeats -/

/-- Without duplicates nothing comes twice. -/
theorem nodup_eraseDups (names : List String) : names.eraseDups.Nodup := by
  cases names with
  | nil => exact List.nodup_nil
  | cons name rest =>
    rw [List.eraseDups_cons, List.nodup_cons, List.mem_eraseDups]
    exact ⟨by simp, nodup_eraseDups (rest.filter fun other => !other == name)⟩
termination_by names.length
decreasing_by exact Nat.lt_succ_of_le (List.length_filter_le _ _)

private theorem card_toFinset_eq_length_iff {names : List String} :
    names.toFinset.card = names.length ↔ names.Nodup := by
  rw [List.card_toFinset]
  refine ⟨fun h => ?_, fun h => by rw [h.dedup]⟩
  rw [← List.dedup_eq_self]
  exact (List.dedup_sublist names).eq_of_length h

/-- The names of what a callback is handed. -/
def CallbackSignature.inputNames (callback : CallbackSignature) : List String :=
  Param.names callback.input

/-- The names of what a callback gives back. -/
def CallbackSignature.outputNames (callback : CallbackSignature) : List String :=
  Param.names callback.output

namespace Signature

variable {s : Signature}

/-- A name is new or it is a repeat. -/
theorem length_repeats (seen names : List String) :
    (repeats seen names).length + (names ++ seen).toFinset.card =
      names.length + seen.toFinset.card := by
  induction names generalizing seen with
  | nil => simp [repeats]
  | cons name rest ih =>
    rw [repeats, List.cons_append, List.toFinset_cons]
    split
    · rename_i hseen
      have hmem : name ∈ (rest ++ seen).toFinset := by simp [hseen]
      have hrest := ih seen
      rw [Finset.insert_eq_of_mem hmem, List.length_cons, List.length_cons]
      omega
    · rename_i hnew
      -- the name is counted as seen from now on
      have hrest := ih (name :: seen)
      have hsame : (rest ++ name :: seen).toFinset = insert name (rest ++ seen).toFinset := by
        ext other
        simp
      have hcard : (name :: seen).toFinset.card = seen.toFinset.card + 1 := by
        rw [List.toFinset_cons, Finset.card_insert_of_notMem (by simpa using hnew)]
      rw [hsame] at hrest
      rw [List.length_cons]
      omega

/-- The keys on which edges arrive: the inputs, and what the callbacks give back. -/
def arriving (s : Signature) : List String := s.inputNames ++ s.bodies.flatMap (·.outputNames)

/-- The keys from which edges leave: the outputs, and what the callbacks are handed. -/
def leaving (s : Signature) : List String := s.outputNames ++ s.bodies.flatMap (·.inputNames)

/-- Callbacks are counted one after the other, each against all names before it. -/
theorem length_callbackCollisions (inputs outputs : List String)
    (callbacks : List CallbackSignature) :
    (callbackCollisions inputs outputs callbacks).length +
        ((callbacks.flatMap (·.outputNames) ++ inputs).toFinset.card +
          (callbacks.flatMap (·.inputNames) ++ outputs).toFinset.card) =
      ((callbacks.flatMap (·.outputNames)).length + inputs.toFinset.card) +
        ((callbacks.flatMap (·.inputNames)).length + outputs.toFinset.card) := by
  induction callbacks generalizing inputs outputs with
  | nil => simp [callbackCollisions]
  | cons callback rest ih =>
    have hmoved (side : CallbackSignature → List String) (own : List String) :
        ((callback :: rest).flatMap side ++ own).toFinset =
          (rest.flatMap side ++ (side callback ++ own)).toFinset := by
      ext other
      simp [or_left_comm]
    have hlength (side : CallbackSignature → List String) :
        ((callback :: rest).flatMap side).length =
          (side callback).length + (rest.flatMap side).length := by
      rw [List.flatMap_cons, List.length_append]
    have hrest := ih (callback.outputNames ++ inputs) (callback.inputNames ++ outputs)
    have houtputs := length_repeats inputs callback.outputNames
    have hinputs := length_repeats outputs callback.inputNames
    rw [callbackCollisions, List.length_append, List.length_append, List.length_map,
      List.length_map, hmoved, hmoved, hlength, hlength]
    change (repeats inputs callback.outputNames).length +
      (repeats outputs callback.inputNames).length +
      (callbackCollisions (callback.outputNames ++ inputs) (callback.inputNames ++ outputs)
        rest).length + _ = _
    omega

/-- **As many collisions as names too many.** -/
theorem length_collisions (s : Signature) :
    s.collisions.length + (s.arriving.toFinset.card + s.leaving.toFinset.card) =
      s.arriving.length + s.leaving.length := by
  have hinputs := length_repeats [] s.inputNames
  have houtputs := length_repeats [] s.outputNames
  have hcallbacks := length_callbackCollisions s.inputNames s.outputNames s.bodies
  have hswap (own more : List String) : (own ++ more).toFinset = (more ++ own).toFinset := by
    rw [List.toFinset_append, List.toFinset_append, Finset.union_comm]
  simp only [List.append_nil, List.toFinset_nil, Finset.card_empty] at hinputs houtputs
  rw [arriving, leaving, hswap s.inputNames, hswap s.outputNames, collisions]
  simp only [List.length_append, List.length_map]
  omega

private theorem collisions_eq_nil_iff : s.collisions = [] ↔ s.arriving.Nodup ∧ s.leaving.Nodup := by
  have hcount := length_collisions s
  have harriving := List.toFinset_card_le s.arriving
  have hleaving := List.toFinset_card_le s.leaving
  rw [← List.length_eq_zero_iff, ← card_toFinset_eq_length_iff, ← card_toFinset_eq_length_iff]
  omega

/-! ### Every key belongs to one place -/

/-- In a name space without repetitions the callbacks keep clear of the function's own names and of
each other. -/
theorem disjoint_of_nodup {own : List String} {side : CallbackSignature → List String}
    (h : (own ++ s.bodies.flatMap side).Nodup) :
    (∀ {name callback}, s.callbacks.get? name = some callback → own.Disjoint (side callback)) ∧
    ∀ {name name' callback callback'}, s.callbacks.get? name = some callback →
      s.callbacks.get? name' = some callback' → name ≠ name' →
      (side callback).Disjoint (side callback') := by
  obtain ⟨-, hbodies, hown⟩ := List.nodup_append'.1 h
  rw [bodies, List.flatMap_map] at hbodies hown
  constructor
  · intro name callback hcallback key hkey hside
    exact hown hkey (List.mem_flatMap.2 ⟨_, Record.mem_entries.2 hcallback, hside⟩)
  · intro name name' callback callback' hcallback hcallback' hne
    have hpairs := (List.nodup_flatMap.1 hbodies).2
    have : Std.Symm (Function.onFun List.Disjoint fun entry : String × CallbackSignature =>
        side entry.2) := ⟨fun _ _ hdisjoint => hdisjoint.symm⟩
    exact hpairs.forall (Record.mem_entries.2 hcallback) (Record.mem_entries.2 hcallback')
      fun heq => hne (congrArg Prod.fst heq)

/-- The key of an edge tells where the edge belongs. -/
structure Unambiguous (s : Signature) : Prop where
  /-- No key is both an input and a callback output. -/
  input : ∀ key, s.hasInput key = true → s.hasCallbackOutput key = false
  /-- No key is both an output and a callback input. -/
  output : ∀ key, s.hasOutput key = true → s.hasCallbackInput key = false
  /-- No two callbacks share a key on the same side. -/
  callbacks : ∀ name name' callback callback', s.callbacks.get? name = some callback →
    s.callbacks.get? name' = some callback' → name ≠ name' →
    callback.outputNames.Disjoint callback'.outputNames ∧
      callback.inputNames.Disjoint callback'.inputNames
  /-- No edge that leads into the body of a callback is one along which results travel. -/
  feeding : ∀ p site, ∀ edge ∈ Callback.feedingEdges p site s, s.hasOutput edge.fromKey = false
  /-- Every edge that leads into the body of a callback does so for one callback. -/
  fed : ∀ p site, ∀ edge ∈ Callback.feedingEdges p site s, ∃! name, ∃ callback,
    s.callbacks.get? name = some callback ∧ edge.fromKey ∈ callback.inputNames

private theorem unambiguous_of_nodup (harriving : s.arriving.Nodup) (hleaving : s.leaving.Nodup) :
    s.Unambiguous := by
  obtain ⟨hinput, houtputs⟩ := disjoint_of_nodup harriving
  obtain ⟨houtput, hinputs⟩ := disjoint_of_nodup hleaving
  refine ⟨fun key hkey => ?_, fun key hkey => ?_, fun name name' callback callback' h h' hne =>
    ⟨houtputs h h' hne, hinputs h h' hne⟩, fun p site edge hedge => ?_,
    fun p site edge hedge => ?_⟩
  · rw [Bool.eq_false_iff, Ne, hasCallbackOutput_iff]
    rintro ⟨name, callback, hcallback, hback⟩
    exact hinput hcallback (List.contains_iff_mem.1 hkey) hback
  · rw [Bool.eq_false_iff, Ne, hasCallbackInput_iff]
    rintro ⟨name, callback, hcallback, hhanded⟩
    exact houtput hcallback (List.contains_iff_mem.1 hkey) hhanded
  · obtain ⟨-, name, callback, hcallback, hhanded⟩ := Callback.mem_feedingEdges.1 hedge
    rw [Bool.eq_false_iff]
    exact fun hkey => houtput hcallback (List.contains_iff_mem.1 hkey) hhanded
  · obtain ⟨-, name, callback, hcallback, hhanded⟩ := Callback.mem_feedingEdges.1 hedge
    refine ⟨name, ⟨callback, hcallback, hhanded⟩, ?_⟩
    rintro name' ⟨callback', hcallback', hhanded'⟩
    by_contra hne
    exact hinputs hcallback' hcallback hne hhanded' hhanded

end Signature

/-! ### Signatures of programs -/

namespace Program

variable {p : Program} {inputs : Record Json}

/-- The parameters are named after the bindings, without the names that were seen before. -/
theorem names_params (seen : List String) (bindings : List Binding) :
    Param.names (params seen bindings) =
      ((bindings.map (·.name)).filter fun name => name ∉ seen).eraseDups := by
  induction bindings generalizing seen with
  | nil => rfl
  | cons b rest ih =>
    rw [params, List.map_cons, eraseDups_filter_cons]
    split
    · exact ih seen
    · exact congrArg _ (ih (b.name :: seen))

/-- The inputs are the bound names, each where it comes first. -/
theorem inputNames_signature (p : Program) :
    p.signature.inputNames = (p.input.map (·.name)).eraseDups := by
  rw [Signature.inputNames, signature, Signature.plain, names_params]
  simp

private theorem outputNames_signature (p : Program) :
    p.signature.outputNames = (p.output.map (·.name)).eraseDups := by
  rw [Signature.outputNames, signature, Signature.plain, names_params]
  simp

private theorem collisions_signature (p : Program) : p.signature.collisions = [] := by
  rw [Signature.collisions_eq_nil_iff, Signature.arriving, Signature.leaving,
    inputNames_signature, outputNames_signature]
  have hbodies : p.signature.bodies = [] := rfl
  rw [hbodies, List.flatMap_nil, List.flatMap_nil, List.append_nil, List.append_nil]
  exact ⟨nodup_eraseDups _, nodup_eraseDups _⟩

/-- The arguments have a value for every input of the signature. -/
def Covered (p : Program) (inputs : Record Json) : Prop :=
  ∀ name ∈ p.signature.inputNames, inputs.contains name = true

private theorem missing?_eq_none_iff : p.missing? inputs = none ↔ p.Covered inputs := by
  rw [missing?, Covered, inputNames_signature, List.find?_eq_none]
  simp only [List.mem_eraseDups, Bool.not_eq_true, Bool.not_eq_false']

end Program

/-- A run that does not miss an input has them all. -/
theorem Environment.covered_of_run {env : Environment} {run : String} {random : RandomSource}
    {p : Program} {inputs : Record Json}
    (h : ∀ name, (env.run run random p inputs).outcome ≠ .error (.failed (.missingInput name))) :
    p.Covered inputs := by
  rw [← Program.missing?_eq_none_iff, Option.eq_none_iff_forall_ne_some]
  intro name hmissing
  refine h name ?_
  have hframes : p.firstFrames inputs = .error (.missingInput name) := by
    rw [Program.firstFrames_eq, hmissing]
  obtain ⟨s, -, houtcome⟩ := session_outcome env depthLimit run p inputs
    ⟨env.cache.map MemoCache.clear, #[], #[], random⟩
  exact houtcome.trans (congrArg Prod.fst (Host.runProgram_of_error hframes mainCaller s))

/-- **Collisions are counted exactly.** A signature has as many as it has names too many on its two
sides, and without them every key belongs to one place. The signature of a program has none; it
lists what the program binds, which is what a run of the program asks for. -/
theorem Signature.collisions_exact :
    (∀ s : Signature,
      (s.collisions.map Collision.message).length =
        (s.arriving.length - s.arriving.toFinset.card) +
          (s.leaving.length - s.leaving.toFinset.card) ∧
      (s.collisions.map Collision.message = [] ↔ s.arriving.Nodup ∧ s.leaving.Nodup) ∧
      (s.collisions = [] → s.Unambiguous)) ∧
    ∀ p : Program,
      p.signature.collisions = [] ∧
      p.signature.inputNames = (p.input.map (·.name)).eraseDups ∧
      p.signature.outputNames = (p.output.map (·.name)).eraseDups ∧
      p.signature.callbacks = .empty ∧
      (∀ inputs, (∃ frames, p.firstFrames inputs = .ok frames) ↔ p.Covered inputs) ∧
      ∀ (env : Environment) (run : String) (random : RandomSource) (inputs : Record Json),
        (∀ name, (env.run run random p inputs).outcome ≠ .error (.failed (.missingInput name))) →
        p.Covered inputs := by
  refine ⟨fun s => ⟨?_, ?_, fun hnone => ?_⟩, fun p => ⟨p.collisions_signature,
    p.inputNames_signature, p.outputNames_signature, rfl, fun inputs => ?_,
    fun env run random inputs => Environment.covered_of_run⟩⟩
  · have hcount := length_collisions s
    have harriving := List.toFinset_card_le s.arriving
    have hleaving := List.toFinset_card_le s.leaving
    rw [List.length_map]
    omega
  · rw [List.map_eq_nil_iff, collisions_eq_nil_iff]
  · obtain ⟨harriving, hleaving⟩ := collisions_eq_nil_iff.1 hnone
    exact unambiguous_of_nodup harriving hleaving
  · rw [← Program.missing?_eq_none_iff, Program.firstFrames_eq]
    cases p.missing? inputs <;> simp

/-- Two callbacks, each of which is handed what the other gives back. -/
def Signature.crossed : Signature where
  input := [⟨"a", .num⟩]
  output := [⟨"a", .num⟩]
  callbacks := .ofList [("f", ⟨[⟨"b", .num⟩], [⟨"c", .num⟩]⟩),
    ("g", ⟨[⟨"c", .num⟩], [⟨"b", .num⟩]⟩)]

/-- A name may come on both sides. A program that binds a name twice has it once in its
signature. -/
theorem Signature.collisions_exact_crossed :
    let twice : Program := ⟨[⟨"x", ⟨"m", "a"⟩, .num⟩, ⟨"x", ⟨"n", "a"⟩, .num⟩], [], .empty⟩
    crossed.collisions = [] ∧ crossed.Unambiguous ∧
      ({ crossed with input := [⟨"a", .num⟩, ⟨"c", .num⟩] }.collisions.map
        Collision.message).length = 1 ∧
      twice.signature.inputNames = ["x"] ∧ twice.Covered (.ofList [("x", .null)]) := by
  intro twice
  have hnone : crossed.collisions = [] := by decide
  refine ⟨hnone, (collisions_exact.1 _).2.2 hnone, (collisions_exact.1 _).1.trans (by decide),
    (collisions_exact.2 twice).2.1.trans (by decide), ?_⟩
  let env : Environment := ⟨Library.catalog, .default, none, fun _ => none⟩
  have houtcome : (env.run "" default twice (.ofList [("x", .null)])).outcome = .ok .empty := by
    decide +kernel
  refine (collisions_exact.2 twice).2.2.2.2.2 env "" default _ fun name => ?_
  rw [houtcome]
  exact fun h => nomatch h

end Dataflow
