/-
What a callback's body is cut from.

The closures that a firing gets stand for the callbacks that its function declares. Each takes the
inputs that its callback declares, and its nodes are nodes of the surrounding program. An extraction
that fails names a key of a callback that is not wired.

* `Callback.exists_closure` — every declared callback has a closure, fed by its declared inputs;
* `Callback.extract_eq_error` — extraction fails on the wiring only.
-/
import Mathlib
import Dataflow.Proofs.Validation
import Dataflow.Proofs.Wire
namespace Dataflow

theorem Table.mem_of_get?_ofList {α : Type} {entries : List (String × α)} {name : String}
    {value : α} (h : (Table.ofList entries).get? name = some value) : (name, value) ∈ entries := by
  have hfold : ∀ (rest : List (String × α)) (t : Table α),
      (rest.foldl (fun t e => t.put e.1 e.2) t).get? name = some value →
      (name, value) ∈ rest ∨ t.get? name = some value := by
    intro rest
    induction rest with
    | nil => exact fun t ht => .inr ht
    | cons entry rest ih =>
      intro t ht
      rcases ih _ ht with hmem | hput
      · exact .inl (List.mem_cons_of_mem _ hmem)
      · rw [get?_put] at hput
        split at hput
        · rename_i hname
          cases hput
          exact .inl (hname ▸ List.mem_cons_self ..)
        · exact .inr hput
  rcases hfold entries .empty h with hmem | hempty
  · exact hmem
  · cases hempty

namespace Callback

variable {p : Program} {site : String} {feeding : List Edge} {body : List String}
  {seed : FrameQueue} {error : RunError}

/-! ### Closures -/

/-- The nodes of a body are nodes of the program, with fewer edges. -/
theorem node_of_bodyNodes {id : String} {inner : Node}
    (h : (bodyNodes p site body).get? id = some inner) :
    ∃ node, p.node? id = some node ∧ inner.function = node.function := by
  obtain ⟨other, -, heq⟩ := List.mem_filterMap.1 (Table.mem_of_get?_ofList h)
  obtain ⟨node, hnode, heq⟩ := Option.map_eq_some_iff.1 heq
  cases heq
  exact ⟨node, hnode, rfl⟩

private theorem wireInputs_names {callback : String} {params : List Param} {input : List Binding}
    (h : wireInputs callback feeding params = .ok input) {b : Binding} (hb : b ∈ input) :
    b.name ∈ Param.names params := by
  rw [wireInputs_eq_ok h] at hb
  obtain ⟨param, hparam, hb⟩ := List.mem_flatMap.1 hb
  obtain ⟨edge, -, rfl⟩ := List.mem_map.1 hb
  exact List.mem_map.2 ⟨param, hparam, rfl⟩

/-- Each closure belongs to a callback of the list. -/
theorem closures_declared {callbacks : List (String × CallbackSignature)}
    {found : List (String × Closure)}
    (h : closures p site feeding body seed callbacks = .ok found) :
    found.map (·.1) = callbacks.map (·.1) ∧
      ∀ name closure, (name, closure) ∈ found → ∃ callback, (name, callback) ∈ callbacks ∧
        closure.program.nodes = bodyNodes p site body ∧
        ∀ b ∈ closure.program.input, b.name ∈ Param.names callback.input := by
  induction callbacks generalizing found with
  | nil =>
    cases h
    exact ⟨rfl, by simp⟩
  | cons callback rest ih =>
    obtain ⟨input, output, more, hinput, -, hmore, rfl⟩ := closures_cons h
    obtain ⟨hnames, hdeclared⟩ := ih hmore
    refine ⟨by rw [List.map_cons, hnames, List.map_cons], fun name closure hmem => ?_⟩
    rcases List.mem_cons.1 hmem with heq | hmem
    · cases heq
      exact ⟨callback.2, List.mem_cons_self .., rfl, fun b hb => wireInputs_names hinput hb⟩
    · obtain ⟨other, hother, hclosure⟩ := hdeclared name closure hmem
      exact ⟨other, List.mem_cons_of_mem _ hother, hclosure⟩

/-- **Every declared callback has a closure**, which is fed by the declared inputs only and calls
known functions if the program does. -/
theorem exists_closure {c : Catalog} {signature : Signature} {frames : FrameQueue}
    {extraction : Extraction} {node : Node} (hnode : p.node? site = some node)
    (h : extract p site signature frames = .ok extraction) {name : String}
    {callback : CallbackSignature} (hcallback : signature.callbacks.get? name = some callback)
    (hp : p.Known c) :
    ∃ closure, extraction.closures.get? name = some closure ∧ closure.program.Known c ∧
      ∀ b ∈ closure.program.input, b.name ∈ Param.names callback.input := by
  rw [extract] at h
  split at h
  · -- Without callbacks there is nothing to cut out.
    rename_i hnone
    rcases hnone with hnone | ⟨hempty, -⟩
    · rw [hnode] at hnone
      cases hnone
    · rw [Record.isEmpty_iff.1 hempty] at hcallback
      cases hcallback
  · obtain ⟨found, hfound, h⟩ := Except.bind_eq_ok h
    cases h
    obtain ⟨hnames, hdeclared⟩ := closures_declared hfound
    have hmem : name ∈ found.map (·.1) := by
      rw [hnames]
      exact List.mem_map.2 ⟨_, Record.mem_entries.2 hcallback, rfl⟩
    obtain ⟨closure, hclosure⟩ := Record.contains_eq_true.1 (Record.contains_ofList hmem)
    -- Names are distinct, so what stands under the name was made for this callback.
    have hlisted := hclosure
    rw [Record.get?_ofList_reverse] at hlisted
    obtain ⟨other, hother, hnodes, hinput⟩ :=
      hdeclared name closure (List.mem_reverse.1 (Entries.mem_of_lookup hlisted))
    cases hcallback.symm.trans (Record.mem_entries.1 hother)
    refine ⟨closure, hclosure, fun id inner hinner => ?_, hinput⟩
    rw [Program.node?, hnodes] at hinner
    obtain ⟨outer, houter, hfunction⟩ := node_of_bodyNodes hinner
    obtain ⟨entry, hcalls⟩ := hp id outer houter
    refine ⟨entry, ?_, hfunction ▸ hcalls.entry_eq⟩
    rw [Program.node?, hnodes]
    exact hinner

/-! ### Failed extractions -/

/-- **An extraction fails on the wiring only.** -/
theorem extract_eq_error {signature : Signature} {frames : FrameQueue}
    (h : extract p site signature frames = .error error) :
    ∃ callback key side, error = .callbackWiring callback key side := by
  rw [extract] at h
  split at h
  · cases h
  · rcases Except.bind_eq_error h with hfound | ⟨found, -, h⟩
    · obtain ⟨before, w, after, -, -, -, rfl⟩ := (closures_checked ..).error_iff.1 hfound
      exact ⟨w.callback, w.key, w.side, rfl⟩
    · cases h

end Callback

end Dataflow
