/-
How callbacks are wired.

Every key that a callback declares has to be wired: an input by an edge that leaves the call site,
an output by an edge that comes back from the body. An extraction goes through the keys in order and
fails at the first one without an edge. If it comes to the end, all of them are bound.

* `Wire.Met` — a key is wired;
* `Callback.extract_checked` — an extraction depends on the keys, one after the other;
* `Callback.Wired` — a program with the bindings of a callback;
* `Callback.wired_of_extract` — the programs of an extraction have them.
-/
import Mathlib
import Dataflow.Proofs.BreadthFirst
namespace Dataflow

/-! ### Keys that are wired -/

namespace Wire

open Callback

/-- A key is wired: an input by an edge of the call site, an output by an edge that comes back from
an id that the feeding edges reach. -/
def Met (p : Program) (site : String) (signature : Signature) : Wire → Prop :=
  MetBy p site (edgesOf p site) fun id =>
    id ≠ site ∧ Reach p site (feedingEdges p site signature) id

private theorem mem_input_of_wire {signature : Signature} {w : Wire} (hw : w ∈ signature.wires)
    (hside : w.side = .input) : ∃ name callback,
      signature.callbacks.get? name = some callback ∧ w.key ∈ Param.names callback.input := by
  obtain ⟨⟨name, callback⟩, he, hw⟩ := List.mem_flatMap.1 hw
  refine ⟨name, callback, Record.mem_entries.1 he, ?_⟩
  rcases List.mem_append.1 hw with hw | hw
  · obtain ⟨param, hparam, rfl⟩ := List.mem_map.1 hw
    exact List.mem_map.2 ⟨param, hparam, rfl⟩
  · obtain ⟨param, -, rfl⟩ := List.mem_map.1 hw
    cases hside

/-- Every edge that leaves from a callback input is a feeding edge, and the body is what these
reach. -/
theorem metBy_iff {p : Program} {site : String} {signature : Signature} {w : Wire}
    (hw : w ∈ signature.wires) :
    w.MetBy p site (feedingEdges p site signature)
      (· ∈ body p site (feedingEdges p site signature)) ↔ w.Met p site signature := by
  rw [Met, MetBy, MetBy]
  split
  · rename_i hside
    obtain ⟨name, callback, hcallback, hkey⟩ := mem_input_of_wire hw hside
    constructor
    · rintro ⟨edge, hedge, hfrom⟩
      exact ⟨edge, (mem_feedingEdges.1 hedge).1, hfrom⟩
    · rintro ⟨edge, hedge, hfrom⟩
      exact ⟨edge, mem_feedingEdges.2 ⟨hedge, name, callback, hcallback, hfrom ▸ hkey⟩, hfrom⟩
  · constructor
    · rintro ⟨id, hid, hback⟩
      exact ⟨id, ⟨(mem_body.1 hid).ne_site, mem_body.1 hid⟩, hback⟩
    · rintro ⟨id, ⟨-, hid⟩, hback⟩
      exact ⟨id, mem_body.2 hid, hback⟩

end Wire

namespace Callback

variable {p : Program} {site name : String} {signature : Signature} {frames : FrameQueue}
  {extraction : Extraction} {closure : Closure} {ids : List String}

/-- **An extraction goes through the keys of the callbacks.** -/
theorem extract_checked {node : Node} (hnode : p.node? site = some node) (signature : Signature)
    (frames : FrameQueue) :
    Wire.Checked (Wire.Met p site signature) signature.wires
      (extract p site signature frames) := by
  rw [extract, hnode]
  simp only [Option.isNone_some, Bool.false_eq_true, false_or]
  split
  · -- Without callbacks there are no keys.
    rename_i hplain
    rw [Signature.wires, Record.isEmpty_iff.1 hplain.1]
    exact .nil _
  · have hchecked := closures_checked p site (feedingEdges p site signature)
      (body p site (feedingEdges p site signature))
      (frames.restrict (body p site (feedingEdges p site signature))) signature.callbacks.entries
    exact (hchecked.map _).congr fun w hw => Wire.metBy_iff hw

/-! ### Bindings -/

/-- The edge brings a callback output back to the call site. -/
def Returns (site key : String) (edge : Edge) : Prop := edge.target = site ∧ edge.toKey = key

/-- The binding reads an output of a callback from the first of the ids with an edge that brings it
back, where the first such edge starts. -/
structure ReadFrom (p : Program) (site : String) (ids : List String) (param : Param)
    (b : Binding) : Prop where
  name : b.name = param.name
  type : b.type = param.type
  id : ∃ before after, ids = before ++ b.address.id :: after ∧
    ∀ id ∈ before, ∀ edge ∈ edgesOf p id, ¬Returns site param.name edge
  key : ∃ before edge after, edgesOf p b.address.id = before ++ edge :: after ∧
    Returns site param.name edge ∧ edge.fromKey = b.address.key ∧
    ∀ other ∈ before, ¬Returns site param.name other

/-- The program takes the inputs of a callback along all edges that leave the call site from them,
and each of its outputs is read from one place. -/
structure Wired (p : Program) (site : String) (ids : List String) (callback : CallbackSignature)
    (inner : Program) : Prop where
  input : inner.input = callback.input.flatMap fun param =>
    ((edgesOf p site).filter fun edge => edge.fromKey = param.name).map fun edge =>
      ⟨param.name, ⟨edge.target, edge.toKey⟩, param.type⟩
  output : List.Forall₂ (ReadFrom p site ids) callback.output inner.output

private theorem readFrom_of_outputBinding {param : Param} {b : Binding}
    (h : outputBinding? p site ids param = some b) : ReadFrom p site ids param b := by
  obtain ⟨before, id, after, hids, hfound, hbefore⟩ := List.findSome?_eq_some_iff.1 h
  obtain ⟨edge, hfind, rfl⟩ := Option.map_eq_some_iff.1 hfound
  obtain ⟨hedge, earlier, later, hedges, hearlier⟩ := List.find?_eq_some_iff_append.1 hfind
  refine ⟨rfl, rfl, ⟨before, after, hids, fun other hother other' hedge' => ?_⟩,
    ⟨earlier, edge, later, hedges, by simpa [Returns] using hedge, rfl, fun other hother => ?_⟩⟩
  · have hnone := List.find?_eq_none.1 (Option.map_eq_none_iff.1 (hbefore other hother))
    simpa [Returns] using hnone other' hedge'
  · simpa [Returns, imp_iff_not_or] using hearlier other hother

/-- **The programs of an extraction are wired as their callbacks declare.** -/
theorem wired_of_extract (h : extract p site signature frames = .ok extraction)
    {callback : CallbackSignature} (hcallback : signature.callbacks.get? name = some callback)
    (hclosure : extraction.closures.get? name = some closure) :
    Wired p site (body p site (feedingEdges p site signature)) callback closure.program := by
  obtain ⟨other, hother, -, -, hinput, houtput⟩ := closure_of_extract h hclosure
  cases hother.symm.trans hcallback
  constructor
  · rw [wireInputs_eq_ok hinput]
    refine List.flatMap_congr fun param hparam => ?_
    rw [inputBindings, feedingEdges, List.filter_filter]
    refine congrArg _ (List.filter_congr fun edge _ => ?_)
    -- An edge that leaves from an input of the callback is a feeding edge.
    have hname : param.name ∈ Param.names callback.input := List.mem_map.2 ⟨param, hparam, rfl⟩
    have hhas : signature.hasCallbackInput param.name = true :=
      Signature.hasCallbackInput_iff.2 ⟨name, callback, hcallback, hname⟩
    by_cases hfrom : edge.fromKey = param.name <;> simp [hfrom, hhas]
  · refine (wireOutputs_eq_ok houtput).imp fun param b hbinding => ?_
    rw [outputBinding?_exits] at hbinding
    exact readFrom_of_outputBinding hbinding

end Callback

end Dataflow
