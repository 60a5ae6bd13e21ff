/-
What a valid program can rely on.

A valid program has a function for each of its nodes, and its bindings and edges lead to nodes that
accept them.

* `Program.Calls` — a node together with the function it calls;
* `Program.Known`, `Program.Valid` — programs whose names lead somewhere;
* `Validation.signatureOf?_of_calls` — the signatures that a check looks at.
-/
import Mathlib
import Dataflow.Diagnostic.Validation
import Dataflow.Proofs.Record
namespace Dataflow

/-! ### Keys of a function -/

namespace Signature

variable {signature : Signature} {key : String}

theorem hasCallbackInput_iff : signature.hasCallbackInput key = true ↔ ∃ name callback,
    signature.callbacks.get? name = some callback ∧ key ∈ Param.names callback.input := by
  simp only [hasCallbackInput, bodies, List.any_map, List.any_eq_true, Prod.exists,
    Record.mem_entries]
  simp

theorem hasCallbackOutput_iff : signature.hasCallbackOutput key = true ↔ ∃ name callback,
    signature.callbacks.get? name = some callback ∧ key ∈ Param.names callback.output := by
  simp only [hasCallbackOutput, bodies, List.any_map, List.any_eq_true, Prod.exists,
    Record.mem_entries]
  simp

end Signature

/-! ### Valid programs -/

/-- The node with the given id calls a function of the catalog. -/
structure Program.Calls (p : Program) (c : Catalog) (id : String) (node : Node) (entry : Entry) :
    Prop where
  node_eq : p.node? id = some node
  entry_eq : c.get? node.function = some entry

theorem Program.Calls.unique {p : Program} {c : Catalog} {id : String} {node node' : Node}
    {entry entry' : Entry} (h : p.Calls c id node entry) (h' : p.Calls c id node' entry') :
    node = node' ∧ entry = entry' := by
  cases h.node_eq.symm.trans h'.node_eq
  cases h.entry_eq.symm.trans h'.entry_eq
  exact ⟨rfl, rfl⟩

theorem Program.Calls.signature?_eq {p : Program} {c : Catalog} {id : String} {node : Node}
    {entry : Entry} (h : p.Calls c id node entry) :
    c.signature? node.function = some entry.signature := by
  rw [Catalog.signature?, h.entry_eq]
  rfl

/-- A program whose functions are all in the catalog. -/
def Program.Known (p : Program) (c : Catalog) : Prop :=
  ∀ id node, p.node? id = some node → ∃ entry, p.Calls c id node entry

/-- A program whose names all lead somewhere. -/
structure Program.Valid (p : Program) (c : Catalog) : Prop where
  functions : ∀ {id node}, p.node? id = some node → ∃ entry, p.Calls c id node entry
  inputs : ∀ b ∈ p.input, ∃ node entry, p.Calls c b.address.id node entry ∧
    entry.signature.accepts b.address.key = true
  edges : ∀ {id node entry}, p.Calls c id node entry → ∀ edge ∈ node.next,
    entry.signature.provides edge.fromKey = true ∧
      ∃ target called, p.Calls c edge.target target called ∧
        called.signature.accepts edge.toKey = true

namespace Validation

variable {p : Program} {c : Catalog}

theorem signatureOf?_eq_some {id function : String} {signature : Signature}
    (h : signatureOf? p c id = some (function, signature)) :
    ∃ node entry, p.Calls c id node entry ∧ entry.signature = signature := by
  rw [signatureOf?] at h
  obtain ⟨node, hnode, h⟩ := Option.bind_eq_some_iff.1 h
  obtain ⟨found, hfound, h⟩ := Option.bind_eq_some_iff.1 h
  cases h
  obtain ⟨entry, hentry, hsignature⟩ := Option.map_eq_some_iff.1 hfound
  exact ⟨node, entry, ⟨hnode, hentry⟩, hsignature⟩

theorem signatureOf?_of_calls {id : String} {node : Node} {entry : Entry}
    (h : p.Calls c id node entry) :
    signatureOf? p c id = some (node.function, entry.signature) := by
  rw [signatureOf?, h.node_eq]
  simp only [Option.bind_eq_bind, Option.bind_some, h.signature?_eq]
  rfl

end Validation

end Dataflow
