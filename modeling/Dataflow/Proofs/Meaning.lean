/-
The dataflow meaning of a graph.

Where nothing leads back, a program has a meaning that does not mention frames, queues or steps: the
results of a node are those of its function on the values that its sources give, and a node that
lacks a value gives nothing. It is computed by recursion along the edges.

* `Program.FeedForward` — the programs that have such a meaning;
* `Program.eval` — what each node gives;
* `Program.eval_eq` — the equation that says so.
-/
import Mathlib
import Dataflow.Scheduler
import Dataflow.Proofs.Cycle
import Dataflow.Proofs.Flaw
namespace Dataflow

namespace Program

variable {p : Program} {c : Catalog} {inputs : Record Json}

/-! ### Sources -/

/-- The input bindings that feed a key of a node. -/
def bindingsTo (p : Program) (id key : String) : List Binding :=
  p.input.filter fun b => b.address.id = id ∧ b.address.key = key

/-- The edges that feed a key of a node, with their sources. -/
def edgesTo (p : Program) (id key : String) : List (String × Edge) :=
  (p.incoming id).filter fun e => e.2.toKey = key

/-- The number of sources of a key: bindings, edges and the default. -/
def sourceCount (p : Program) (id : String) (node : Node) (key : String) : Nat :=
  (p.bindingsTo id key).length + (p.edgesTo id key).length +
    if node.defaults.contains key then 1 else 0

/-- A valid program without cycles, without callbacks and with distinct outputs, in which every
declared input of every node has exactly one source. -/
structure FeedForward (p : Program) (c : Catalog) : Prop where
  clean : p.validate c = []
  acyclic : p.cycles c = []
  plain : ∀ {id node entry}, p.Calls c id node entry → entry.signature.callbacks = .empty
  distinct : p.outputNames.Nodup
  single : ∀ {id node entry}, p.Calls c id node entry → ∀ key ∈ entry.signature.inputNames,
    p.sourceCount id node key = 1

private theorem feedForward_iff : p.FeedForward c ↔
    p.validate c = [] ∧ p.cycles c = [] ∧ p.outputNames.Nodup ∧
      ∀ x ∈ p.nodes.entries, ∀ entry ∈ c.get? x.2.function,
        entry.signature.callbacks.isEmpty = true ∧
          ∀ key ∈ entry.signature.inputNames, p.sourceCount x.1 x.2 key = 1 := by
  constructor
  · intro h
    refine ⟨h.clean, h.acyclic, h.distinct, fun x hx entry hentry => ?_⟩
    have hcalls : p.Calls c x.1 x.2 entry := ⟨Table.mem_entries.1 hx, hentry⟩
    exact ⟨Record.isEmpty_iff.2 (h.plain hcalls), h.single hcalls⟩
  · rintro ⟨hclean, hacyclic, hdistinct, hnodes⟩
    refine ⟨hclean, hacyclic, fun hcalls => ?_, hdistinct, fun hcalls => ?_⟩
    · exact Record.isEmpty_iff.1
        (hnodes _ (Table.mem_entries.2 hcalls.node_eq) _ hcalls.entry_eq).1
    · exact (hnodes _ (Table.mem_entries.2 hcalls.node_eq) _ hcalls.entry_eq).2

instance (p : Program) (c : Catalog) : Decidable (p.FeedForward c) :=
  decidable_of_iff' _ feedForward_iff

/-! ### Values -/

/-- The value that a binding or an edge feeds to a key, when the nodes give `results`. -/
def fed (p : Program) (inputs : Record Json) (results : String → Option Outputs)
    (id key : String) : Option Json :=
  ((p.bindingsTo id key).findSome? fun b => inputs.get? b.name) <|>
    (p.edgesTo id key).findSome? fun e =>
      ((results e.1).bind fun outputs => outputs.get? e.2.fromKey).bind Flow.value?

/-- The value of an input of a node: what is fed to it, or its default. -/
def valueOf (p : Program) (inputs : Record Json) (results : String → Option Outputs)
    (id : String) (node : Node) (key : String) : Option Json :=
  p.fed inputs results id key <|> node.defaults.get? key

/-- The arguments of a node, if all its declared inputs have a value. -/
def argumentsOf (p : Program) (inputs : Record Json) (results : String → Option Outputs)
    (id : String) (node : Node) (signature : Signature) : Option (Record Json) :=
  if signature.inputNames.all fun key => (p.valueOf inputs results id node key).isSome then
    some (.ofList (signature.inputNames.filterMap fun key =>
      (p.valueOf inputs results id node key).map fun value => (key, value)))
  else none

/-- What a node gives when the functions are `F`, following the edges back at most `fuel` times. -/
def evalWithin (p : Program) (c : Catalog) (F : String → Record Json → Outputs)
    (inputs : Record Json) : (fuel : Nat) → (id : String) → Option Outputs
  | 0, _ => none
  | fuel + 1, id => do
    let node ← p.node? id
    let entry ← c.get? node.function
    let args ← p.argumentsOf inputs (evalWithin p c F inputs fuel) id node entry.signature
    return F node.function args

/-- What a node gives when the functions are `F`. A way back along the edges of a program without
cycles is shorter than the number of nodes. -/
def eval (p : Program) (c : Catalog) (F : String → Record Json → Outputs) (inputs : Record Json)
    (id : String) : Option Outputs :=
  p.evalWithin c F inputs p.size id

theorem mem_incoming {id : String} {e : String × Edge} (h : e ∈ p.incoming id) :
    e.2.target = id ∧ ∃ i, (e.1, i, e.2) ∈ p.edges := by
  obtain ⟨⟨source, i, edge⟩, hmem, hedge⟩ := List.mem_filterMap.1 h
  simp only at hedge
  split at hedge
  · cases hedge
    exact ⟨by assumption, i, hmem⟩
  · cases hedge

theorem mem_edgesTo {id key : String} {e : String × Edge} :
    e ∈ p.edgesTo id key ↔ e ∈ p.incoming id ∧ e.2.toKey = key := by
  rw [edgesTo, List.mem_filter, decide_eq_true_eq]

theorem fed_congr {results results' : String → Option Outputs} {id key : String}
    (h : ∀ e ∈ p.edgesTo id key, results e.1 = results' e.1) :
    p.fed inputs results id key = p.fed inputs results' id key := by
  rw [fed, fed, ← List.head?_filterMap (f := fun e : String × Edge => _),
    ← List.head?_filterMap (f := fun e : String × Edge => _), List.filterMap_congr]
  intro e he
  rw [h e he]

theorem argumentsOf_congr {results results' : String → Option Outputs} {id : String} (node : Node)
    (signature : Signature) (h : ∀ e ∈ p.incoming id, results e.1 = results' e.1) :
    p.argumentsOf inputs results id node signature =
      p.argumentsOf inputs results' id node signature := by
  have hvalue : ∀ key, p.valueOf inputs results id node key =
      p.valueOf inputs results' id node key := by
    intro key
    rw [valueOf, valueOf, fed_congr fun e he => h e (mem_edgesTo.1 he).1]
  rw [argumentsOf, argumentsOf]
  simp only [hvalue]

end Program

/-! ### The equation -/

namespace Signature

theorem hasCallbackInput_of_plain {s : Signature} (h : s.callbacks = .empty) (key : String) :
    s.hasCallbackInput key = false := by
  rw [hasCallbackInput, bodies, h]
  rfl

theorem hasCallbackOutput_of_plain {s : Signature} (h : s.callbacks = .empty) (key : String) :
    s.hasCallbackOutput key = false := by
  rw [hasCallbackOutput, bodies, h]
  rfl

end Signature

namespace Program

variable {p : Program} {c : Catalog} {inputs : Record Json}

namespace FeedForward

theorem valid (h : p.FeedForward c) : p.Valid c := valid_of_validate h.clean

/-- Edges from nodes without callbacks leave from declared outputs. -/
theorem hasOutput (h : p.FeedForward c) {id : String} {node : Node} {entry : Entry}
    (hcalls : p.Calls c id node entry) {edge : Edge} (hedge : edge ∈ node.next) :
    entry.signature.hasOutput edge.fromKey = true := by
  have hprovides := (h.valid.edges hcalls edge hedge).1
  rwa [Signature.provides, Signature.hasCallbackInput_of_plain (h.plain hcalls), Bool.or_false]
    at hprovides

/-- What nodes without callbacks accept are their declared inputs. -/
theorem mem_inputNames (h : p.FeedForward c) {id key : String} {node : Node} {entry : Entry}
    (hcalls : p.Calls c id node entry) (haccepts : entry.signature.accepts key = true) :
    key ∈ entry.signature.inputNames := by
  rw [Signature.accepts, Signature.hasCallbackOutput_of_plain (h.plain hcalls), Bool.or_false,
    Signature.hasInput, List.contains_iff_mem] at haccepts
  exact haccepts

/-- Edges arrive at declared inputs. -/
theorem toKey_mem (h : p.FeedForward c) {id : String} {node : Node} {entry : Entry}
    (hcalls : p.Calls c id node entry) {e : String × Edge} (he : e ∈ p.incoming id) :
    e.2.toKey ∈ entry.signature.inputNames := by
  obtain ⟨rfl, i, hmem⟩ := mem_incoming he
  obtain ⟨source, hsource, hnext⟩ := mem_edges hmem
  obtain ⟨called, hcalled⟩ := h.valid.functions hsource
  obtain ⟨target, entry', hcalls', haccepts⟩ := (h.valid.edges hcalled e.2 hnext).2
  cases (hcalls.unique hcalls').2
  exact h.mem_inputNames hcalls haccepts

/-- There are ranks below the number of nodes that grow along the edges. -/
theorem exists_rank (h : p.FeedForward c) :
    ∃ rank : String → Nat, (∀ id ∈ p.ids, rank id < p.size) ∧
      ∀ {id node}, p.node? id = some node → ∀ e ∈ p.incoming id, rank e.1 < rank id := by
  obtain ⟨rank, hbound, hrank⟩ := Program.exists_rank h.acyclic
  refine ⟨rank, hbound, fun {id node} hnode e he => ?_⟩
  obtain ⟨rfl, i, hmem⟩ := mem_incoming he
  refine hrank (e.1, e.2.target) (List.mem_filterMap.2 ⟨_, hmem, ?_⟩)
  have hnone : ∀ (id : String) (f : Signature → Bool),
      (∀ s : Signature, s.callbacks = .empty → f s = false) →
      ((Validation.signatureOf? p c id).any fun found => f found.2) = false := by
    intro id f hf
    cases hfound : Validation.signatureOf? p c id with
    | none => rfl
    | some found =>
      obtain ⟨function, signature⟩ := found
      obtain ⟨node, entry, hcalls, rfl⟩ := Validation.signatureOf?_eq_some hfound
      exact hf _ (h.plain hcalls)
  have hdata : Cycle.isDataEdge p c e.1 e.2 = true := by
    show (!((Validation.signatureOf? p c e.1).any fun found =>
        found.2.hasCallbackInput e.2.fromKey) &&
      !((Validation.signatureOf? p c e.2.target).any fun found =>
        found.2.hasCallbackOutput e.2.toKey) && (p.node? e.2.target).isSome) = true
    rw [hnone e.1 _ fun _ hs => Signature.hasCallbackInput_of_plain hs _,
      hnone e.2.target _ fun _ hs => Signature.hasCallbackOutput_of_plain hs _, hnode]
    rfl
  exact if_pos hdata

end FeedForward

/-- With enough fuel for its rank, the value of a node does not depend on the fuel. -/
theorem evalWithin_stable {F : String → Record Json → Outputs} {rank : String → Nat}
    (hrank : ∀ {id node}, p.node? id = some node → ∀ e ∈ p.incoming id, rank e.1 < rank id)
    {fuel fuel' : Nat} {id : String} (h : rank id < fuel) (h' : rank id < fuel') :
    p.evalWithin c F inputs fuel id = p.evalWithin c F inputs fuel' id := by
  induction fuel generalizing fuel' id with
  | zero => omega
  | succ fuel ih =>
    obtain ⟨fuel', rfl⟩ : ∃ k, fuel' = k + 1 := ⟨fuel' - 1, by omega⟩
    rw [evalWithin, evalWithin]
    cases hnode : p.node? id with
    | none => rfl
    | some node =>
      -- The sources have lower ranks, so the smaller fuel is enough for them.
      have hsources : ∀ e ∈ p.incoming id,
          p.evalWithin c F inputs fuel e.1 = p.evalWithin c F inputs fuel' e.1 := by
        intro e he
        have hlt := hrank hnode e he
        exact ih (by omega) (by omega)
      have hargs : ∀ signature,
          p.argumentsOf inputs (p.evalWithin c F inputs fuel) id node signature =
          p.argumentsOf inputs (p.evalWithin c F inputs fuel') id node signature :=
        fun signature => argumentsOf_congr node signature hsources
      simp only [Option.bind_eq_bind, Option.bind_some, hargs]

/-- **What a node gives is what its function gives for the values of its sources.** -/
theorem eval_eq (h : p.FeedForward c) (F : String → Record Json → Outputs) {id : String}
    {node : Node} {entry : Entry} (hcalls : p.Calls c id node entry) :
    p.eval c F inputs id =
      (p.argumentsOf inputs (p.eval c F inputs) id node entry.signature).map (F node.function) := by
  obtain ⟨rank, hbound, hrank⟩ := h.exists_rank
  have hid := hbound id (Table.mem_names.2 ⟨node, hcalls.node_eq⟩)
  obtain ⟨size, hsize⟩ : ∃ k, p.size = k + 1 := ⟨p.size - 1, by omega⟩
  have hsources : ∀ e ∈ p.incoming id,
      p.evalWithin c F inputs size e.1 = p.eval c F inputs e.1 := by
    intro e he
    have hlt := hrank hcalls.node_eq e he
    exact evalWithin_stable hrank (by omega) (by omega)
  have hargs : p.argumentsOf inputs (p.evalWithin c F inputs size) id node entry.signature =
      p.argumentsOf inputs (p.eval c F inputs) id node entry.signature :=
    argumentsOf_congr node entry.signature hsources
  rw [eval, hsize, evalWithin, hcalls.node_eq]
  simp only [Option.bind_eq_bind, Option.bind_some, hcalls.entry_eq, hargs]
  cases p.argumentsOf inputs (p.eval c F inputs) id node entry.signature <;> rfl

end Program

end Dataflow
