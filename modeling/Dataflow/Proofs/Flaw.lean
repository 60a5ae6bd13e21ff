/-
What is wrong with a program, and where.

The places of a program at which something can be wrong are its fields: the names of functions, the
ids and keys of bindings and edges, the keys of defaults, and a node as a whole. A flaw is a place
together with what is wrong there, said without regard to how programs are checked. Each check finds
flaws and nothing else, and no flaw is missed. So a program without diagnostics is valid.

* `Signature.Takes`, `Signature.Gives` — the keys at which something can arrive or leave;
* `Program.Supplied` — the keys of nodes to which something is brought;
* `Place`, `Place.path` — the fields of a program and their paths;
* `Flaw` — what is wrong at a place, and what is written there;
* `Program.exists_flaw`, `Program.mem_of_flaw` — diagnostics and flaws;
* `Program.valid_of_validate` — no diagnostics, no dangling names.
-/
import Mathlib
import Dataflow.Program.Wire
import Dataflow.Proofs.Validation
namespace Dataflow

/-! ### Flaws -/

namespace Signature

variable {s : Signature} {key : String}

/-- Something can arrive at the key: an input of the function, or what a callback gives back. -/
def Takes (s : Signature) (key : String) : Prop :=
  key ∈ s.inputNames ∨ ∃ name callback, s.callbacks.get? name = some callback ∧
    key ∈ Param.names callback.output

/-- Something can leave from the key: an output of the function, or what it hands to a callback. -/
def Gives (s : Signature) (key : String) : Prop :=
  key ∈ s.outputNames ∨ ∃ name callback, s.callbacks.get? name = some callback ∧
    key ∈ Param.names callback.input

private theorem accepts_iff : s.accepts key = true ↔ s.Takes key := by
  rw [accepts, Bool.or_eq_true, hasCallbackOutput_iff, hasInput, List.contains_iff_mem, Takes]

private theorem provides_iff : s.provides key = true ↔ s.Gives key := by
  rw [provides, Bool.or_eq_true, hasCallbackInput_iff, hasOutput, List.contains_iff_mem, Gives]

end Signature

namespace Program

variable {p : Program} {c : Catalog} {id key : String} {node : Node}

/-- A binding, an edge or a default brings something to a key of a node. -/
def Supplied (p : Program) (id key : String) : Prop :=
  (∃ b ∈ p.input, b.address = ⟨id, key⟩) ∨
    (∃ source node, p.node? source = some node ∧
      ∃ edge ∈ node.next, edge.target = id ∧ edge.toKey = key) ∨
    ∃ node value, p.node? id = some node ∧ node.defaults.get? key = some value

theorem isSupplied_iff : Validation.isSupplied p id key = true ↔
    (∃ b ∈ p.input, b.address = ⟨id, key⟩) ∨ ∃ source node, p.node? source = some node ∧
      ∃ edge ∈ node.next, edge.target = id ∧ edge.toKey = key := by
  simp only [Validation.isSupplied, Bool.or_eq_true, List.any_eq_true, Bool.and_eq_true,
    decide_eq_true_eq, Prod.exists, Table.mem_entries, node?]
  refine or_congr (exists_congr fun b => and_congr_right fun _ => ?_) Iff.rfl
  exact ⟨fun ⟨hid, hkey⟩ => by rw [← hid, ← hkey], fun h => by rw [h]; exact ⟨rfl, rfl⟩⟩

theorem supplied_iff (hnode : p.node? id = some node) : p.Supplied id key ↔
    node.defaults.contains key = true ∨ Validation.isSupplied p id key = true := by
  rw [isSupplied_iff, Record.contains_eq_true, Supplied, ← or_assoc, or_comm, hnode]
  simp

end Program

/-- A field of a program that is looked at. -/
inductive Place where
  | function (id : String)
  | inputNode (index : Nat)
  | inputKey (index : Nat)
  | outputNode (index : Nat)
  | outputKey (index : Nat)
  | default (id key : String)
  | fromKey (id : String) (index : Nat)
  | target (id : String) (index : Nat)
  | toKey (id : String) (index : Nat)
  | node (id : String)

/-- The names and numbers that lead to a place. -/
def Place.path : Place → List String
  | .function id => ["data", id, "functionName"]
  | .inputNode index => ["input", toString index, "mapKey", "id"]
  | .inputKey index => ["input", toString index, "mapKey", "key"]
  | .outputNode index => ["output", toString index, "mapKey", "id"]
  | .outputKey index => ["output", toString index, "mapKey", "key"]
  | .default id key => ["data", id, "defaultValues", key]
  | .fromKey id index => ["data", id, "next", toString index, "fromKey"]
  | .target id index => ["data", id, "next", toString index, "id"]
  | .toKey id index => ["data", id, "next", toString index, "toKey"]
  | .node id => ["data", id]

theorem Place.path_injective : Function.Injective Place.path := by
  intro a b h
  cases a <;> cases b <;> simp_all [path, Nat.repr_inj]

/-- What is wrong at a place of a program, and what is written there. -/
inductive Flaw (p : Program) (c : Catalog) : Place → Defect → Json → Prop where
  | function {id : String} {node : Node} : p.node? id = some node → c.get? node.function = none →
    Flaw p c (.function id) (.unknownFunction node.function) (.string node.function)
  | inputNode {i : Nat} {b : Binding} : p.input[i]? = some b → p.node? b.address.id = none →
    Flaw p c (.inputNode i) (.unknownNode b.address.id) (.string b.address.id)
  | inputKey {i : Nat} {b : Binding} {node : Node} {entry : Entry} : p.input[i]? = some b →
    p.Calls c b.address.id node entry → ¬ entry.signature.Takes b.address.key →
    Flaw p c (.inputKey i)
      (.unknownInputKey b.address.key node.function entry.signature.inputNames)
      (.string b.address.key)
  | outputNode {i : Nat} {b : Binding} : p.output[i]? = some b → p.node? b.address.id = none →
    Flaw p c (.outputNode i) (.unknownNode b.address.id) (.string b.address.id)
  | outputKey {i : Nat} {b : Binding} {node : Node} {entry : Entry} : p.output[i]? = some b →
    p.Calls c b.address.id node entry → ¬ entry.signature.Gives b.address.key →
    Flaw p c (.outputKey i)
      (.unknownOutputKey b.address.key node.function entry.signature.outputNames)
      (.string b.address.key)
  | default {id key : String} {node : Node} {entry : Entry} {value : Json} :
    p.Calls c id node entry → node.defaults.get? key = some value →
    ¬ entry.signature.Takes key →
    Flaw p c (.default id key)
      (.unknownInputKey key node.function entry.signature.inputNames) value
  | fromKey {id : String} {i : Nat} {edge : Edge} {node : Node} {entry : Entry} :
    p.Calls c id node entry → node.next[i]? = some edge →
    ¬ entry.signature.Gives edge.fromKey →
    Flaw p c (.fromKey id i)
      (.unknownOutputKey edge.fromKey node.function entry.signature.outputNames)
      (.string edge.fromKey)
  | target {id : String} {i : Nat} {edge : Edge} {node : Node} : p.node? id = some node →
    node.next[i]? = some edge → p.node? edge.target = none →
    Flaw p c (.target id i) (.unknownNode edge.target) (.string edge.target)
  | toKey {id : String} {i : Nat} {edge : Edge} {node target : Node} {called : Entry} :
    p.node? id = some node → node.next[i]? = some edge →
    p.Calls c edge.target target called → ¬ called.signature.Takes edge.toKey →
    Flaw p c (.toKey id i)
      (.unknownInputKey edge.toKey target.function called.signature.inputNames)
      (.string edge.toKey)
  /-- The keys are all declared inputs to which nothing is brought, in declared order. -/
  | node {id : String} {node : Node} {entry : Entry} {lacking : String → Bool} :
    p.Calls c id node entry → (∀ key, lacking key = true ↔ ¬ p.Supplied id key) →
    entry.signature.inputNames.filter lacking ≠ [] →
    Flaw p c (.node id)
      (.missingInputs node.function (entry.signature.inputNames.filter lacking))
      (node.written .object)

variable {p : Program} {c : Catalog}

/-! ### What the checks report -/

namespace Validation

variable {d : Diagnostic} {id function key side : String} {signature : Signature}
  {path : List String} {node : Node} {entry : Entry}

private theorem mem_checkInputKey : d ∈ checkInputKey function signature key path ↔
    ¬ signature.Takes key ∧ d = ⟨.unknownInputKey key function signature.inputNames, path⟩ := by
  rw [checkInputKey, ← Signature.accepts_iff]
  split <;> simp [*]

private theorem mem_checkOutputKey : d ∈ checkOutputKey function signature key path ↔
    ¬ signature.Gives key ∧ d = ⟨.unknownOutputKey key function signature.outputNames, path⟩ := by
  rw [checkOutputKey, ← Signature.provides_iff]
  split <;> simp [*]

/-- Where all functions are known, a node that exists has a signature. -/
theorem signatureOf?_cases (hknown : p.Known c) (id : String) :
    (p.node? id = none ∧ signatureOf? p c id = none) ∨ ∃ node entry, p.Calls c id node entry ∧
      signatureOf? p c id = some (node.function, entry.signature) := by
  cases hnode : p.node? id with
  | none => exact .inl ⟨rfl, by rw [signatureOf?, hnode]; rfl⟩
  | some node =>
    obtain ⟨entry, hcalls⟩ := hknown id node hnode
    exact .inr ⟨node, entry, hcalls, signatureOf?_of_calls hcalls⟩

/-- What is found at the node to which an id refers, or the id itself if there is none. -/
theorem mem_referred (hknown : p.Known c) {report : List Diagnostic}
    {check : String → Signature → List Diagnostic} :
    (d ∈ match signatureOf? p c id with
      | none => report
      | some (function, signature) => check function signature) ↔
      (p.node? id = none ∧ d ∈ report) ∨
        ∃ node entry, p.Calls c id node entry ∧ d ∈ check node.function entry.signature := by
  rcases signatureOf?_cases hknown id with ⟨hnone, hfound⟩ | ⟨node, entry, hcalls, hfound⟩
  · have hno : ∀ node entry, ¬ p.Calls c id node entry :=
      fun node entry hcalls => by cases hnone.symm.trans hcalls.node_eq
    simp [hfound, hnone, hno]
  · have hone : ∀ node' entry', p.Calls c id node' entry' ↔ node' = node ∧ entry' = entry :=
      fun node' entry' => ⟨fun h => h.unique hcalls, fun ⟨h, h'⟩ => h ▸ h' ▸ hcalls⟩
    simp [hfound, hcalls.node_eq, hone]

private theorem mem_checkBinding (hknown : p.Known c) {b : Binding} {i : Nat}
    {check : String → Signature → String → List String → List Diagnostic} :
    d ∈ checkBinding p c side check b i ↔
      (p.node? b.address.id = none ∧
        d ∈ [⟨.unknownNode b.address.id, [side, toString i, "mapKey", "id"]⟩]) ∨
      ∃ node entry, p.Calls c b.address.id node entry ∧
        d ∈ check node.function entry.signature b.address.key
          [side, toString i, "mapKey", "key"] :=
  mem_referred hknown

private theorem mem_checkEdge (hknown : p.Known c) {edge : Edge} {i : Nat} :
    d ∈ checkEdge p c id function signature edge i ↔
      d ∈ checkOutputKey function signature edge.fromKey
        ["data", id, "next", toString i, "fromKey"] ∨
      (p.node? edge.target = none ∧
        d ∈ [⟨.unknownNode edge.target, ["data", id, "next", toString i, "id"]⟩]) ∨
      ∃ target called, p.Calls c edge.target target called ∧
        d ∈ checkInputKey target.function called.signature edge.toKey
          ["data", id, "next", toString i, "toKey"] :=
  List.mem_append.trans (or_congr_right (mem_referred hknown))

private theorem mem_zipIdx {α : Type} {items : List α} {check : α × Nat → List Diagnostic} :
    d ∈ items.zipIdx.flatMap check ↔
      ∃ item i, items[i]? = some item ∧ d ∈ check (item, i) := by
  simp only [List.mem_flatMap, Prod.exists, List.mk_mem_zipIdx_iff_getElem?]

/-- What is found at the nodes, if nothing is found at a node with an unknown function. -/
theorem mem_nodes (c : Catalog) {report : String × Node → List Diagnostic}
    (hunknown : ∀ id node, c.signature? node.function = none → report (id, node) = []) :
    d ∈ p.nodes.entries.flatMap report ↔
      ∃ id node entry, p.Calls c id node entry ∧ d ∈ report (id, node) := by
  simp only [List.mem_flatMap, Prod.exists, Table.mem_entries]
  refine exists_congr fun id => exists_congr fun node => ?_
  constructor
  · rintro ⟨hnode, hd⟩
    cases hentry : c.get? node.function with
    | none => simp [hunknown id node (by rw [Catalog.signature?, hentry]; rfl)] at hd
    | some entry => exact ⟨entry, ⟨hnode, hentry⟩, hd⟩
  · rintro ⟨entry, hcalls, hd⟩
    exact ⟨hcalls.node_eq, hd⟩

private theorem mem_checkNodes : d ∈ checkNodes p c ↔ ∃ id node entry, p.Calls c id node entry ∧
    ((∃ key value, node.defaults.get? key = some value ∧
      d ∈ checkInputKey node.function entry.signature key ["data", id, "defaultValues", key]) ∨
    ∃ edge i, node.next[i]? = some edge ∧
      d ∈ checkEdge p c id node.function entry.signature edge i) := by
  rw [checkNodes, mem_nodes c fun id node h => by simp only [h]]
  refine exists_congr fun id => exists_congr fun node => exists_congr fun entry =>
    and_congr_right fun hcalls => ?_
  simp only [hcalls.signature?_eq]
  rw [List.mem_append, mem_zipIdx, List.mem_flatMap]
  simp only [Record.mem_names, Record.contains_eq_true, exists_and_right]

private theorem mem_checkCompleteness : d ∈ checkCompleteness p c ↔
    ∃ id node entry, p.Calls c id node entry ∧ missingInputs p id node entry.signature ≠ [] ∧
      d = ⟨.missingInputs node.function (missingInputs p id node entry.signature),
        ["data", id]⟩ := by
  rw [checkCompleteness, mem_nodes c fun id node h => by simp only [h]]
  refine exists_congr fun id => exists_congr fun node => exists_congr fun entry =>
    and_congr_right fun hcalls => ?_
  simp [hcalls.signature?_eq]

/-- The inputs that are missing are those to which nothing is brought. -/
theorem lacking_iff (hnode : p.node? id = some node) :
    (!node.defaults.contains key && !isSupplied p id key) = true ↔ ¬ p.Supplied id key := by
  rw [Program.supplied_iff hnode, Bool.and_eq_true, not_or, Bool.not_eq_true', Bool.not_eq_true',
    Bool.not_eq_true, Bool.not_eq_true]

theorem checkFunctions_eq (p : Program) (c : Catalog) : checkFunctions p c =
    (p.nodes.entries.filter fun e => (c.get? e.2.function).isNone).map fun e =>
      ⟨.unknownFunction e.2.function, (Place.function e.1).path⟩ := by
  rw [checkFunctions]
  induction p.nodes.entries with
  | nil => rfl
  | cons e rest ih =>
    rw [List.flatMap_cons, ih, List.filter_cons]
    show (if (c.get? e.2.function).isSome then _ else _) ++ _ = _
    cases c.get? e.2.function <;> rfl

private theorem checkFunctions_eq_nil : checkFunctions p c = [] ↔ p.Known c := by
  rw [checkFunctions_eq, List.map_eq_nil_iff, List.filter_eq_nil_iff, Prod.forall]
  refine forall₂_congr fun id node => ?_
  rw [Table.mem_entries]
  refine forall_congr' fun hnode => ?_
  rw [Option.isNone_iff_eq_none, Option.eq_none_iff_forall_ne_some, not_forall_not]
  exact exists_congr fun entry => ⟨fun hentry => ⟨hnode, hentry⟩, Program.Calls.entry_eq⟩

end Validation

namespace Program

open Validation

theorem validate_of_known (h : p.Known c) :
    p.validate c = checkBindings p c ++ checkNodes p c ++ checkCompleteness p c := by
  rw [validate, checkFunctions_eq_nil.2 h]
  rfl

theorem validate_of_not_known (h : ¬ p.Known c) : p.validate c = checkFunctions p c := by
  rw [← checkFunctions_eq_nil, ← List.isEmpty_iff] at h
  rw [validate]
  exact if_neg h

/-- Every diagnostic tells what is wrong at some place. -/
theorem flaw_of_mem (hknown : p.Known c) {d : Diagnostic} (hd : d ∈ p.validate c) :
    ∃ place field, Flaw p c place d.defect field ∧ d.path = place.path := by
  rw [validate_of_known hknown, checkBindings, List.mem_append, List.mem_append, List.mem_append,
    mem_zipIdx, mem_zipIdx, mem_checkNodes, mem_checkCompleteness] at hd
  -- One case for each check: inputs, outputs, nodes and their completeness.
  rcases hd with ((⟨b, i, hb, hd⟩ | ⟨b, i, hb, hd⟩) | ⟨id, node, entry, hcalls, hd⟩) |
    ⟨id, node, entry, hcalls, hmissing, rfl⟩
  · rcases (mem_checkBinding hknown).1 hd with ⟨hnone, hd⟩ | ⟨node, entry, hcalls, hd⟩
    · cases List.mem_singleton.1 hd
      exact ⟨_, _, .inputNode hb hnone, rfl⟩
    · obtain ⟨hkey, rfl⟩ := mem_checkInputKey.1 hd
      exact ⟨_, _, .inputKey hb hcalls hkey, rfl⟩
  · rcases (mem_checkBinding hknown).1 hd with ⟨hnone, hd⟩ | ⟨node, entry, hcalls, hd⟩
    · cases List.mem_singleton.1 hd
      exact ⟨_, _, .outputNode hb hnone, rfl⟩
    · obtain ⟨hkey, rfl⟩ := mem_checkOutputKey.1 hd
      exact ⟨_, _, .outputKey hb hcalls hkey, rfl⟩
  · rcases hd with ⟨key, value, hvalue, hd⟩ | ⟨edge, i, hedge, hd⟩
    · obtain ⟨hkey, rfl⟩ := mem_checkInputKey.1 hd
      exact ⟨_, _, .default hcalls hvalue hkey, rfl⟩
    · rcases (mem_checkEdge hknown).1 hd with hd | ⟨hnone, hd⟩ | ⟨target, called, hcalled, hd⟩
      · obtain ⟨hkey, rfl⟩ := mem_checkOutputKey.1 hd
        exact ⟨_, _, .fromKey hcalls hedge hkey, rfl⟩
      · cases List.mem_singleton.1 hd
        exact ⟨_, _, .target hcalls.node_eq hedge hnone, rfl⟩
      · obtain ⟨hkey, rfl⟩ := mem_checkInputKey.1 hd
        exact ⟨_, _, .toKey hcalls.node_eq hedge hcalled hkey, rfl⟩
  · exact ⟨_, _, .node hcalls (fun key => lacking_iff hcalls.node_eq) hmissing, rfl⟩

/-- Nothing that is wrong is missed. -/
theorem mem_of_flaw (hknown : p.Known c) {place : Place} {defect : Defect} {field : Json}
    (h : Flaw p c place defect field) : ⟨defect, place.path⟩ ∈ p.validate c := by
  rw [validate_of_known hknown, checkBindings, List.mem_append, List.mem_append, List.mem_append,
    mem_zipIdx, mem_zipIdx, mem_checkNodes, mem_checkCompleteness]
  cases h with
  | function hnode hnone =>
    obtain ⟨entry, hcalls⟩ := hknown _ _ hnode
    cases hnone.symm.trans hcalls.entry_eq
  | inputNode hb hnone =>
    exact .inl (.inl (.inl ⟨_, _, hb, (mem_checkBinding hknown).2
      (.inl ⟨hnone, List.mem_singleton.2 rfl⟩)⟩))
  | inputKey hb hcalls hkey =>
    exact .inl (.inl (.inl ⟨_, _, hb, (mem_checkBinding hknown).2
      (.inr ⟨_, _, hcalls, mem_checkInputKey.2 ⟨hkey, rfl⟩⟩)⟩))
  | outputNode hb hnone =>
    exact .inl (.inl (.inr ⟨_, _, hb, (mem_checkBinding hknown).2
      (.inl ⟨hnone, List.mem_singleton.2 rfl⟩)⟩))
  | outputKey hb hcalls hkey =>
    exact .inl (.inl (.inr ⟨_, _, hb, (mem_checkBinding hknown).2
      (.inr ⟨_, _, hcalls, mem_checkOutputKey.2 ⟨hkey, rfl⟩⟩)⟩))
  | default hcalls hvalue hkey =>
    exact .inl (.inr ⟨_, _, _, hcalls, .inl ⟨_, _, hvalue, mem_checkInputKey.2 ⟨hkey, rfl⟩⟩⟩)
  | fromKey hcalls hedge hkey =>
    exact .inl (.inr ⟨_, _, _, hcalls, .inr ⟨_, _, hedge, (mem_checkEdge hknown).2
      (.inl (mem_checkOutputKey.2 ⟨hkey, rfl⟩))⟩⟩)
  | target hnode hedge hnone =>
    obtain ⟨entry, hcalls⟩ := hknown _ _ hnode
    exact .inl (.inr ⟨_, _, _, hcalls, .inr ⟨_, _, hedge, (mem_checkEdge hknown).2
      (.inr (.inl ⟨hnone, List.mem_singleton.2 rfl⟩))⟩⟩)
  | toKey hnode hedge hcalled hkey =>
    obtain ⟨entry, hcalls⟩ := hknown _ _ hnode
    exact .inl (.inr ⟨_, _, _, hcalls, .inr ⟨_, _, hedge, (mem_checkEdge hknown).2
      (.inr (.inr ⟨_, _, hcalled, mem_checkInputKey.2 ⟨hkey, rfl⟩⟩))⟩⟩)
  | @node id node entry lacking hcalls hlacking hmissing =>
    have hkeys : missingInputs p id node entry.signature =
        entry.signature.inputNames.filter lacking :=
      List.filter_congr fun key _ => Bool.eq_iff_iff.2
        ((lacking_iff hcalls.node_eq).trans (hlacking key).symm)
    exact .inr ⟨_, _, _, hcalls, hkeys ▸ hmissing, by rw [hkeys]; rfl⟩

/-- **Every diagnostic is a flaw.** -/
theorem exists_flaw {d : Diagnostic} (hd : d ∈ p.validate c) :
    ∃ place field, Flaw p c place d.defect field ∧ d.path = place.path := by
  by_cases hknown : p.Known c
  · exact flaw_of_mem hknown hd
  · rw [validate_of_not_known hknown, checkFunctions_eq] at hd
    obtain ⟨⟨id, node⟩, he, rfl⟩ := List.mem_map.1 hd
    obtain ⟨hnode, hnone⟩ := List.mem_filter.1 he
    exact ⟨_, _, .function (Table.mem_entries.1 hnode) (Option.isNone_iff_eq_none.1 hnone), rfl⟩

/-! ### Programs without diagnostics -/

theorem known_of_validate (h : p.validate c = []) : p.Known c := by
  by_contra hknown
  rw [validate_of_not_known hknown] at h
  exact hknown (checkFunctions_eq_nil.1 h)

theorem not_flaw_of_validate (h : p.validate c = []) {place : Place} {defect : Defect}
    {field : Json} : ¬ Flaw p c place defect field := by
  intro hflaw
  have hmem := mem_of_flaw (known_of_validate h) hflaw
  rw [h] at hmem
  cases hmem

theorem Known.exists_calls (h : p.Known c) {id : String} (hid : p.node? id ≠ none) :
    ∃ node entry, p.Calls c id node entry := by
  obtain ⟨node, hnode⟩ := Option.ne_none_iff_exists'.1 hid
  exact ⟨node, h id node hnode⟩

/-- **A program without diagnostics is valid.** -/
theorem valid_of_validate (h : p.validate c = []) : p.Valid c := by
  have hknown := known_of_validate h
  refine ⟨fun hnode => hknown _ _ hnode, fun b hb => ?_,
    fun {id node entry} hcalls edge hedge => ?_⟩
  · obtain ⟨i, hi⟩ := List.getElem?_of_mem hb
    obtain ⟨node, entry, hcalls⟩ := hknown.exists_calls fun hnone =>
      not_flaw_of_validate h (.inputNode hi hnone)
    refine ⟨node, entry, hcalls, Signature.accepts_iff.2 ?_⟩
    by_contra hkey
    exact not_flaw_of_validate h (.inputKey hi hcalls hkey)
  · obtain ⟨i, hi⟩ := List.getElem?_of_mem hedge
    obtain ⟨target, called, hcalled⟩ := hknown.exists_calls fun hnone =>
      not_flaw_of_validate h (.target hcalls.node_eq hi hnone)
    refine ⟨Signature.provides_iff.2 ?_, target, called, hcalled, Signature.accepts_iff.2 ?_⟩
    · by_contra hkey
      exact not_flaw_of_validate h (.fromKey hcalls hi hkey)
    · by_contra hkey
      exact not_flaw_of_validate h (.toKey hcalls.node_eq hi hcalled hkey)

/-- The outputs of a program without diagnostics are read where something is given. -/
theorem outputs_of_validate (h : p.validate c = []) {b : Binding} (hb : b ∈ p.output) :
    ∃ node entry, p.Calls c b.address.id node entry ∧
      entry.signature.provides b.address.key = true := by
  obtain ⟨i, hi⟩ := List.getElem?_of_mem hb
  obtain ⟨node, entry, hcalls⟩ := (known_of_validate h).exists_calls fun hnone =>
    not_flaw_of_validate h (.outputNode hi hnone)
  refine ⟨node, entry, hcalls, Signature.provides_iff.2 ?_⟩
  by_contra hkey
  exact not_flaw_of_validate h (.outputKey hi hcalls hkey)

end Program

end Dataflow
