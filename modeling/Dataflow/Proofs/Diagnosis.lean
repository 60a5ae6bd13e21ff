/-
The diagnostics of a program, one by one.

A check of a program looks at each of its places once, in a fixed order, and reports what is wrong
there. The path of a diagnostic says where to look: followed through the written form of the
program, it leads to the offending field.

* `Json.follow?` — the part of a value to which a path leads;
* `Flaw.follow?` — the path of a place leads to what is written there;
* `Program.places`, `Place.Covers` — one diagnostic at most for each place;
* `Program.validate_exact` — the diagnostics of a program are its flaws.
-/
import Mathlib
import Dataflow.Proofs.Flaw
namespace Dataflow

variable {p : Program} {c : Catalog}

/-- **One thing at most is wrong at a place.** -/
theorem Flaw.unique {place : Place} {defect defect' : Defect} {field field' : Json}
    (h : Flaw p c place defect field) (h' : Flaw p c place defect' field') :
    defect = defect' ∧ field = field' := by
  cases h with
  | function hnode _ =>
    cases h' with
    | function hnode' _ =>
      cases hnode.symm.trans hnode'
      exact ⟨rfl, rfl⟩
  | inputNode hb _ =>
    cases h' with
    | inputNode hb' _ =>
      cases hb.symm.trans hb'
      exact ⟨rfl, rfl⟩
  | inputKey hb hcalls _ =>
    cases h' with
    | inputKey hb' hcalls' _ =>
      cases hb.symm.trans hb'
      obtain ⟨rfl, rfl⟩ := hcalls.unique hcalls'
      exact ⟨rfl, rfl⟩
  | outputNode hb _ =>
    cases h' with
    | outputNode hb' _ =>
      cases hb.symm.trans hb'
      exact ⟨rfl, rfl⟩
  | outputKey hb hcalls _ =>
    cases h' with
    | outputKey hb' hcalls' _ =>
      cases hb.symm.trans hb'
      obtain ⟨rfl, rfl⟩ := hcalls.unique hcalls'
      exact ⟨rfl, rfl⟩
  | default hcalls hvalue _ =>
    cases h' with
    | default hcalls' hvalue' _ =>
      obtain ⟨rfl, rfl⟩ := hcalls.unique hcalls'
      cases hvalue.symm.trans hvalue'
      exact ⟨rfl, rfl⟩
  | fromKey hcalls hedge _ =>
    cases h' with
    | fromKey hcalls' hedge' _ =>
      obtain ⟨rfl, rfl⟩ := hcalls.unique hcalls'
      cases hedge.symm.trans hedge'
      exact ⟨rfl, rfl⟩
  | target hnode hedge _ =>
    cases h' with
    | target hnode' hedge' _ =>
      cases hnode.symm.trans hnode'
      cases hedge.symm.trans hedge'
      exact ⟨rfl, rfl⟩
  | toKey hnode hedge hcalls _ =>
    cases h' with
    | toKey hnode' hedge' hcalls' _ =>
      cases hnode.symm.trans hnode'
      cases hedge.symm.trans hedge'
      obtain ⟨rfl, rfl⟩ := hcalls.unique hcalls'
      exact ⟨rfl, rfl⟩
  | node hcalls hlacking _ =>
    cases h' with
    | node hcalls' hlacking' _ =>
      obtain ⟨rfl, rfl⟩ := hcalls.unique hcalls'
      obtain rfl := funext fun key => Bool.eq_iff_iff.2 ((hlacking key).trans (hlacking' key).symm)
      exact ⟨rfl, rfl⟩

/-! ### Places in the written program -/

namespace Json

/-- The member under a name, or the item with a number. -/
def child? : Json → String → Option Json
  | .object members, name => Entries.lookup name members
  | .array items, place => place.toNat?.bind fun i => items[i]?
  | _, _ => none

/-- The part of a value to which a path leads. -/
def follow? (json : Json) : List String → Option Json
  | [] => some json
  | part :: rest => (json.child? part).bind fun child => child.follow? rest

private theorem follow?_cons {json child : Json} {part : String} (h : json.child? part = some child)
    (rest : List String) : json.follow? (part :: rest) = child.follow? rest := by
  rw [follow?, h, Option.bind_some]

private theorem child?_array {α : Type} {items : List α} {i : Nat} {item : α}
    (h : items[i]? = some item)
    (f : α → Json) : (Json.array (items.map f)).child? (toString i) = some (f item) := by
  rw [child?, Nat.toString_eq_repr, Nat.toNat?_repr, Option.bind_some, List.getElem?_map, h]
  rfl

end Json

namespace Program

private theorem follow?_input {i : Nat} {b : Binding} (h : p.input[i]? = some b)
    (rest : List String) :
    p.toJson.follow? ("input" :: toString i :: "mapKey" :: rest) =
      (b.address.written .object).follow? rest := by
  have hinput : p.toJson.child? "input" = some (.array (p.input.map (Binding.written .object))) :=
    rfl
  rw [Json.follow?_cons hinput, Json.follow?_cons (Json.child?_array h _)]
  exact Json.follow?_cons rfl rest

private theorem follow?_output {i : Nat} {b : Binding} (h : p.output[i]? = some b)
    (rest : List String) :
    p.toJson.follow? ("output" :: toString i :: "mapKey" :: rest) =
      (b.address.written .object).follow? rest := by
  have houtput : p.toJson.child? "output" =
      some (.array (p.output.map (Binding.written .object))) := rfl
  rw [Json.follow?_cons houtput, Json.follow?_cons (Json.child?_array h _)]
  exact Json.follow?_cons rfl rest

private theorem follow?_node {id : String} {node : Node} (h : p.node? id = some node)
    (rest : List String) :
    p.toJson.follow? ("data" :: id :: rest) = (node.written .object).follow? rest := by
  refine (Json.follow?_cons rfl _).trans (Json.follow?_cons ?_ rest)
  exact (Entries.lookup_map (fun _ node => Node.written .object node) id p.nodes.entries).trans
    (congrArg (Option.map _) h)

private theorem follow?_edge {id : String} {node : Node} {i : Nat} {edge : Edge}
    (hnode : p.node? id = some node) (hedge : node.next[i]? = some edge) (rest : List String) :
    p.toJson.follow? ("data" :: id :: "next" :: toString i :: rest) =
      (edge.written .object).follow? rest := by
  rw [follow?_node hnode]
  exact (Json.follow?_cons rfl _).trans (Json.follow?_cons (Json.child?_array hedge _) rest)

private theorem follow?_default {id key : String} {node : Node} {value : Json}
    (hnode : p.node? id = some node) (hvalue : node.defaults.get? key = some value) :
    p.toJson.follow? ["data", id, "defaultValues", key] = some value := by
  -- A node without defaults leaves the member out, but this one has a default.
  have hdefaults : Node.defaultsMember node.defaults =
      [("defaultValues", .ofRecord node.defaults)] := by
    refine if_neg fun hempty => ?_
    rw [Record.isEmpty_iff.1 hempty] at hvalue
    cases hvalue
  have hchild : (Json.ofRecord node.defaults).child? key = some value := hvalue
  rw [follow?_node hnode, Node.written, hdefaults]
  exact (Json.follow?_cons rfl _).trans (Json.follow?_cons hchild [])

end Program

/-- **The path of a place leads to what is written there.** -/
theorem Flaw.follow? {place : Place} {defect : Defect} {field : Json}
    (h : Flaw p c place defect field) : p.toJson.follow? place.path = some field := by
  cases h with
  | function hnode _ => exact Program.follow?_node hnode _
  | inputNode hb _ | inputKey hb _ _ => exact Program.follow?_input hb _
  | outputNode hb _ | outputKey hb _ _ => exact Program.follow?_output hb _
  | default hcalls hvalue _ => exact Program.follow?_default hcalls.node_eq hvalue
  | fromKey hcalls hedge _ => exact Program.follow?_edge hcalls.node_eq hedge _
  | target hnode hedge _ | toKey hnode hedge _ _ => exact Program.follow?_edge hnode hedge _
  | node hcalls _ _ => exact Program.follow?_node hcalls.node_eq []

/-! ### One diagnostic a place -/

/-- The turn at which a check looks at a place, and the binding or node where it does. -/
def Place.turn : Place → Nat × String
  | .function id => (0, id)
  | .inputNode index | .inputKey index => (1, toString index)
  | .outputNode index | .outputKey index => (2, toString index)
  | .default id _ | .fromKey id _ | .target id _ | .toKey id _ => (3, id)
  | .node id => (4, id)

/-- The defaults and edges of a node at which a check looks, in order. -/
def Node.places (node : Node) (id : String) : List Place :=
  node.defaults.names.map (.default id) ++
    node.next.zipIdx.flatMap fun e => [.fromKey id e.2, .target id e.2, .toKey id e.2]

/-- The fields of a program at which a check looks, in order. -/
def Program.places (p : Program) : List Place :=
  (p.input.zipIdx.flatMap fun e => [.inputNode e.2, .inputKey e.2]) ++
    ((p.output.zipIdx.flatMap fun e => [.outputNode e.2, .outputKey e.2]) ++
      ((p.nodes.entries.flatMap fun e => e.2.places e.1) ++ p.ids.map .node))

namespace Place

variable {node : Node} {id : String} {place : Place}

private theorem turn_of_mem (h : place ∈ node.places id) : place.turn = (3, id) := by
  rcases List.mem_append.1 h with h | h
  · obtain ⟨key, -, rfl⟩ := List.mem_map.1 h
    rfl
  · obtain ⟨e, -, h⟩ := List.mem_flatMap.1 h
    simp only [List.mem_cons, List.not_mem_nil, or_false] at h
    rcases h with rfl | rfl | rfl <;> rfl

private theorem nodup_zipIdx {α : Type} (items : List α) {group : α × Nat → List Place}
    (hgroup : ∀ e, (group e).Nodup)
    (hdisjoint : ∀ {e e'}, e'.2 ≠ e.2 → (group e).Disjoint (group e')) :
    (items.zipIdx.flatMap group).Nodup := by
  have hindices : items.zipIdx.Pairwise fun x y => x.2 ≠ y.2 := by
    refine List.pairwise_map.1 ?_
    rw [List.zipIdx_map_snd]
    exact List.nodup_range'
  exact List.nodup_flatMap.2 ⟨fun e _ => hgroup e, hindices.imp fun h => hdisjoint h.symm⟩

private theorem nodup_node (node : Node) (id : String) : (node.places id).Nodup := by
  refine List.Nodup.append ?_ (nodup_zipIdx node.next (fun e => by simp) fun h => by simp [h]) ?_
  · have hkeys : node.defaults.names.Nodup := node.defaults.sorted_names.imp String.ne_of_lt
    exact hkeys.map fun a b h => by simpa using h
  · simp [List.disjoint_left]

/-- What comes at an earlier turn is not among what comes later. -/
theorem nodup_append {first rest : List Place} {turn : Nat} (hfirst : first.Nodup)
    (hrest : rest.Nodup) (hnow : ∀ place ∈ first, place.turn.1 = turn)
    (hlater : ∀ place ∈ rest, turn < place.turn.1) : (first ++ rest).Nodup :=
  hfirst.append hrest fun place h h' => (hlater place h').ne' (hnow place h)

theorem nodup (p : Program) : p.places.Nodup := by
  -- The parts of the list belong to different turns, so only the parts have to be looked at.
  have hids : ∀ place ∈ p.ids.map Place.node, place.turn.1 = 4 := by
    simp [turn]
  have hnodes : ∀ place ∈ p.nodes.entries.flatMap fun e => e.2.places e.1, place.turn.1 = 3 := by
    intro place h
    obtain ⟨e, -, h⟩ := List.mem_flatMap.1 h
    rw [turn_of_mem h]
  have houtput : ∀ place ∈ p.output.zipIdx.flatMap fun e => [outputNode e.2, outputKey e.2],
      place.turn.1 = 2 := by
    intro place h
    obtain ⟨e, -, h⟩ := List.mem_flatMap.1 h
    simp only [List.mem_cons, List.not_mem_nil, or_false] at h
    rcases h with rfl | rfl <;> rfl
  have hinput : ∀ place ∈ p.input.zipIdx.flatMap fun e => [inputNode e.2, inputKey e.2],
      place.turn.1 = 1 := by
    intro place h
    obtain ⟨e, -, h⟩ := List.mem_flatMap.1 h
    simp only [List.mem_cons, List.not_mem_nil, or_false] at h
    rcases h with rfl | rfl <;> rfl
  have hdefaults : (p.nodes.entries.flatMap fun e => e.2.places e.1).Nodup := by
    refine List.nodup_flatMap.2 ⟨fun e _ => nodup_node e.2 e.1, ?_⟩
    refine (List.pairwise_map.1 p.nodes.distinct).imp fun {e e'} hne place h h' => hne ?_
    exact congrArg Prod.snd ((turn_of_mem h).symm.trans (turn_of_mem h'))
  have hwhole : (p.ids.map Place.node).Nodup := p.nodes.distinct.map fun a b h => by simpa using h
  refine nodup_append (nodup_zipIdx p.input (fun e => by simp) fun h => by simp [h])
    (nodup_append (nodup_zipIdx p.output (fun e => by simp) fun h => by simp [h])
      (nodup_append hdefaults hwhole hnodes ?_) houtput ?_) hinput ?_
  · grind
  · grind
  · grind

/-- The report has one diagnostic at most for each of the places, in their order. -/
def Covers (places : List Place) (report : List Diagnostic) : Prop :=
  (report.map (·.path)).Sublist (places.map path)

namespace Covers

variable {places others : List Place} {report reported : List Diagnostic}

theorem append (h : Covers places report) (h' : Covers others reported) :
    Covers (places ++ others) (report ++ reported) := by
  rw [Covers, List.map_append, List.map_append]
  exact List.Sublist.append h h'

theorem flatMap {α : Type} {items : List α} {group : α → List Place}
    {report : α → List Diagnostic} (h : ∀ item, Covers (group item) (report item)) :
    Covers (items.flatMap group) (items.flatMap report) := by
  induction items with
  | nil => exact List.Sublist.slnil
  | cons item rest ih => exact (h item).append ih

theorem nil : Covers places [] := List.nil_sublist _

theorem skip {place : Place} (h : Covers places report) : Covers (place :: places) report :=
  List.Sublist.cons _ h

theorem keep {place : Place} {d : Diagnostic} (hd : d.path = place.path)
    (h : Covers places report) : Covers (place :: places) (d :: report) := by
  rw [Covers, List.map_cons, List.map_cons, hd]
  exact List.Sublist.cons_cons _ h

end Covers

end Place

namespace Validation

open Place

variable {place : Place} {function key : String} {signature : Signature} {path : List String}

private theorem covers_checkInputKey (h : path = place.path) :
    Covers [place] (checkInputKey function signature key path) := by
  rw [checkInputKey]
  split
  · exact .nil
  · exact .keep h .nil

private theorem covers_checkOutputKey (h : path = place.path) :
    Covers [place] (checkOutputKey function signature key path) := by
  rw [checkOutputKey]
  split
  · exact .nil
  · exact .keep h .nil

private theorem covers_checkBindings (p : Program) (c : Catalog) : Covers
    ((p.input.zipIdx.flatMap fun e => [.inputNode e.2, .inputKey e.2]) ++
      p.output.zipIdx.flatMap fun e => [.outputNode e.2, .outputKey e.2]) (checkBindings p c) := by
  refine Covers.append (.flatMap fun e => ?_) (.flatMap fun e => ?_)
  · simp only [checkBinding]
    split
    · exact .keep rfl .nil
    · exact .skip (covers_checkInputKey rfl)
  · simp only [checkBinding]
    split
    · exact .keep rfl .nil
    · exact .skip (covers_checkOutputKey rfl)

private theorem covers_checkEdge {id : String} {edge : Edge} {i : Nat} :
    Covers [.fromKey id i, .target id i, .toKey id i]
      (checkEdge p c id function signature edge i) := by
  show Covers ([.fromKey id i] ++ [.target id i, .toKey id i]) _
  refine Covers.append (covers_checkOutputKey rfl) ?_
  split
  · exact .keep rfl .nil
  · exact .skip (covers_checkInputKey rfl)

private theorem covers_checkNodes (p : Program) (c : Catalog) :
    Covers (p.nodes.entries.flatMap fun e => e.2.places e.1) (checkNodes p c) := by
  refine .flatMap fun e => ?_
  simp only
  split
  · exact .nil
  · refine Covers.append ?_ (.flatMap fun e => covers_checkEdge)
    rw [List.map_eq_flatMap]
    exact .flatMap fun key => covers_checkInputKey rfl

private theorem covers_checkCompleteness (p : Program) (c : Catalog) :
    Covers (p.ids.map .node) (checkCompleteness p c) := by
  rw [Program.ids, Table.names, List.map_map, List.map_eq_flatMap]
  refine .flatMap fun e => ?_
  simp only
  split
  · exact .nil
  · split
    · exact .nil
    · exact .keep rfl .nil

end Validation

namespace Program

private theorem covers_validate (h : p.Known c) : Place.Covers p.places (p.validate c) := by
  have hcovers := (Validation.covers_checkBindings p c).append
    ((Validation.covers_checkNodes p c).append (Validation.covers_checkCompleteness p c))
  rw [validate_of_known h, List.append_assoc, places]
  rwa [List.append_assoc] at hcovers

/-- No two diagnostics have the same path. -/
theorem nodup_paths (p : Program) (c : Catalog) : ((p.validate c).map (·.path)).Nodup := by
  by_cases hknown : p.Known c
  · exact (covers_validate hknown).nodup ((Place.nodup p).map Place.path_injective)
  · rw [validate_of_not_known hknown, Validation.checkFunctions_eq, List.map_map]
    have hids : (p.nodes.entries.map fun e => (Place.function e.1).path).Nodup := by
      have h := p.nodes.distinct.map (f := fun id => (Place.function id).path) fun a b hab => by
        simpa [Place.path] using hab
      rwa [List.map_map] at h
    exact (List.filter_sublist.map _).nodup hids

/-- **The diagnostics of a program are its flaws.** If functions are unknown, these are reported,
one diagnostic a node in the order of the nodes. Otherwise what is reported is what is wrong, and
nothing else. So there are no diagnostics if and only if nothing is wrong. No two diagnostics have
the same path, different places have different paths, and at one place one thing at most is wrong.
The path of a diagnostic leads to the offending field of the written program. -/
theorem validate_exact (p : Program) (c : Catalog) :
    (¬ p.Known c → p.validate c =
      (p.nodes.entries.filter fun e => (c.get? e.2.function).isNone).map fun e =>
        ⟨.unknownFunction e.2.function, (Place.function e.1).path⟩) ∧
      (p.Known c → ∀ d, d ∈ p.validate c ↔
        ∃ place field, Flaw p c place d.defect field ∧ d.path = place.path) ∧
      (p.validate c = [] ↔ ∀ place defect field, ¬ Flaw p c place defect field) ∧
      ((p.validate c).map (·.path)).Nodup ∧ Function.Injective Place.path ∧
      (∀ place defect field defect' field', Flaw p c place defect field →
        Flaw p c place defect' field' → defect = defect' ∧ field = field') ∧
      ∀ d ∈ p.validate c, ∃ place field, Flaw p c place d.defect field ∧ d.path = place.path ∧
        p.toJson.follow? d.path = some field := by
  have hunknown : ¬ p.Known c → p.validate c = _ :=
    fun h => (validate_of_not_known h).trans (Validation.checkFunctions_eq p c)
  refine ⟨hunknown, fun hknown d => ⟨exists_flaw, fun ⟨place, field, hflaw, hpath⟩ => ?_⟩,
    ⟨fun hnil _ _ _ => not_flaw_of_validate hnil, fun hnone => ?_⟩, p.nodup_paths c,
    Place.path_injective, fun _ _ _ _ _ => Flaw.unique, fun d hd => ?_⟩
  · have hmem := mem_of_flaw hknown hflaw
    rwa [← hpath] at hmem
  · refine List.eq_nil_iff_forall_not_mem.2 fun d hd => ?_
    obtain ⟨place, field, hflaw, -⟩ := exists_flaw hd
    exact hnone place d.defect field hflaw
  · obtain ⟨place, field, hflaw, hpath⟩ := exists_flaw hd
    exact ⟨place, field, hflaw, hpath, hpath ▸ hflaw.follow?⟩

/-- A program with something wrong in each of its parts. -/
def faulty : Program where
  input := [⟨"x", ⟨"gone", "in"⟩, .bool⟩]
  output := [⟨"y", ⟨"a", "none"⟩, .bool⟩]
  nodes := .ofList [("a", ⟨"f", [⟨"a", "out", "odd"⟩, ⟨"gone", "no", "in"⟩],
    .ofList [("strange", .bool true)]⟩)]

theorem validate_exact_faulty :
    let f : Signature := .plain [⟨"in", .bool⟩] [⟨"out", .bool⟩]
    let c : Catalog := Catalog.empty.register "f" (.program f .empty)
    faulty.validate c = [
        ⟨.unknownNode "gone", ["input", "0", "mapKey", "id"]⟩,
        ⟨.unknownOutputKey "none" "f" ["out"], ["output", "0", "mapKey", "key"]⟩,
        ⟨.unknownInputKey "strange" "f" ["in"], ["data", "a", "defaultValues", "strange"]⟩,
        ⟨.unknownInputKey "odd" "f" ["in"], ["data", "a", "next", "0", "toKey"]⟩,
        ⟨.unknownOutputKey "no" "f" ["out"], ["data", "a", "next", "1", "fromKey"]⟩,
        ⟨.unknownNode "gone", ["data", "a", "next", "1", "id"]⟩,
        ⟨.missingInputs "f" ["in"], ["data", "a"]⟩] ∧
      ∃ place field, Flaw faulty c place (.unknownInputKey "strange" "f" ["in"]) field ∧
        ["data", "a", "defaultValues", "strange"] = place.path ∧
        faulty.toJson.follow? ["data", "a", "defaultValues", "strange"] = some field := by
  intro f c
  obtain ⟨-, -, -, -, -, -, hall⟩ := validate_exact faulty c
  refine ⟨by decide +kernel, ?_⟩
  exact hall ⟨.unknownInputKey "strange" "f" ["in"], ["data", "a", "defaultValues", "strange"]⟩
    (by decide +kernel)

end Program

end Dataflow
