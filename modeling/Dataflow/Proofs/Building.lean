/-
What a list of steps builds.

The steps of a construction leave their traces side by side: nodes with their defaults, edges with
their sources, and bindings. Edges are attached at the end, so it does not matter where between the
other steps they are made. What is built can be read off the steps, and every program is built by
steps that write it out.

* `Builder.Rearranged` — steps with their connections moved;
* `Builder.Built` — the program that the steps describe;
* `Builder.built_run` — it is built;
* `Builder.stepsOf` — the steps that write a program out;
* `Builder.run_complete` — all of this.
-/
import Mathlib
import Dataflow.Program.Builder
import Dataflow.Callback.Slice
import Dataflow.Proofs.Record
namespace Dataflow

namespace Builder

namespace Step

/-- The id of the node that a step adds. -/
def added? : Step → Option String
  | .addNode id _ => some id
  | _ => none

/-- The default that a step sets. -/
def default? : Step → Option (String × Json)
  | .setDefault key value => some (key, value)
  | _ => none

/-- The edge that a step makes, with its source. -/
def connected? : Step → Option (String × Edge)
  | .connect source edge => some (source, edge)
  | _ => none

/-- The input that a step binds. -/
def input? : Step → Option Binding
  | .input binding => some binding
  | _ => none

/-- The output that a step binds. -/
def output? : Step → Option Binding
  | .output binding => some binding
  | _ => none

end Step

/-- The ids of the nodes that are added. -/
def added (steps : List Step) : List String := steps.filterMap Step.added?

/-- The edges that are made, with their sources. -/
def connections (steps : List Step) : List (String × Edge) := steps.filterMap Step.connected?

/-- The defaults that are set before another node is added. -/
def firstDefaults (steps : List Step) : List (String × Json) :=
  (steps.takeWhile fun step => step.added?.isNone).filterMap Step.default?

/-- The edges with the given source. -/
def edgesFrom (id : String) (edges : List (String × Edge)) : List Edge :=
  (edges.filter fun e => e.1 = id).map (·.2)

variable {b b' : Builder} {steps steps' : List Step} {id function : String} {node : Node}

/-! ### Steps -/

/-- What every step puts behind the rest is in the end what all steps put there. -/
theorem foldl_apply_log {α : Type} (field : Builder → List α) {part : Step → Option α}
    (h : ∀ b step, field (apply b step) = field b ++ (part step).toList) (steps : List Step)
    (b : Builder) : field (steps.foldl apply b) = field b ++ steps.filterMap part := by
  induction steps generalizing b with
  | nil => exact (List.append_nil _).symm
  | cons step rest ih =>
    rw [List.foldl_cons, ih, h, List.append_assoc, List.filterMap_cons]
    cases part step <;> rfl

private theorem node?_putNode (p : Program) (id : String) (node : Node) (other : String) :
    (putNode p id node).node? other = if other = id then some node else p.node? other :=
  Table.get?_put ..

/-- The nodes are at their places, and all but the nodes is the same. -/
structure Framed (b b' : Builder) : Prop where
  input : b'.program.input = b.program.input
  output : b'.program.output = b.program.output
  ids : b'.program.ids = b.program.ids
  last : b'.last = b.last
  edges : b'.edges = b.edges

/-- A default only changes a node. -/
theorem framed_setDefault (b : Builder) (key : String) (value : Json) :
    Framed b (apply b (.setDefault key value)) := by
  obtain ⟨p, last, edges⟩ := b
  cases last with
  | none => exact ⟨rfl, rfl, rfl, rfl, rfl⟩
  | some id =>
    simp only [apply, setNodeDefault]
    cases hnode : p.node? id with
    | none => exact ⟨rfl, rfl, rfl, rfl, rfl⟩
    | some node =>
      refine ⟨rfl, rfl, ?_, rfl, rfl⟩
      exact (Table.names_put ..).trans (if_pos (Table.mem_names.2 ⟨node, hnode⟩))

private theorem input_foldl (steps : List Step) (b : Builder) :
    (steps.foldl apply b).program.input = b.program.input ++ steps.filterMap Step.input? := by
  refine foldl_apply_log (·.program.input) (fun b step => ?_) steps b
  cases step with
  | setDefault key value =>
    exact (framed_setDefault b key value).input.trans (List.append_nil _).symm
  | input binding => rfl
  | _ => exact (List.append_nil _).symm

private theorem output_foldl (steps : List Step) (b : Builder) :
    (steps.foldl apply b).program.output = b.program.output ++ steps.filterMap Step.output? := by
  refine foldl_apply_log (·.program.output) (fun b step => ?_) steps b
  cases step with
  | setDefault key value =>
    exact (framed_setDefault b key value).output.trans (List.append_nil _).symm
  | output binding => rfl
  | _ => exact (List.append_nil _).symm

private theorem edges_foldl (steps : List Step) (b : Builder) :
    (steps.foldl apply b).edges = b.edges ++ connections steps := by
  refine foldl_apply_log (·.edges) (fun b step => ?_) steps b
  cases step with
  | setDefault key value =>
    exact (framed_setDefault b key value).edges.trans (List.append_nil _).symm
  | connect source edge => rfl
  | _ => exact (List.append_nil _).symm

/-- Only a step that adds a node changes the ids. -/
theorem ids_apply (b : Builder) {step : Step} (h : step.added? = none) :
    (apply b step).program.ids = b.program.ids := by
  cases step with
  | addNode id function => cases h
  | setDefault key value => exact (framed_setDefault b key value).ids
  | _ => rfl

/-- A node stands where it was first added. -/
theorem ids_foldl (steps : List Step) (b : Builder) :
    (steps.foldl apply b).program.ids =
      b.program.ids ++ ((added steps).filter fun id => id ∉ b.program.ids).eraseDups := by
  induction steps generalizing b with
  | nil => exact (List.append_nil _).symm
  | cons step rest ih =>
    rw [List.foldl_cons, ih]
    cases hadded : step.added? with
    | none => rw [ids_apply b hadded, added, added, List.filterMap_cons_none hadded]
    | some id =>
      -- only `addNode` adds, and `put` decides between the old place and the end
      cases step with
      | addNode id function =>
        cases hadded
        have hids : (apply b (.addNode id function)).program.ids =
            if id ∈ b.program.ids then b.program.ids else b.program.ids ++ [id] :=
          Table.names_put ..
        have hadded : added (.addNode id function :: rest) = id :: added rest := rfl
        rw [hids, hadded, eraseDups_filter_cons]
        split
        · rfl
        · rw [List.append_assoc, List.singleton_append]
          congr 4
          funext other
          simp [or_comm]
      | _ => cases hadded

/-! ### Nodes -/

/-- A node stays as it is while it is not the one added last and is not added again. -/
theorem node?_foldl_of_other (hlast : b.last ≠ some id) (hsteps : id ∉ added steps) :
    (steps.foldl apply b).program.node? id = b.program.node? id := by
  induction steps generalizing b with
  | nil => rfl
  | cons step rest ih =>
    rw [List.foldl_cons]
    cases step with
    | addNode other function =>
      obtain ⟨hne, hrest⟩ : id ≠ other ∧ id ∉ added rest := by
        simpa [added, Step.added?] using hsteps
      rw [ih (fun h => hne (Option.some.inj h).symm) hrest]
      exact (node?_putNode ..).trans (if_neg hne)
    | setDefault key value =>
      have hlast' : (apply b (.setDefault key value)).last ≠ some id :=
        (framed_setDefault b key value).last ▸ hlast
      rw [ih hlast' hsteps, apply]
      split
      · rename_i last hb
        have hne : id ≠ last := fun h => hlast (h ▸ hb)
        simp only [setNodeDefault]
        split
        · exact (node?_putNode ..).trans (if_neg hne)
        · rfl
      · rfl
    | _ => exact ih hlast hsteps

/-- The node added last collects defaults until the next one is added. -/
theorem node?_foldl_of_last (hlast : b.last = some id) (hnode : b.program.node? id = some node)
    (hsteps : id ∉ added steps) :
    (steps.foldl apply b).program.node? id = some { node with
      defaults := (firstDefaults steps).foldl (fun r e => r.insert e.1 e.2) node.defaults } := by
  induction steps generalizing b node with
  | nil => exact hnode
  | cons step rest ih =>
    rw [List.foldl_cons]
    cases step with
    | addNode other function =>
      -- from here on another node is the last one
      obtain ⟨hne, hrest⟩ : id ≠ other ∧ id ∉ added rest := by
        simpa [added, Step.added?] using hsteps
      rw [node?_foldl_of_other (fun h => hne (Option.some.inj h).symm) hrest]
      exact (node?_putNode ..).trans ((if_neg hne).trans hnode)
    | setDefault key value =>
      have hnode' : (apply b (.setDefault key value)).program.node? id =
          some { node with defaults := node.defaults.insert key value } := by
        rw [apply, hlast]
        simp only [setNodeDefault, hnode]
        exact (node?_putNode ..).trans (if_pos rfl)
      have hlast' : (apply b (.setDefault key value)).last = some id :=
        (framed_setDefault b key value).last.trans hlast
      exact ih hlast' hnode' hsteps
    | _ => exact ih hlast hnode hsteps

/-- A node is the one that was added under its id last, with the defaults that it got then. -/
theorem node?_foldl {before after : List Step} (hafter : id ∉ added after) (b : Builder) :
    ((before ++ .addNode id function :: after).foldl apply b).program.node? id =
      some ⟨function, [], .ofList (firstDefaults after)⟩ := by
  have hnode : (apply (before.foldl apply b) (.addNode id function)).program.node? id =
      some (.bare function) :=
    (node?_putNode ..).trans (if_pos rfl)
  rw [List.foldl_append, List.foldl_cons]
  exact node?_foldl_of_last rfl hnode hafter

/-! ### Attaching edges -/

/-- The program with edges put behind those of their sources. -/
def extended (p : Program) (edges : List (String × Edge)) : Program :=
  { p with nodes := p.nodes.update fun id node =>
      { node with next := node.next ++ edgesFrom id edges } }

private theorem node?_extended (p : Program) (edges : List (String × Edge)) (id : String) :
    (extended p edges).node? id =
      (p.node? id).map fun node => { node with next := node.next ++ edgesFrom id edges } :=
  Table.get?_update ..

private theorem ids_extended (p : Program) (edges : List (String × Edge)) :
    (extended p edges).ids = p.ids :=
  Table.names_update ..

private theorem edgesFrom_cons (id source : String) (edge : Edge) (rest : List (String × Edge)) :
    edgesFrom id ((source, edge) :: rest) =
      if id = source then edge :: edgesFrom id rest else edgesFrom id rest := by
  rw [edgesFrom, List.filter_cons]
  by_cases h : id = source
  · simp [h, edgesFrom]
  · simp [h, Ne.symm h, edgesFrom]

private theorem edgesFrom_append (id : String) (edges more : List (String × Edge)) :
    edgesFrom id (edges ++ more) = edgesFrom id edges ++ edgesFrom id more := by
  rw [edgesFrom, List.filter_append, List.map_append]
  rfl

/-- The notes about edges without a source. -/
def dropped (known : List String) (edges : List (String × Edge)) : List Note :=
  ((edges.map (·.1)).filter fun source => source ∉ known).map .unknownSource

/-- Programs are the same if their bindings, the order of their ids and their nodes are. -/
theorem program_ext {p q : Program} (hinput : p.input = q.input) (houtput : p.output = q.output)
    (hids : p.ids = q.ids) (hnode : ∀ id ∈ p.ids, p.node? id = q.node? id) : p = q := by
  have hnodes : p.nodes = q.nodes := Table.ext_get? hids hnode
  cases p
  cases q
  cases hinput
  cases houtput
  cases hnodes
  rfl

private theorem extended_nil (p : Program) : extended p [] = p := by
  refine program_ext rfl rfl (ids_extended p []) fun id _ => ?_
  rw [node?_extended]
  cases p.node? id <;> simp [edgesFrom]

private theorem extended_append (p : Program) (edges more : List (String × Edge)) :
    extended p (edges ++ more) = extended (extended p edges) more := by
  refine program_ext rfl rfl ?_ fun id _ => ?_
  · rw [ids_extended, ids_extended, ids_extended]
  · rw [node?_extended, node?_extended, node?_extended, Option.map_map]
    refine congrArg (Option.map · _) (funext fun node => ?_)
    rw [edgesFrom_append, ← List.append_assoc]
    rfl

/-- An edge is attached, or it is noted that its source is unknown. -/
theorem attach_eq (p : Program) (source : String) (edge : Edge) (notes : Array Note) :
    attach p source edge notes =
      (extended p [(source, edge)], notes ++ (dropped p.ids [(source, edge)]).toArray) := by
  rw [attach]
  cases hnode : p.node? source with
  | some node =>
    have hids : source ∈ p.ids := Table.mem_names.2 ⟨node, hnode⟩
    have hput : putNode p source { node with next := node.next ++ [edge] } =
        extended p [(source, edge)] := by
      refine program_ext rfl rfl ?_ fun id _ => ?_
      · exact (Table.names_put ..).trans ((if_pos hids).trans (ids_extended ..).symm)
      · rw [node?_putNode, node?_extended, edgesFrom_cons]
        by_cases h : id = source
        · rw [if_pos h, if_pos h, h, hnode]
          rfl
        · rw [if_neg h, if_neg h]
          cases p.node? id <;> simp [edgesFrom]
    have hdropped : dropped p.ids [(source, edge)] = [] := by simp [dropped, hids]
    rw [hdropped, ← hput, Array.append_empty]
    rfl
  | none =>
    have hids : source ∉ p.ids := by
      intro hmem
      obtain ⟨node, hsome⟩ := Table.mem_names.1 hmem
      cases hnode.symm.trans hsome
    have hsame : extended p [(source, edge)] = p := by
      refine program_ext rfl rfl (ids_extended ..) fun id hid => ?_
      have hne : id ≠ source := fun h => hids (h ▸ ids_extended p _ ▸ hid)
      rw [node?_extended, edgesFrom_cons, if_neg hne]
      cases p.node? id <;> simp [edgesFrom]
    have hdropped : dropped p.ids [(source, edge)] = [.unknownSource source] := by
      simp [dropped, hids]
    rw [hsame, hdropped, ← Array.push_eq_append]
    rfl

private theorem dropped_cons (known : List String) (e : String × Edge)
    (rest : List (String × Edge)) :
    dropped known (e :: rest) = dropped known [e] ++ dropped known rest := by
  rw [dropped, dropped, dropped, ← List.map_append, ← List.filter_append]
  rfl

/-- Edges are attached one after the other, which changes no ids. -/
theorem build_eq (b : Builder) (notes : Array Note) :
    b.build notes =
      (extended b.program b.edges, notes ++ (dropped b.program.ids b.edges).toArray) := by
  obtain ⟨p, last, edges⟩ := b
  induction edges generalizing p notes with
  | nil =>
    rw [extended_nil]
    exact congrArg _ (Array.append_empty).symm
  | cons e rest ih =>
    obtain ⟨source, edge⟩ := e
    have hstep : build ⟨p, last, (source, edge) :: rest⟩ notes =
        build ⟨(attach p source edge notes).1, last, rest⟩ (attach p source edge notes).2 := rfl
    have hdropped : (dropped p.ids ((source, edge) :: rest)).toArray =
        (dropped p.ids [(source, edge)]).toArray ++ (dropped p.ids rest).toArray := by
      rw [dropped_cons, List.append_toArray]
    rw [hstep, attach_eq, ih]
    simp only [ids_extended, ← extended_append, hdropped, Array.append_assoc,
      List.singleton_append]

/-- **What is built**: the nodes and bindings of the steps, with all edges attached whose sources
were added. -/
theorem run_eq (steps : List Step) (notes : Array Note) :
    let b := steps.foldl apply empty
    run steps notes =
      (extended b.program (connections steps),
        notes ++ (dropped b.program.ids (connections steps)).toArray) := by
  intro b
  have hedges : b.edges = connections steps := edges_foldl steps empty
  rw [run, build_eq, hedges]

/-! ### Moving connections -/

/-- The same steps with their connections in other places: the connections come in the same order,
and so do the others. -/
def Rearranged (steps steps' : List Step) : Prop :=
  (steps.filter fun step => step.connected?.isSome) =
    (steps'.filter fun step => step.connected?.isSome) ∧
  (steps.filter fun step => step.connected?.isNone) =
    (steps'.filter fun step => step.connected?.isNone)

/-- A step looks at the program and at the node added last, never at the edges. -/
theorem apply_congr (hprogram : b.program = b'.program) (hlast : b.last = b'.last) (step : Step) :
    (apply b step).program = (apply b' step).program ∧
      (apply b step).last = (apply b' step).last := by
  obtain ⟨p, last, edges⟩ := b
  obtain ⟨p', last', edges'⟩ := b'
  cases hprogram
  cases hlast
  cases step with
  | setDefault key value => cases last <;> exact ⟨rfl, rfl⟩
  | _ => exact ⟨rfl, rfl⟩

/-- Without the connections the nodes and bindings are the same. -/
theorem program_foldl_filter (hprogram : b.program = b'.program) (hlast : b.last = b'.last)
    (steps : List Step) :
    (steps.foldl apply b).program =
      ((steps.filter fun step => step.connected?.isNone).foldl apply b').program := by
  induction steps generalizing b b' with
  | nil => exact hprogram
  | cons step rest ih =>
    rw [List.foldl_cons, List.filter_cons]
    cases hstep : step.connected? with
    | none =>
      obtain ⟨hprogram, hlast⟩ := apply_congr hprogram hlast step
      exact ih hprogram hlast
    | some e =>
      cases step with
      | connect source edge => exact ih hprogram hlast
      | _ => cases hstep

private theorem connections_filter (steps : List Step) :
    connections (steps.filter fun step => step.connected?.isSome) = connections steps := by
  rw [connections, connections, List.filterMap_filter]
  refine List.filterMap_congr fun step _ => ?_
  cases hstep : step.connected? <;> simp

private theorem run_rearranged (h : Rearranged steps steps') : run steps = run steps' := by
  have hconnections : connections steps = connections steps' := by
    rw [← connections_filter steps, h.1, connections_filter]
  have hprogram : (steps.foldl apply empty).program = (steps'.foldl apply empty).program := by
    rw [program_foldl_filter rfl rfl steps, h.2, ← program_foldl_filter rfl rfl steps']
  funext notes
  rw [run_eq, run_eq, hconnections, hprogram]

/-! ### The program that steps describe -/

/-- The program has the bindings and nodes of the steps. A node stands where it was first added. It
is the one that was added last, with the defaults that were set before any other was added, and with
all edges that were made from its id. -/
structure Built (steps : List Step) (p : Program) : Prop where
  input : p.input = steps.filterMap Step.input?
  output : p.output = steps.filterMap Step.output?
  ids : p.ids = (added steps).eraseDups
  node : ∀ {id function before after}, steps = before ++ .addNode id function :: after →
    id ∉ added after → p.node? id =
      some ⟨function, edgesFrom id (connections steps), .ofList (firstDefaults after)⟩

/-- Every id that is added is added a last time. -/
theorem exists_last_addNode (h : id ∈ added steps) : ∃ function before after,
    steps = before ++ .addNode id function :: after ∧ id ∉ added after := by
  induction steps with
  | nil => cases h
  | cons step rest ih =>
    by_cases hrest : id ∈ added rest
    · obtain ⟨function, before, after, rfl, hafter⟩ := ih hrest
      exact ⟨function, step :: before, after, rfl, hafter⟩
    · cases step with
      | addNode other function =>
        obtain rfl : id = other := (List.mem_cons.1 h).resolve_right hrest
        exact ⟨function, [], rest, rfl, hrest⟩
      | _ => exact absurd h hrest

theorem Built.mem_ids {p : Program} (h : Built steps p) : id ∈ p.ids ↔ id ∈ added steps := by
  rw [h.ids, List.mem_eraseDups]

/-- The edges of a node are those made from its id, and an id that was never added has none. -/
theorem Built.edgesOf_eq {p : Program} (h : Built steps p) (id : String) :
    Callback.edgesOf p id = if id ∈ added steps then edgesFrom id (connections steps) else [] := by
  rw [Callback.edgesOf]
  split
  · rename_i node hnode
    have hadded : id ∈ added steps := h.mem_ids.1 (Table.mem_names.2 ⟨node, hnode⟩)
    obtain ⟨function, before, after, hsteps, hafter⟩ := exists_last_addNode hadded
    cases (h.node hsteps hafter).symm.trans hnode
    rw [if_pos hadded]
  · rename_i hnode
    have hnew : id ∉ added steps := by
      intro hadded
      obtain ⟨node, hsome⟩ := Table.mem_names.1 (h.mem_ids.2 hadded)
      cases hnode.symm.trans hsome
    rw [if_neg hnew]

private theorem ids_foldl_empty (steps : List Step) :
    (steps.foldl apply empty).program.ids = (added steps).eraseDups := by
  have hids := ids_foldl steps empty
  simpa [empty, Program.empty, Program.ids, Table.names, Table.empty] using hids

/-- **The steps are built.** -/
theorem built_run (steps : List Step) (notes : Array Note) : Built steps (run steps notes).1 := by
  rw [run_eq]
  refine ⟨input_foldl steps empty, output_foldl steps empty,
    (ids_extended ..).trans (ids_foldl_empty steps), fun hsteps hafter => ?_⟩
  rw [node?_extended, hsteps, node?_foldl hafter]
  rfl

/-- The notes are about the connections from ids that were never added. -/
theorem notes_run (steps : List Step) (notes : Array Note) :
    (run steps notes).2 = notes ++ (dropped (added steps) (connections steps)).toArray := by
  rw [run_eq, ids_foldl_empty]
  simp only [dropped, List.mem_eraseDups]

/-! ### Writing a program out -/

private theorem eraseDups_of_nodup {names : List String} (h : names.Nodup) :
    names.eraseDups = names := by
  induction names with
  | nil => rfl
  | cons name rest ih =>
    obtain ⟨hnew, hrest⟩ := List.nodup_cons.1 h
    have hkept : (rest.filter fun other => !other == name) = rest :=
      List.filter_eq_self.2 fun other hother => by
        simpa using fun heq : other = name => hnew (heq ▸ hother)
    rw [List.eraseDups_cons, hkept, ih hrest]

/-- The steps for a node and its defaults. -/
def nodeSteps (e : String × Node) : List Step :=
  .addNode e.1 e.2.function :: e.2.defaults.entries.map fun d => .setDefault d.1 d.2

/-- The steps for the edges and bindings of a program. -/
def wiring (p : Program) : List Step :=
  p.nodes.entries.flatMap (fun e => e.2.next.map (.connect e.1)) ++ p.input.map .input ++
    p.output.map .output

/-- The steps for a program: its nodes with their defaults, its edges, its bindings. -/
def stepsOf (p : Program) : List Step := p.nodes.entries.flatMap nodeSteps ++ wiring p

/-- What a part of each step gives is collected node by node, edge by edge, binding by binding. -/
theorem filterMap_wiring {α : Type} (part : Step → Option α) (p : Program) :
    (wiring p).filterMap part =
      p.nodes.entries.flatMap (fun e => e.2.next.filterMap fun edge => part (.connect e.1 edge)) ++
        p.input.filterMap (fun binding => part (.input binding)) ++
        p.output.filterMap fun binding => part (.output binding) := by
  simp only [wiring, List.filterMap_append, List.filterMap_flatMap, List.filterMap_map]
  rfl

private theorem added_append (steps more : List Step) :
    added (steps ++ more) = added steps ++ added more :=
  List.filterMap_append

private theorem added_defaults (defaults : List (String × Json)) :
    added (defaults.map fun d => .setDefault d.1 d.2) = [] := by
  rw [added, List.filterMap_map]
  exact List.filterMap_eq_nil_iff.2 fun _ _ => rfl

private theorem added_nodeSteps (entries : List (String × Node)) :
    added (entries.flatMap nodeSteps) = entries.map (·.1) := by
  rw [added, List.filterMap_flatMap, List.map_eq_flatMap]
  exact List.flatMap_congr fun e _ => congrArg (e.1 :: ·) (added_defaults e.2.defaults.entries)

private theorem filterMap_stepsOf {α : Type} {part : Step → Option α}
    (hadd : ∀ id function, part (.addNode id function) = none)
    (hdefault : ∀ key value, part (.setDefault key value) = none) (p : Program) :
    (stepsOf p).filterMap part = (wiring p).filterMap part := by
  rw [stepsOf, List.filterMap_append, List.filterMap_eq_nil_iff.2, List.nil_append]
  intro step hstep
  obtain ⟨e, -, hstep⟩ := List.mem_flatMap.1 hstep
  rcases List.mem_cons.1 hstep with rfl | hstep
  · exact hadd ..
  · obtain ⟨d, -, rfl⟩ := List.mem_map.1 hstep
    exact hdefault ..

private theorem added_wiring (p : Program) : added (wiring p) = [] := by
  rw [added, filterMap_wiring]
  simp [Step.added?]

private theorem added_stepsOf (p : Program) : added (stepsOf p) = p.ids := by
  rw [stepsOf, added_append, added_nodeSteps, added_wiring, List.append_nil]
  rfl

private theorem connections_stepsOf (p : Program) :
    connections (stepsOf p) =
      p.nodes.entries.flatMap fun e => e.2.next.map fun edge => (e.1, edge) := by
  rw [connections, filterMap_stepsOf (fun _ _ => rfl) (fun _ _ => rfl), filterMap_wiring]
  simp [Step.connected?]

/-- No edge of a program is without its source. -/
theorem dropped_stepsOf (p : Program) : dropped p.ids (connections (stepsOf p)) = [] := by
  rw [connections_stepsOf, dropped, List.map_eq_nil_iff, List.filter_eq_nil_iff]
  intro source hsource
  obtain ⟨made, hmade, rfl⟩ := List.mem_map.1 hsource
  obtain ⟨e, he, hmade⟩ := List.mem_flatMap.1 hmade
  obtain ⟨edge, -, rfl⟩ := List.mem_map.1 hmade
  have hid : e.1 ∈ p.ids := List.mem_map_of_mem he
  simpa using hid

/-- Defaults count until a node is added. -/
theorem firstDefaults_append (defaults : List (String × Json)) (rest : List Step) :
    firstDefaults (defaults.map (fun d => .setDefault d.1 d.2) ++ rest) =
      defaults ++ firstDefaults rest := by
  induction defaults with
  | nil => rfl
  | cons d more ih => exact congrArg (d :: ·) ih

/-- Behind its own defaults a node gets none. -/
theorem firstDefaults_stepsOf (entries : List (String × Node)) (p : Program) :
    firstDefaults (entries.flatMap nodeSteps ++ wiring p) = [] := by
  cases entries with
  | cons e rest => rfl
  | nil =>
    have hnone : (wiring p).filterMap Step.default? = [] := by
      rw [filterMap_wiring]
      simp [Step.default?]
    rw [firstDefaults, List.filterMap_eq_nil_iff]
    intro step hstep
    exact List.filterMap_eq_nil_iff.1 hnone step ((List.takeWhile_sublist _).subset hstep)

/-- A node comes once among the entries. -/
theorem exists_entries_eq {p : Program} (hnode : p.node? id = some node) : ∃ l r,
    p.nodes.entries = l ++ (id, node) :: r ∧ id ∉ l.map (·.1) ∧ id ∉ r.map (·.1) := by
  obtain ⟨l, r, hentries⟩ := List.append_of_mem (Table.mem_entries.2 hnode)
  have hdistinct := p.nodes.distinct
  rw [hentries, List.map_append, List.map_cons, List.nodup_middle, List.nodup_cons,
    List.mem_append, not_or] at hdistinct
  exact ⟨l, r, hentries, hdistinct.1⟩

/-- Of the edges of all nodes those of one node are picked. -/
theorem edgesFrom_stepsOf {p : Program} (hnode : p.node? id = some node) :
    edgesFrom id (connections (stepsOf p)) = node.next := by
  have hother {entries : List (String × Node)} (h : id ∉ entries.map (·.1)) :
      edgesFrom id (entries.flatMap fun e => e.2.next.map fun edge => (e.1, edge)) = [] := by
    rw [edgesFrom, List.map_eq_nil_iff, List.filter_eq_nil_iff]
    intro made hmade
    obtain ⟨e, he, hmade⟩ := List.mem_flatMap.1 hmade
    obtain ⟨edge, -, rfl⟩ := List.mem_map.1 hmade
    simpa using fun heq : e.1 = id => h (heq ▸ List.mem_map_of_mem he)
  obtain ⟨l, r, hentries, hl, hr⟩ := exists_entries_eq hnode
  rw [connections_stepsOf, hentries, List.flatMap_append, List.flatMap_cons, edgesFrom_append,
    edgesFrom_append, hother hl, hother hr]
  simp [edgesFrom, List.filter_map, Function.comp_def]

/-- **Every program is built by the steps that write it out.** -/
theorem run_stepsOf (p : Program) (notes : Array Note) : run (stepsOf p) notes = (p, notes) := by
  have hbuilt := built_run (stepsOf p) notes
  have hids : (run (stepsOf p) notes).1.ids = p.ids := by
    rw [hbuilt.ids, added_stepsOf]
    exact eraseDups_of_nodup p.nodes.distinct
  have hprogram : (run (stepsOf p) notes).1 = p := by
    refine program_ext ?_ ?_ hids fun id hid => ?_
    · rw [hbuilt.input, filterMap_stepsOf (fun _ _ => rfl) (fun _ _ => rfl), filterMap_wiring]
      simp [Step.input?]
    · rw [hbuilt.output, filterMap_stepsOf (fun _ _ => rfl) (fun _ _ => rfl), filterMap_wiring]
      simp [Step.output?]
    · -- the steps are cut where the node is added, which happens once
      obtain ⟨node, hnode⟩ := Table.mem_names.1 (hids ▸ hid)
      obtain ⟨l, r, hentries, -, hr⟩ := exists_entries_eq hnode
      have hsteps : stepsOf p = l.flatMap nodeSteps ++ .addNode id node.function ::
          (node.defaults.entries.map (fun d => .setDefault d.1 d.2) ++
            (r.flatMap nodeSteps ++ wiring p)) := by
        rw [stepsOf, hentries, List.flatMap_append, List.flatMap_cons, nodeSteps]
        simp only [List.append_assoc, List.cons_append]
      have hafter : id ∉ added (node.defaults.entries.map (fun d => .setDefault d.1 d.2) ++
          (r.flatMap nodeSteps ++ wiring p)) := by
        rw [added_append, added_append, added_defaults, added_nodeSteps, added_wiring]
        simpa using hr
      rw [hbuilt.node hsteps hafter, edgesFrom_stepsOf hnode, firstDefaults_append,
        firstDefaults_stepsOf, List.append_nil, Record.ofList_entries]
      exact hnode.symm
  have hnotes : (run (stepsOf p) notes).2 = notes := by
    rw [notes_run, added_stepsOf, dropped_stepsOf, Array.append_empty]
  exact Prod.ext hprogram hnotes

/-- **Building is complete, and connections may be made at any time.** Steps with their connections
moved build the same. The program is read off the steps: its edges are the connections from ids
that were added, and the others are noted and dropped. And every program is built by the steps for
its nodes, its edges and its bindings. -/
theorem run_complete :
    (∀ steps steps', Rearranged steps steps' → run steps = run steps') ∧
    (∀ steps notes, Built steps (run steps notes).1 ∧
      (∀ id, Callback.edgesOf (run steps notes).1 id =
        if id ∈ added steps then edgesFrom id (connections steps) else []) ∧
      (run steps notes).2 = notes ++ (dropped (added steps) (connections steps)).toArray) ∧
    ∀ p notes, run (stepsOf p) notes = (p, notes) :=
  ⟨fun _ _ => run_rearranged, fun steps notes => ⟨built_run steps notes,
    (built_run steps notes).edgesOf_eq, notes_run steps notes⟩, run_stepsOf⟩

/-- A node that is added again stands first, with its new function and its new default. An edge is
made before its source is added, another has no source. -/
theorem run_complete_again :
    let edge : Edge := ⟨"b", "out", "in"⟩
    let steps : List Step := [.addNode "a" "f", .setDefault "x" .null, .connect "c" edge,
      .addNode "b" "g", .addNode "a" "h", .setDefault "y" .null, .connect "a" edge]
    let moved : List Step := [.connect "c" edge, .connect "a" edge, .addNode "a" "f",
      .setDefault "x" .null, .addNode "b" "g", .addNode "a" "h", .setDefault "y" .null]
    run steps = run moved ∧ (run steps #[]).1.ids = ["a", "b"] ∧
      (run steps #[]).1.node? "a" = some ⟨"h", [edge], .ofList [("y", .null)]⟩ ∧
      (run steps #[]).2 = #[.unknownSource "c"] := by
  intro edge steps moved
  have hmoved : Rearranged steps moved := ⟨rfl, rfl⟩
  obtain ⟨hbuilt, -, hnotes⟩ := run_complete.2.1 steps #[]
  have hsteps : steps = [.addNode "a" "f", .setDefault "x" .null, .connect "c" edge,
      .addNode "b" "g"] ++ .addNode "a" "h" :: [.setDefault "y" .null, .connect "a" edge] := rfl
  refine ⟨run_complete.1 _ _ hmoved, hbuilt.ids.trans (by decide),
    hbuilt.node hsteps (by decide), hnotes.trans (by decide)⟩

end Builder

end Dataflow
