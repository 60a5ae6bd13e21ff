/-
What is cut out for a callback.

A walk from the feeding edges of a call site takes as many steps as there are ids to visit, and what
it has visited then is the body. The closures of an extraction hold the nodes of the body as they
are in the program, apart from their edges to the call site, and the frames that wait in the body.

* `Callback.walks_iff` — the walk from the feeding edges ends, and it ends with the body;
* `Callback.Cut` — a closure over a body;
* `Callback.body_cut` — bodies, exits and closures for every program, call site and signature.
-/
import Mathlib
import Dataflow.Proofs.Enclosure
import Dataflow.Proofs.History
import Dataflow.Proofs.Line
namespace Dataflow

namespace Callback

variable {p : Program} {site id name : String} {signature : Signature} {frames : FrameQueue}
  {extraction : Extraction} {closure : Closure} {feeding : List Edge}
  {visited line final final' ids : List String}

/-! ### Walks -/

theorem Walks.unique (h : Walks p site visited line final)
    (h' : Walks p site visited line final') : final' = final := by
  induction h with
  | done =>
    cases h'
    rfl
  | visit _ ih =>
    cases h' with
    | visit h' => exact ih h'

/-- **The walk ends**, and the body is what it has visited then. -/
theorem walks_iff :
    Walks p site [] (discover site [] feeding) final ↔ final = body p site feeding := by
  constructor
  · exact fun h => (walks_body p site feeding).unique h
  · rintro rfl
    exact walks_body p site feeding

private theorem nodup_body (p : Program) (site : String) (feeding : List Edge) :
    (body p site feeding).Nodup := by
  have hnodup := (walked_body p site feeding).nodup
  rwa [List.append_nil] at hnodup

theorem mem_exits : id ∈ exits p site ids ↔
    id ∈ ids ∧ ∃ edge ∈ edgesOf p id, edge.target = site := by
  simp [exits]

theorem mem_feedingEdges {edge : Edge} : edge ∈ feedingEdges p site signature ↔
    edge ∈ edgesOf p site ∧ ∃ name callback, signature.callbacks.get? name = some callback ∧
      edge.fromKey ∈ Param.names callback.input := by
  rw [feedingEdges, List.mem_filter, Signature.hasCallbackInput_iff]

/-! ### Closures -/

/-- A closure over a body: the nodes of the program that are in the body, without their edges to
the call site, and the frames that wait there. -/
structure Cut (p : Program) (site : String) (ids : List String) (frames : FrameQueue)
    (closure : Closure) : Prop where
  ids_eq : closure.program.ids = ids.filter fun id => (p.node? id).isSome
  node_iff : ∀ id inner, closure.program.node? id = some inner ↔ id ∈ ids ∧ ∃ node,
    p.node? id = some node ∧ inner.function = node.function ∧ inner.defaults = node.defaults ∧
      inner.next = node.next.filter fun edge => edge.target ≠ site
  node?_site : closure.program.node? site = none
  target_mem : ∀ id inner, closure.program.node? id = some inner → ∀ edge ∈ inner.next,
    edge.target ∈ ids
  toList_seed : closure.seed.toList = frames.toList.filter fun e => e.1 ∈ ids
  get?_seed : ∀ id, closure.seed.get? id = if id ∈ ids then frames.get? id else none

private theorem names_bodyNodes (h : ids.Nodup) :
    (bodyNodes p site ids).names = ids.filter fun id => (p.node? id).isSome := by
  have hnames : ∀ ids : List String, (ids.filterMap fun id => (p.node? id).map fun node =>
      (id, { node with next := node.next.filter fun edge => edge.target ≠ site })).map (·.1) =
      ids.filter fun id => (p.node? id).isSome := by
    intro ids
    induction ids with
    | nil => rfl
    | cons id rest ih =>
      cases hnode : p.node? id with
      | none => simpa [hnode] using ih
      | some node => simpa [hnode] using ih
  have hentries : (bodyNodes p site ids).entries = _ :=
    Table.entries_foldl_put (t := .empty) (by
      show (([] ++ _ : List (String × Node)).map (·.1)).Nodup
      rw [List.nil_append, hnames]
      exact h.filter _)
  rw [Table.names, hentries]
  exact hnames ids

theorem consumed_eq_body (h : extract p site signature frames = .ok extraction) :
    extraction.consumed = body p site (feedingEdges p site signature) := by
  cases hnode : p.node? site with
  | some node => exact consumed_of_extract hnode h
  | none =>
    -- Without a node there are no edges, and nothing is cut out.
    have hfeeding : feedingEdges p site signature = [] := by
      rw [feedingEdges, edgesOf, hnode]
      rfl
    rw [extract, if_pos (.inl (by rw [hnode]; rfl))] at h
    cases h
    rw [hfeeding]
    rfl

/-- **The closures of an extraction are cut out of its body.** -/
theorem cut_of_extract (h : extract p site signature frames = .ok extraction)
    (hclosure : extraction.closures.get? name = some closure) :
    Cut p site (body p site (feedingEdges p site signature)) frames closure := by
  obtain ⟨callback, -, hnodes, hseed, -, -⟩ := closure_of_extract h hclosure
  have hnode : ∀ id inner, closure.program.node? id = some inner ↔
      id ∈ p.bodyOf site signature ∧ ∃ node, p.node? id = some node ∧
        inner = { node with next := node.next.filter fun edge => edge.target ≠ site } := by
    intro id inner
    rw [Program.node?, hnodes, node?_bodyNodes]
  constructor
  · rw [Program.ids, hnodes]
    exact names_bodyNodes (nodup_body ..)
  · intro id inner
    rw [hnode]
    refine and_congr_right fun _ => exists_congr fun node => and_congr_right fun _ => ?_
    obtain ⟨function, next, defaults⟩ := inner
    simp only [Node.mk.injEq]
    tauto
  · refine Option.eq_none_iff_forall_not_mem.2 fun inner hinner => ?_
    exact (mem_body.1 ((hnode site inner).1 hinner).1).ne_site rfl
  · intro id inner hinner edge hedge
    obtain ⟨hid, node, houter, rfl⟩ := (hnode id inner).1 hinner
    obtain ⟨hnext, hne⟩ := List.mem_filter.1 hedge
    -- What a body node leads to is reached as well.
    refine mem_body.2 ((mem_body.1 hid).next (mem_edgesOf.2 ⟨node, houter, hnext⟩) ?_)
    simpa using hne
  · rw [hseed]
    exact frames.toList_restrict _
  · intro id
    rw [hseed]
    exact frames.get?_restrict _ id

/-- **Callback bodies are cut out exactly.** Whatever the program, its call site and the signature
there, the walk from the edges that carry callback inputs ends. The body is what it has visited:
each id once that can be reached from these edges without passing through the call site. Its exits
are the ids with an edge back, each once. If the extraction succeeds, it uses up the body, and every
closure is cut out of it. -/
theorem body_cut (p : Program) (site : String) (signature : Signature) (frames : FrameQueue) :
    let feeding := feedingEdges p site signature
    let ids := body p site feeding
    (∀ edge, edge ∈ feeding ↔ edge ∈ edgesOf p site ∧ ∃ name callback,
        signature.callbacks.get? name = some callback ∧
          edge.fromKey ∈ Param.names callback.input) ∧
      (∀ final, Walks p site [] (discover site [] feeding) final ↔ final = ids) ∧
      ids.Nodup ∧ (∀ id, id ∈ ids ↔ Reach p site feeding id) ∧
      (exits p site ids).Nodup ∧
      (∀ id, id ∈ exits p site ids ↔ id ∈ ids ∧ ∃ edge ∈ edgesOf p id, edge.target = site) ∧
      ∀ extraction, extract p site signature frames = .ok extraction →
        extraction.consumed = ids ∧ ∀ name closure,
          extraction.closures.get? name = some closure → Cut p site ids frames closure := by
  intro feeding ids
  have hnodup : ids.Nodup := nodup_body p site feeding
  refine ⟨fun edge => mem_feedingEdges, fun final => walks_iff, hnodup, fun id => mem_body,
    hnodup.filter _, fun id => mem_exits, fun extraction h => ⟨consumed_eq_body h, ?_⟩⟩
  intro name closure hclosure
  exact cut_of_extract h hclosure

/-- A body that turns in circles, with an id that is no node. The call site also feeds itself. -/
def whirl : Program where
  input := []
  output := []
  nodes := .ofList [
    ("site", ⟨"each", [⟨"site", "item", "arr"⟩, ⟨"turn", "item", "condition"⟩], .empty⟩),
    ("turn", ⟨"pick", [⟨"back", "data", "condition"⟩, ⟨"gone", "data", "key"⟩], .empty⟩),
    ("back", ⟨"pick", [⟨"turn", "data", "true"⟩, ⟨"site", "data", "callback"⟩], .empty⟩)]

/-- What is cut out of it: three ids are visited, two are nodes, and one has an edge back. Of the
frames in line, the one of the call site stays behind. -/
theorem body_cut_whirl :
    let callback : CallbackSignature := ⟨[⟨"item", .bool⟩], [⟨"callback", .bool⟩]⟩
    let signature : Signature := ⟨[], [], .ofList [("cb", callback)]⟩
    let frames := ((FrameQueue.empty.ensure "gone").ensure "site").ensure "back"
    ∃ extraction closure, extract whirl "site" signature frames = .ok extraction ∧
      extraction.closures.get? "cb" = some closure ∧
      extraction.consumed = ["turn", "back", "gone"] ∧
      exits whirl "site" extraction.consumed = ["back"] ∧
      closure.program.ids = ["turn", "back"] ∧
      closure.seed.toList = [("gone", .empty), ("back", .empty)] := by
  intro callback signature frames
  obtain ⟨-, -, -, -, -, -, hextract⟩ := body_cut whirl "site" signature frames
  have hfound : (match extract whirl "site" signature frames with
      | .ok extraction => extraction.closures.contains "cb"
      | .error _ => false) = true := by decide +kernel
  cases h : extract whirl "site" signature frames with
  | error error => simp [h] at hfound
  | ok extraction =>
    rw [h] at hfound
    obtain ⟨closure, hclosure⟩ := Record.contains_eq_true.1 hfound
    obtain ⟨hconsumed, hcut⟩ := hextract extraction h
    have hbody : body whirl "site" (feedingEdges whirl "site" signature) =
      ["turn", "back", "gone"] := by decide +kernel
    rw [hbody] at hconsumed hcut
    refine ⟨extraction, closure, rfl, hclosure, hconsumed, ?_, ?_, ?_⟩
    · rw [hconsumed]
      decide +kernel
    · rw [(hcut "cb" closure hclosure).ids_eq]
      decide +kernel
    · rw [(hcut "cb" closure hclosure).toList_seed]
      decide +kernel

end Callback

end Dataflow
