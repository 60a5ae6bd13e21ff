/-
Callbacks inside of callbacks.

A call site can itself lie in the body of a callback. Its own callbacks are then cut out of a
program that has been cut out before, in which the rest of the outer program is missing, and with it
the edges that led back to the outer call site. Nothing is lost by that: what the inner callbacks
reach lies in the outer body, because that is closed under all edges but those. So the inner
extraction is the one that could be made in the whole program if only these edges were taken away.

* `Callback.Agree` — programs with the same nodes on ids that no edge leaves;
* `Callback.Agree.body_eq`, `Callback.Agree.extract_eq` — they agree on what is cut out there;
* `Program.avoiding` — a program without the edges to one of its ids;
* `Callback.ReachPast` — the ids that can be reached without passing through several sites;
* `Callback.extract_nested` — extractions inside of extractions.
-/
import Mathlib
import Dataflow.Proofs.Cutting
namespace Dataflow

/-! ### Programs that agree -/

namespace Callback

variable {p q : Program} {Inside : String → Prop} {site : String} {feeding : List Edge}
  {visited line final : List String}

/-- On the ids inside the programs have the same nodes, and no edge leads out of them. -/
structure Agree (p q : Program) (Inside : String → Prop) : Prop where
  node? : ∀ id, Inside id → p.node? id = q.node? id
  closed : ∀ id, Inside id → ∀ edge ∈ edgesOf q id, Inside edge.target

namespace Agree

/-- A walk that starts inside stays inside, so it takes the same way in both programs. -/
theorem walks (h : Agree p q Inside) (hwalks : Walks q site visited line final)
    (hline : ∀ id ∈ line, Inside id) : Walks p site visited line final := by
  induction hwalks with
  | done => exact .done
  | @visit visited line final id _ ih =>
    have hid : Inside id := hline id (List.mem_cons_self ..)
    refine .visit ?_
    -- What is discovered behind an id inside is the same in both, and inside as well.
    rw [edgesOf_congr (h.node? id hid)]
    refine ih fun other hother => ?_
    rcases List.mem_append.1 hother with hother | hother
    · exact hline other (List.mem_cons_of_mem id hother)
    · obtain ⟨-, -, edge, hedge, rfl⟩ := mem_discover.1 hother
      exact h.closed id hid edge hedge

theorem body_eq (h : Agree p q Inside) (hfeeding : ∀ edge ∈ feeding, Inside edge.target) :
    body p site feeding = body q site feeding := by
  refine (walks_iff.1 (h.walks (walks_body q site feeding) fun id hid => ?_)).symm
  obtain ⟨-, -, edge, hedge, rfl⟩ := mem_discover.1 hid
  exact hfeeding edge hedge

/-- What can be reached from inside is inside. -/
theorem inside (h : Agree p q Inside) (hfeeding : ∀ edge ∈ feeding, Inside edge.target)
    {id : String} (hid : id ∈ body q site feeding) : Inside id := by
  rw [mem_body] at hid
  induction hid with
  | entry hedge _ => exact hfeeding _ hedge
  | next _ hedge _ ih => exact h.closed _ ih _ hedge

private theorem feeding_inside (h : Agree p q Inside) (hsite : Inside site) {signature : Signature}
    {edge : Edge} (hedge : edge ∈ feedingEdges q site signature) : Inside edge.target :=
  h.closed site hsite edge (mem_feedingEdges.1 hedge).1

private theorem feedingEdges_eq (h : Agree p q Inside) (hsite : Inside site)
    (signature : Signature) :
    feedingEdges p site signature = feedingEdges q site signature := by
  rw [feedingEdges, feedingEdges, edgesOf_congr (h.node? site hsite)]

/-- **From a call site inside the same is cut out of both programs.** -/
theorem extract_eq (h : Agree p q Inside) (hsite : Inside site) (signature : Signature)
    (frames : FrameQueue) : extract p site signature frames = extract q site signature frames := by
  have hfeeding : ∀ edge ∈ feedingEdges q site signature, Inside edge.target :=
    fun edge hedge => h.feeding_inside hsite hedge
  exact extract_congr (h.node? site hsite) (h.body_eq hfeeding)
    (fun id hid => h.node? id (h.inside hfeeding hid)) frames

end Agree

end Callback

/-! ### Edges taken away -/

/-- The node without its edges to `target`. -/
def Node.avoiding (node : Node) (target : String) : Node :=
  { node with next := node.next.filter fun edge => edge.target ≠ target }

/-- The program without its edges to `target`. -/
def Program.avoiding (p : Program) (target : String) : Program :=
  { p with nodes := p.nodes.update fun _ node => node.avoiding target }

private theorem Program.node?_avoiding (p : Program) (target id : String) :
    (p.avoiding target).node? id = (p.node? id).map fun node => node.avoiding target :=
  Table.get?_update ..

namespace Callback

variable {p : Program} {outer inner name id : String} {signature called : Signature}
  {frames : FrameQueue} {extraction : Extraction} {closure : Closure}

private theorem edgesOf_avoiding (p : Program) (target id : String) :
    edgesOf (p.avoiding target) id = (edgesOf p id).filter fun edge => edge.target ≠ target := by
  rw [edgesOf, edgesOf, Program.node?_avoiding]
  cases p.node? id with
  | none => rfl
  | some node => rfl

private theorem mem_edgesOf_avoiding {target : String} {edge : Edge} :
    edge ∈ edgesOf (p.avoiding target) id ↔ edge ∈ edgesOf p id ∧ edge.target ≠ target := by
  rw [edgesOf_avoiding, List.mem_filter]
  simp

/-- **A program that is cut out agrees with the program around it**, up to the edges that lead back
to the call site. -/
theorem agree_of_extract (h : extract p outer signature frames = .ok extraction)
    (hclosure : extraction.closures.get? name = some closure) :
    Agree closure.program (p.avoiding outer) (· ∈ p.bodyOf outer signature) := by
  obtain ⟨-, -, hnodes, -⟩ := closure_of_extract h hclosure
  constructor
  · intro id hid
    rw [Program.node?, hnodes, Program.node?_avoiding]
    refine Option.ext fun node => ?_
    rw [node?_bodyNodes, Option.map_eq_some_iff, and_iff_right hid]
    exact exists_congr fun original => and_congr_right fun _ => eq_comm
  · intro id hid edge hedge
    obtain ⟨hedge, hne⟩ := mem_edgesOf_avoiding.1 hedge
    exact mem_body.2 ((mem_body.1 hid).next hedge hne)

/-- The ids that can be reached from the targets of `feeding` without passing through any of the
sites. -/
inductive ReachPast (p : Program) (sites : List String) (feeding : List Edge) : String → Prop where
  | entry {edge : Edge} : edge ∈ feeding → edge.target ∉ sites →
    ReachPast p sites feeding edge.target
  | next {id : String} {edge : Edge} : ReachPast p sites feeding id → edge ∈ edgesOf p id →
    edge.target ∉ sites → ReachPast p sites feeding edge.target

/-- Without the edges to an id, nothing passes through it. -/
theorem reach_avoiding_iff :
    Reach (p.avoiding outer) inner (feedingEdges (p.avoiding outer) inner called) id ↔
      ReachPast p [outer, inner] (feedingEdges p inner called) id := by
  have hfeeding : ∀ edge, edge ∈ feedingEdges (p.avoiding outer) inner called ↔
      edge ∈ feedingEdges p inner called ∧ edge.target ≠ outer := by
    intro edge
    rw [mem_feedingEdges, mem_feedingEdges, mem_edgesOf_avoiding, and_right_comm]
  constructor
  · intro h
    induction h with
    | entry hedge hne =>
      obtain ⟨hedge, houter⟩ := (hfeeding _).1 hedge
      exact .entry hedge (by simp [houter, hne])
    | next _ hedge hne ih =>
      obtain ⟨hedge, houter⟩ := mem_edgesOf_avoiding.1 hedge
      exact .next ih hedge (by simp [houter, hne])
  · intro h
    induction h with
    | entry hedge hne =>
      simp only [List.mem_cons, List.not_mem_nil, or_false, not_or] at hne
      exact .entry ((hfeeding _).2 ⟨hedge, hne.1⟩) hne.2
    | next _ hedge hne ih =>
      simp only [List.mem_cons, List.not_mem_nil, or_false, not_or] at hne
      exact .next ih (mem_edgesOf_avoiding.2 ⟨hedge, hne.1⟩) hne.2

/-- **Extractions inside of extractions.** Let a call site lie in the body of another one. Its body
in the program that is cut out there is the body in the whole program without the edges to the outer
call site, id by id in the same order, and so are its exits. It lists what can be reached in the
whole program past both call sites. All of it is there, node by node with all edges but those. So
the same closures are cut out, whatever frames wait. -/
theorem extract_nested (h : extract p outer signature frames = .ok extraction)
    (hclosure : extraction.closures.get? name = some closure)
    (hinner : inner ∈ p.bodyOf outer signature) (called : Signature) :
    let nested := closure.program
    let whole := p.avoiding outer
    let ids := nested.bodyOf inner called
    ids = whole.bodyOf inner called ∧
      exits nested inner ids = exits whole inner (whole.bodyOf inner called) ∧
      (∀ id, id ∈ ids ↔ ReachPast p [outer, inner] (feedingEdges p inner called) id) ∧
      (∀ id, id ∈ exits nested inner ids ↔
        id ∈ ids ∧ ∃ edge ∈ edgesOf p id, edge.target = inner) ∧
      (∀ id ∈ ids, nested.node? id = (p.node? id).map fun node => node.avoiding outer) ∧
      ∀ waiting, extract nested inner called waiting = extract whole inner called waiting := by
  intro nested whole ids
  have hagree : Agree nested whole (· ∈ p.bodyOf outer signature) := agree_of_extract h hclosure
  have hfeeding : ∀ edge ∈ feedingEdges whole inner called,
      edge.target ∈ p.bodyOf outer signature :=
    fun edge hedge => hagree.feeding_inside hinner hedge
  have hids : ids = whole.bodyOf inner called := by
    show nested.bodyOf inner called = _
    rw [Program.bodyOf, hagree.feedingEdges_eq hinner, hagree.body_eq hfeeding, Program.bodyOf]
  have hnode : ∀ id ∈ ids, nested.node? id = whole.node? id :=
    fun id hid => hagree.node? id (hagree.inside hfeeding (hids ▸ hid))
  have hne : inner ≠ outer := (mem_body.1 hinner).ne_site
  refine ⟨hids, ?_, fun id => ?_, fun id => ?_, fun id hid => ?_,
    hagree.extract_eq hinner called⟩
  · rw [← hids]
    exact exits_congr hnode
  · rw [hids, Program.bodyOf, mem_body, reach_avoiding_iff]
  · rw [exits_congr hnode, mem_exits]
    refine and_congr_right fun _ => exists_congr fun edge => ?_
    rw [mem_edgesOf_avoiding]
    constructor
    · rintro ⟨hedge, htarget⟩
      exact ⟨hedge.1, htarget⟩
    · rintro ⟨hedge, htarget⟩
      -- An edge to the inner call site does not lead to the outer one.
      exact ⟨⟨hedge, htarget ▸ hne⟩, htarget⟩
  · rw [hnode id hid]
    exact p.node?_avoiding outer id

/-- Rows of cells: the callback of `rows` calls `cells`, whose callback is made of `pick` and
`mark`. From `pick` an edge leads out to `rows`. -/
def grid : Program where
  input := []
  output := []
  nodes := .ofList [
    ("rows", ⟨"each", [⟨"cells", "item", "arr"⟩], .empty⟩),
    ("cells", ⟨"each", [⟨"pick", "item", "condition"⟩, ⟨"rows", "arr", "callback"⟩], .empty⟩),
    ("pick", ⟨"pick", [⟨"rows", "data", "arr"⟩, ⟨"mark", "data", "true"⟩], .empty⟩),
    ("mark", ⟨"pick", [⟨"pick", "data", "true"⟩, ⟨"cells", "data", "callback"⟩], .empty⟩)]

/-- Seen from `cells` alone, its callback would lead through `rows`. In the callback of `rows` it
does not. -/
theorem extract_nested_grid :
    let callback : CallbackSignature := ⟨[⟨"item", .bool⟩], [⟨"callback", .bool⟩]⟩
    let each : Signature := ⟨[], [], .ofList [("cb", callback)]⟩
    ∃ extraction closure, extract grid "rows" each .empty = .ok extraction ∧
      extraction.closures.get? "cb" = some closure ∧
      "cells" ∈ grid.bodyOf "rows" each ∧
      grid.bodyOf "cells" each = ["pick", "rows", "mark"] ∧
      closure.program.bodyOf "cells" each = ["pick", "mark"] ∧
      exits closure.program "cells" ["pick", "mark"] = ["mark"] := by
  intro callback each
  have hcells : "cells" ∈ grid.bodyOf "rows" each := by decide +kernel
  have hfound : (match extract grid "rows" each .empty with
      | .ok extraction => extraction.closures.contains "cb"
      | .error _ => false) = true := by decide +kernel
  cases h : extract grid "rows" each .empty with
  | error error => simp [h] at hfound
  | ok extraction =>
    rw [h] at hfound
    obtain ⟨closure, hclosure⟩ := Record.contains_eq_true.1 hfound
    obtain ⟨hids, hexits, -⟩ := extract_nested h hclosure hcells each
    have hwhole : (grid.avoiding "rows").bodyOf "cells" each = ["pick", "mark"] := by
      decide +kernel
    rw [hwhole] at hids hexits
    refine ⟨extraction, closure, rfl, hclosure, hcells, by decide +kernel, hids, ?_⟩
    rw [hids] at hexits
    rw [hexits]
    decide +kernel

end Callback

end Dataflow
