/-
The cycle lint is exact.

A node that is stuck has a stuck node before it. As there are finitely many nodes, going back from
one stuck node to the next comes to the same node twice, and so every stuck node lies on a cycle or
behind one. The other way round, a node that is peeled off has a rank, and ranks grow along edges:
there is no cycle before it.

The lint counts down how many edges still arrive at each node. It is followed edge by edge here: no
count ever falls below zero, and no node joins the line twice.

* `Program.DataEdge` — one node gives data to another;
* `Program.OnCycle`, `Program.Behind` — nodes on data cycles, and nodes that these lead to;
* `Cycle.mem_stuck` — the stuck nodes are those on cycles and behind them;
* `Cycle.Peeling.Passes` — all states that peeling passes through;
* `Program.cycles_exact` — the lint of every program.
-/
import Mathlib
import Dataflow.Proofs.Cycle
import Dataflow.Proofs.Validation
namespace Dataflow

open Relation

/-! ### Stuck nodes -/

namespace Cycle

variable {ids : List String} {edges : List (String × String)}

/-- Two nodes are joined by an edge of the list. -/
def Joined (edges : List (String × String)) (source target : String) : Prop :=
  (source, target) ∈ edges

/-- Where every member has another one before it, each lies on a cycle or behind one. -/
theorem exists_cycle {members : List String}
    (h : ∀ id ∈ members, ∃ e ∈ edges, e.2 = id ∧ e.1 ∈ members) {id : String}
    (hid : id ∈ members) :
    ∃ origin, TransGen (Joined edges) origin origin ∧ ReflTransGen (Joined edges) origin id := by
  have hback : ∀ x : { id // id ∈ members }, ∃ y : { id // id ∈ members },
      Joined edges y.1 x.1 := by
    rintro ⟨target, htarget⟩
    obtain ⟨e, he, rfl, hsource⟩ := h target htarget
    exact ⟨⟨e.1, hsource⟩, he⟩
  choose back hjoined using hback
  -- The way back from `id`, member by member.
  let way : Nat → String := fun n => (back^[n] ⟨id, hid⟩).1
  have hstep : ∀ n, TransGen (Joined edges) (way (n + 1)) (way n) := by
    intro n
    show TransGen (Joined edges) (back^[n + 1] ⟨id, hid⟩).1 _
    rw [Function.iterate_succ_apply']
    exact .single (hjoined _)
  have : IsTrans String fun a b => TransGen (Joined edges) b a :=
    ⟨fun _ _ _ hab hbc => hbc.trans hab⟩
  have hway : ∀ m n, m < n → TransGen (Joined edges) (way n) (way m) := fun m n hmn =>
    Nat.rel_of_forall_rel_succ_of_lt (fun a b => TransGen (Joined edges) b a) hstep hmn
  have hcycle : ∀ m n, m < n → way m = way n → ∃ origin,
      TransGen (Joined edges) origin origin ∧ ReflTransGen (Joined edges) origin id := by
    intro m n hmn heq
    have hround := hway m n hmn
    rw [← heq] at hround
    refine ⟨way m, hround, ?_⟩
    rcases Nat.eq_zero_or_pos m with rfl | hm
    · exact .refl
    · exact (hway 0 m hm).to_reflTransGen
  obtain ⟨m, n, hne, heq⟩ :=
    Finite.exists_ne_map_eq_of_infinite fun n => back^[n] ⟨id, hid⟩
  rcases Nat.lt_or_gt_of_ne hne with hlt | hlt
  · exact hcycle m n hlt (congrArg Subtype.val heq)
  · exact hcycle n m hlt (congrArg Subtype.val heq.symm)

/-- **The stuck nodes are those on cycles and behind them.** -/
theorem mem_stuck (hids : ids.Nodup) (hedges : ∀ e ∈ edges, e.1 ∈ ids ∧ e.2 ∈ ids) {id : String} :
    id ∈ stuck ids edges ↔ ∃ origin, TransGen (Joined edges) origin origin ∧
      ReflTransGen (Joined edges) origin id := by
  constructor
  · obtain ⟨-, -, -, -, hstuck⟩ := exists_order hids hedges
    exact exists_cycle hstuck
  · rintro ⟨origin, hcycle, hpath⟩
    obtain ⟨rank, -, hrank⟩ := exists_rank hids hedges
    -- What is before a node that is not stuck is not stuck either, and has a lower rank.
    have hfree : ∀ {a b}, ReflTransGen (Joined edges) a b → b ∉ stuck ids edges →
        a ∉ stuck ids edges := by
      intro a b hab hb
      induction hab using ReflTransGen.head_induction_on with
      | refl => exact hb
      | head hjoined _ ih => exact (hrank _ hjoined ih).1
    have hless : ∀ {a b}, TransGen (Joined edges) a b → b ∉ stuck ids edges → rank a < rank b := by
      intro a b hab hb
      induction hab using TransGen.head_induction_on with
      | single hjoined => exact (hrank _ hjoined hb).2
      | head hjoined hrest ih =>
        exact lt_trans (hrank _ hjoined (hfree hrest.to_reflTransGen hb)).2 ih
    by_contra hid
    exact lt_irrefl _ (hless hcycle (hfree hpath hid))

/-! ### Edge by edge -/

namespace Peeling

/-- The states that peeling passes through, edge by edge. The nodes in `taken` were taken from the
line, and `todo` are the edges of the last one that have not been taken away yet. -/
inductive Passes (ids : List String) (edges : List (String × String)) :
    (taken : List String) → (todo : List (String × String)) → Peeling → Prop where
  | start : Passes ids edges [] [] (.start ids edges)
  | take {taken : List String} {degrees : Record Int} {id : String} {line : List String} :
    Passes ids edges taken [] ⟨degrees, id :: line⟩ →
    Passes ids edges (taken ++ [id]) (edges.filter fun e => e.1 = id) ⟨degrees, line⟩
  | release {taken : List String} {e : String × String} {todo : List (String × String)}
    {s : Peeling} : Passes ids edges taken (e :: todo) s →
    Passes ids edges taken todo (s.release e.2)

namespace Passes

variable {taken : List String} {todo : List (String × String)} {s : Peeling}

/-- Peeling off one node after the other is peeling edge by edge. -/
theorem run (h : Passes ids edges taken [] s) (fuel : Nat) :
    ∃ taken', Passes ids edges taken' [] (Peeling.run edges fuel s) := by
  have hfold : ∀ (todo : List (String × String)) {taken : List String} {s : Peeling},
      Passes ids edges taken todo s →
      Passes ids edges taken [] (todo.foldl (fun s e => s.release e.2) s) := by
    intro todo
    induction todo with
    | nil => exact fun h => h
    | cons e rest ih => exact fun h => ih h.release
  induction fuel generalizing taken s with
  | zero => exact ⟨taken, h⟩
  | succ fuel ih =>
    obtain ⟨degrees, line⟩ := s
    cases line with
    | nil => exact ⟨taken, h⟩
    | cons id line => exact ih (hfold _ h.take)

/-- What holds while nodes are peeled off holds between any two edges. -/
theorem inv (hids : ids.Nodup) (hedges : ∀ e ∈ edges, e.2 ∈ ids)
    (h : Passes ids edges taken todo s) : Inv ids edges taken todo s ∧ ∀ e ∈ todo, e ∈ edges := by
  induction h with
  | start => exact ⟨.start hids, by simp⟩
  | take _ ih => exact ⟨ih.1.begin, fun e he => List.mem_of_mem_filter he⟩
  | @release _ e _ _ _ ih =>
    exact ⟨ih.1.release (hedges e (ih.2 e (List.mem_cons_self ..))),
      fun f hf => ih.2 f (List.mem_cons_of_mem e hf)⟩

/-- Only the arrivals at nodes are counted. -/
theorem mem_ids (h : Passes ids edges taken todo s) {id : String} {degree : Int}
    (hdegree : s.degrees.get? id = some degree) : id ∈ ids := by
  induction h generalizing degree with
  | start =>
    by_contra hid
    rw [Peeling.start, get?_arrivals, if_neg hid] at hdegree
    cases hdegree
  | take _ ih => exact ih hdegree
  | @release _ e _ s _ ih =>
    rw [Peeling.release] at hdegree
    split at hdegree
    · exact ih hdegree
    · rename_i old hold
      rw [Record.get?_insert] at hdegree
      split at hdegree
      · rename_i heq
        rw [heq] at ih
        exact heq ▸ ih hold
      · exact ih hdegree

/-- **No count falls below zero, and no node joins the line twice.** -/
theorem counts (hids : ids.Nodup) (hedges : ∀ e ∈ edges, e.2 ∈ ids)
    (h : Passes ids edges taken todo s) :
    (∀ id degree, s.degrees.get? id = some degree → 0 ≤ degree) ∧ (taken ++ s.line).Nodup := by
  obtain ⟨hinv, -⟩ := h.inv hids hedges
  refine ⟨fun id degree hdegree => ?_, hinv.nodup⟩
  have hcount := hinv.degree id (h.mem_ids hdegree)
  rw [hdegree, Option.some.injEq] at hcount
  omega

end Passes

end Peeling

end Cycle

/-! ### Programs -/

namespace Program

/-- One node gives data to another: an edge leads from it to the other, which exists. The edge does
not leave from a callback input and does not arrive at a callback output; a node whose function is
not known has neither. -/
def DataEdge (p : Program) (c : Catalog) (source target : String) : Prop :=
  ∃ giver edge taker, p.node? source = some giver ∧ edge ∈ giver.next ∧ edge.target = target ∧
    p.node? target = some taker ∧
    (∀ entry, c.get? giver.function = some entry →
      ∀ name callback, entry.signature.callbacks.get? name = some callback →
        edge.fromKey ∉ Param.names callback.input) ∧
    ∀ entry, c.get? taker.function = some entry →
      ∀ name callback, entry.signature.callbacks.get? name = some callback →
        edge.toKey ∉ Param.names callback.output

/-- The node lies on a cycle of data edges. -/
def OnCycle (p : Program) (c : Catalog) (id : String) : Prop := TransGen (p.DataEdge c) id id

/-- The node lies on a cycle of data edges or can be reached from one. -/
def Behind (p : Program) (c : Catalog) (id : String) : Prop :=
  ∃ origin, p.OnCycle c origin ∧ ReflTransGen (p.DataEdge c) origin id

variable {p : Program} {c : Catalog} {id : String} {node : Node}

/-- What is asked of the signature of a node is asked of its function, if that is known. -/
theorem any_signatureOf? (hnode : p.node? id = some node) (has : Signature → Bool) :
    ((Validation.signatureOf? p c id).any fun found => has found.2) = false ↔
      ∀ entry, c.get? node.function = some entry → has entry.signature = false := by
  rw [Validation.signatureOf?, hnode]
  simp only [Option.bind_eq_bind, Option.bind_some, Catalog.signature?]
  cases c.get? node.function with
  | none => simp
  | some entry => simp

theorem isDataEdge_iff {giver taker : Node} {source : String} {edge : Edge}
    (hgiver : p.node? source = some giver) (htaker : p.node? edge.target = some taker) :
    Cycle.isDataEdge p c source edge = true ↔
      (∀ entry, c.get? giver.function = some entry →
        entry.signature.hasCallbackInput edge.fromKey = false) ∧
      ∀ entry, c.get? taker.function = some entry →
        entry.signature.hasCallbackOutput edge.toKey = false := by
  rw [Cycle.isDataEdge, htaker]
  simp only [Option.isSome_some, Bool.and_true, Bool.and_eq_true, Bool.not_eq_true']
  rw [any_signatureOf? hgiver fun s => s.hasCallbackInput edge.fromKey,
    any_signatureOf? htaker fun s => s.hasCallbackOutput edge.toKey]

/-- The lint looks at the data edges and at no others. -/
theorem mem_dataEdges {source target : String} :
    (source, target) ∈ Cycle.dataEdges p c ↔ p.DataEdge c source target := by
  rw [Cycle.dataEdges, List.mem_filterMap]
  constructor
  · rintro ⟨⟨source', i, edge⟩, hedge, hdata⟩
    obtain ⟨giver, hgiver, hnext⟩ := mem_edges hedge
    simp only [Option.ite_none_right_eq_some, Option.some.injEq, Prod.mk.injEq] at hdata
    obtain ⟨hdata, rfl, rfl⟩ := hdata
    obtain ⟨taker, htaker⟩ : ∃ taker, p.node? edge.target = some taker := by
      rw [Cycle.isDataEdge, Bool.and_eq_true] at hdata
      exact Option.isSome_iff_exists.1 hdata.2
    obtain ⟨hleaves, harrives⟩ := (isDataEdge_iff hgiver htaker).1 hdata
    refine ⟨giver, edge, taker, hgiver, hnext, rfl, htaker, ?_, ?_⟩
    · intro entry hentry name callback hcallback hkey
      have hhas := Signature.hasCallbackInput_iff.2 ⟨name, callback, hcallback, hkey⟩
      rw [hleaves entry hentry] at hhas
      cases hhas
    · intro entry hentry name callback hcallback hkey
      have hhas := Signature.hasCallbackOutput_iff.2 ⟨name, callback, hcallback, hkey⟩
      rw [harrives entry hentry] at hhas
      cases hhas
  · rintro ⟨giver, edge, taker, hgiver, hnext, rfl, htaker, hleaves, harrives⟩
    obtain ⟨i, hedge⟩ := exists_mem_edges hgiver hnext
    refine ⟨(source, i, edge), hedge, if_pos ((isDataEdge_iff hgiver htaker).2 ⟨?_, ?_⟩)⟩
    · intro entry hentry
      rw [← Bool.not_eq_true, Signature.hasCallbackInput_iff]
      rintro ⟨name, callback, hcallback, hkey⟩
      exact hleaves entry hentry name callback hcallback hkey
    · intro entry hentry
      rw [← Bool.not_eq_true, Signature.hasCallbackOutput_iff]
      rintro ⟨name, callback, hcallback, hkey⟩
      exact harrives entry hentry name callback hcallback hkey

/-- **The cycle lint is exact.** It says nothing if and only if no node lies on a data cycle, and
otherwise it names the nodes on data cycles and behind them, each once and in written order. While
it works, no count falls below zero and no node joins the line twice, and it goes on until nobody is
left in line. -/
theorem cycles_exact (p : Program) (c : Catalog) :
    let edges := Cycle.dataEdges p c
    let final := Cycle.Peeling.run edges p.ids.length (.start p.ids edges)
    (p.cycles c = [] ↔ ∀ id, ¬p.OnCycle c id) ∧
      (∃ ids : List String, ids.Sublist p.ids ∧ ids.Nodup ∧ (∀ id, id ∈ ids ↔ p.Behind c id) ∧
        p.cycles c = if ids = [] then [] else [⟨.cycleDetected ids, ["data"]⟩]) ∧
      (∀ source target, (source, target) ∈ edges ↔ p.DataEdge c source target) ∧
      (∀ taken todo s, Cycle.Peeling.Passes p.ids edges taken todo s →
        (∀ id degree, s.degrees.get? id = some degree → 0 ≤ degree) ∧ (taken ++ s.line).Nodup) ∧
      (∃ taken, Cycle.Peeling.Passes p.ids edges taken [] final) ∧ final.line = [] := by
  intro edges final
  have hids : p.ids.Nodup := p.nodes.distinct
  have hedges : ∀ e ∈ edges, e.1 ∈ p.ids ∧ e.2 ∈ p.ids := fun e he => mem_ids_of_dataEdge he
  have hjoined : Cycle.Joined edges = p.DataEdge c := by
    funext source target
    exact propext mem_dataEdges
  have hmem : ∀ id, id ∈ Cycle.stuck p.ids edges ↔ p.Behind c id := by
    intro id
    rw [Cycle.mem_stuck hids hedges, hjoined]
    rfl
  have hcycles : p.cycles c = if Cycle.stuck p.ids edges = [] then []
      else [⟨.cycleDetected (Cycle.stuck p.ids edges), ["data"]⟩] := by
    rw [cycles]
    simp only [List.isEmpty_iff]
    rfl
  have hsub : (Cycle.stuck p.ids edges).Sublist p.ids := List.filter_sublist
  refine ⟨?_, ⟨_, hsub, hids.sublist hsub, hmem, hcycles⟩, fun source target => mem_dataEdges,
    fun taken todo s h => h.counts hids fun e he => (hedges e he).2,
    Cycle.Peeling.Passes.start.run p.ids.length,
    (Cycle.Peeling.Inv.finish hids fun e he => (hedges e he).2).2⟩
  constructor
  · intro h id hcycle
    -- A node on a cycle is stuck.
    have hstuck := (hmem id).2 ⟨id, hcycle, .refl⟩
    rw [hcycles] at h
    split at h
    · rename_i hnil
      rw [hnil] at hstuck
      cases hstuck
    · cases h
  · intro h
    have hnil : Cycle.stuck p.ids edges = [] := by
      refine List.eq_nil_iff_forall_not_mem.2 fun id hid => ?_
      obtain ⟨origin, hcycle, -⟩ := (hmem id).1 hid
      exact h origin hcycle
    rw [hcycles, if_pos hnil]

end Program

end Dataflow
