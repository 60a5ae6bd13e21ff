/-
Peeling nodes off a graph gives an order of the nodes.

While nodes are peeled off, the degree of a node is the number of edges that still arrive at it, and
the nodes in line are those at which none does. A node joins the line after all its sources, so the
nodes that are peeled off come in an order in which edges lead forward. The others are stuck behind
each other.

* `Cycle.Peeling.Inv` — what holds while nodes are peeled off, with the nodes done so far;
* `Cycle.exists_order` — the nodes that are not stuck, in an order that respects the edges;
* `Cycle.exists_rank` — an edge to one of these leads from lower to higher rank;
* `Program.exists_rank` — without cycles, data edges lead from lower to higher rank.
-/
import Mathlib
import Dataflow.Diagnostic.Cycle
import Dataflow.Proofs.Record
namespace Dataflow

namespace Cycle

namespace Peeling

variable {ids : List String} {edges todo : List (String × String)} {done : List String}
  {s : Peeling}

/-- The number of edges that arrive at a node from nodes that are not done, and of those among
`todo`, which are the edges of the node being peeled off that have not been taken away yet. -/
def waiting (edges : List (String × String)) (done : List String)
    (todo : List (String × String)) (id : String) : Nat :=
  (edges.filter fun e => e.1 ∉ done ∧ e.2 = id).length + (todo.filter fun e => e.2 = id).length

/-- What holds while nodes are peeled off; `done` are the nodes taken from the line so far. -/
structure Inv (ids : List String) (edges : List (String × String)) (done : List String)
    (todo : List (String × String)) (s : Peeling) : Prop where
  nodup : (done ++ s.line).Nodup
  subset : ∀ id ∈ done ++ s.line, id ∈ ids
  degree : ∀ id ∈ ids, s.degrees.get? id = some (waiting edges done todo id : Int)
  free : ∀ id ∈ ids, id ∈ done ++ s.line ↔ waiting edges done todo id = 0
  sources : ∀ before id after, done ++ s.line = before ++ id :: after →
    ∀ e ∈ edges, e.2 = id → e.1 ∈ before

private theorem waiting_nil (id : String) :
    waiting edges done [] id = (edges.filter fun e => e.1 ∉ done ∧ e.2 = id).length := rfl

private theorem waiting_cons (e : String × String) (id : String) :
    waiting edges done (e :: todo) id =
      waiting edges done todo id + if e.2 = id then 1 else 0 := by
  rw [waiting, waiting, List.filter_cons]
  split <;> simp_all
  omega

/-- A node at which nothing arrives any more has all its sources done. -/
theorem source_done {id : String} (h : waiting edges done todo id = 0) {e : String × String}
    (he : e ∈ edges) (hid : e.2 = id) : e.1 ∈ done := by
  by_contra hnot
  have hmem : e ∈ edges.filter fun e => e.1 ∉ done ∧ e.2 = id :=
    List.mem_filter.2 ⟨he, by simpa using ⟨hnot, hid⟩⟩
  have hpos := List.length_pos_of_mem hmem
  rw [waiting] at h
  omega

/-! ### Steps -/

theorem get?_arrivals (ids : List String) (edges : List (String × String)) (id : String) :
    (arrivals ids edges).get? id =
      if id ∈ ids then some ((edges.filter fun e => e.2 = id).length : Int) else none := by
  have harrivals : arrivals ids edges = .ofList (ids.filterMap fun id =>
      (some ((edges.filter fun e => e.2 = id).length : Int)).map fun degree => (id, degree)) := by
    rw [arrivals]
    congr 1
    exact (congrFun List.filterMap_eq_map ids).symm
  rw [harrivals, Record.get?_ofList_filterMap]

/-- In the beginning nothing is done, and the nodes without arriving edges are in line. -/
theorem Inv.start (hids : ids.Nodup) : Inv ids edges [] [] (Peeling.start ids edges) := by
  have hline : ∀ id, id ∈ (Peeling.start ids edges).line ↔
      id ∈ ids ∧ waiting edges [] [] id = 0 := by
    intro id
    rw [Peeling.start, List.mem_filter]
    refine and_congr_right fun hid => ?_
    rw [get?_arrivals, if_pos hid, waiting_nil]
    simp
  refine ⟨hids.filter _, fun id hid => ((hline id).1 hid).1, fun id hid => ?_, fun id hid => ?_, ?_⟩
  · rw [Peeling.start, get?_arrivals, if_pos hid, waiting_nil]
    simp
  · rw [List.nil_append, hline]
    exact and_iff_right hid
  · intro before id after hsplit e he hid
    have hmem : id ∈ (Peeling.start ids edges).line := by
      rw [List.nil_append] at hsplit
      rw [hsplit]
      exact List.mem_append_right _ (List.mem_cons_self ..)
    exact absurd (source_done ((hline id).1 hmem).2 he hid) List.not_mem_nil

/-- One edge less is counted at its target, which joins the line exactly when this was the last. -/
theorem Inv.release_eq {e : String × String} (h : Inv ids edges done (e :: todo) s)
    (he : e.2 ∈ ids) :
    s.release e.2 = ⟨s.degrees.insert e.2 (waiting edges done todo e.2 : Int),
      if waiting edges done todo e.2 = 0 then s.line ++ [e.2] else s.line⟩ := by
  rw [Peeling.release, h.degree e.2 he, waiting_cons, if_pos rfl]
  simp

/-- Behind nodes in an order in which edges lead forward, a node can follow whose sources are among
them. -/
theorem sources_concat {order : List String} {last : String}
    (h : ∀ before id after, order = before ++ id :: after →
      ∀ e ∈ edges, e.2 = id → e.1 ∈ before)
    (hlast : ∀ e ∈ edges, e.2 = last → e.1 ∈ order) :
    ∀ before id after, order ++ [last] = before ++ id :: after →
      ∀ e ∈ edges, e.2 = id → e.1 ∈ before := by
  intro before id after hsplit e he hid
  rcases List.eq_nil_or_concat after with rfl | ⟨after', final, rfl⟩
  · obtain ⟨rfl, hsame⟩ := List.append_inj' hsplit rfl
    cases hsame
    exact hlast e he hid
  · have hsplit' : order ++ [last] = (before ++ id :: after') ++ [final] := by
      rw [hsplit]
      simp
    exact h before id after' (List.append_inj' hsplit' rfl).1 e he hid

/-- Taking away one edge. -/
theorem Inv.release {e : String × String} (h : Inv ids edges done (e :: todo) s)
    (he : e.2 ∈ ids) : Inv ids edges done todo (s.release e.2) := by
  have hother : ∀ id, id ≠ e.2 →
      waiting edges done (e :: todo) id = waiting edges done todo id := by
    intro id hid
    rw [waiting_cons, if_neg (Ne.symm hid)]
    omega
  -- An edge still arrives at the target, so it is neither done nor in line.
  have hnotin : e.2 ∉ done ++ s.line := by
    intro hmem
    have hnone := (h.free e.2 he).1 hmem
    rw [waiting_cons, if_pos rfl] at hnone
    omega
  have hdegrees : ∀ id ∈ ids, (s.release e.2).degrees.get? id =
      some (waiting edges done todo id : Int) := by
    intro id hid
    rw [h.release_eq he, Record.get?_insert]
    split
    · rename_i heq
      rw [heq]
    · rename_i hne
      rw [h.degree id hid, hother id hne]
  by_cases hzero : waiting edges done todo e.2 = 0
  · have hline : done ++ (s.release e.2).line = done ++ s.line ++ [e.2] := by
      rw [h.release_eq he, if_pos hzero, List.append_assoc]
    refine ⟨?_, ?_, hdegrees, ?_, ?_⟩
    · rw [hline]
      exact List.nodup_append.2 ⟨h.nodup, List.nodup_singleton _, fun a ha b hb hab =>
        hnotin (by rw [← List.mem_singleton.1 hb, ← hab]; exact ha)⟩
    · intro id hid
      rw [hline] at hid
      rcases List.mem_append.1 hid with hid | hid
      · exact h.subset id hid
      · rw [List.mem_singleton.1 hid]
        exact he
    · intro id hid
      rw [hline, List.mem_append, List.mem_singleton]
      by_cases hne : id = e.2
      · rw [hne]
        exact ⟨fun _ => hzero, fun _ => .inr rfl⟩
      · rw [h.free id hid, hother id hne]
        exact ⟨fun h => h.resolve_right hne, .inl⟩
    · rw [hline]
      exact sources_concat h.sources fun f hf hid =>
        List.mem_append_left _ (source_done hzero hf hid)
  · have hline : done ++ (s.release e.2).line = done ++ s.line := by
      rw [h.release_eq he, if_neg hzero]
    refine ⟨hline ▸ h.nodup, hline ▸ h.subset, hdegrees, ?_, hline ▸ h.sources⟩
    intro id hid
    rw [hline]
    by_cases hne : id = e.2
    · rw [hne]
      exact ⟨fun hmem => absurd hmem hnotin, fun h => absurd h hzero⟩
    · rw [h.free id hid, hother id hne]

/-- The edges into a node, split into those of one source and the others. -/
theorem waiting_begin {first : String} (hfirst : first ∉ done) (id : String) :
    waiting edges done [] id =
      waiting edges (done ++ [first]) (edges.filter fun e => e.1 = first) id := by
  rw [waiting, waiting, List.filter_nil, List.length_nil, Nat.add_zero,
    ← List.countP_eq_length_filter, ← List.countP_eq_length_filter,
    ← List.countP_eq_length_filter,
    List.countP_eq_countP_filter_add edges _ fun e => decide (e.1 = first), Nat.add_comm]
  congr 1
  · rw [List.countP_filter]
    refine List.countP_congr fun e _ => ?_
    simp only [Bool.and_eq_true, decide_eq_true_eq, Bool.not_eq_true', decide_eq_false_iff_not,
      List.mem_append, List.mem_singleton, not_or]
    exact ⟨fun h => ⟨⟨h.1.1, h.2⟩, h.1.2⟩, fun h => ⟨⟨h.1.1, h.2⟩, h.1.2⟩⟩
  · refine List.countP_congr fun e he => ?_
    have hsource : e.1 = first := by simpa using List.of_mem_filter he
    simp [hsource, hfirst]

/-- The first node of the line is taken, and its edges are to be taken away. -/
theorem Inv.begin {degrees : Record Int} {first : String} {line : List String}
    (h : Inv ids edges done [] ⟨degrees, first :: line⟩) :
    Inv ids edges (done ++ [first]) (edges.filter fun e => e.1 = first) ⟨degrees, line⟩ := by
  have hline : done ++ [first] ++ line = done ++ first :: line := by
    rw [List.append_assoc, List.singleton_append]
  have hfirst : first ∉ done := by
    intro hmem
    exact (List.nodup_append.1 h.nodup).2.2 first hmem first (List.mem_cons_self ..) rfl
  refine ⟨?_, ?_, fun id hid => ?_, fun id hid => ?_, ?_⟩
  · rw [hline]
    exact h.nodup
  · rw [hline]
    exact h.subset
  · rw [← waiting_begin hfirst]
    exact h.degree id hid
  · rw [hline, ← waiting_begin hfirst]
    exact h.free id hid
  · rw [hline]
    exact h.sources

/-- Peeling off one node. -/
theorem Inv.peel {degrees : Record Int} {first : String} {line : List String}
    (hedges : ∀ e ∈ edges, e.2 ∈ ids) (h : Inv ids edges done [] ⟨degrees, first :: line⟩) :
    Inv ids edges (done ++ [first]) [] (Peeling.peel edges ⟨degrees, line⟩ first) := by
  have hfold : ∀ (todo : List (String × String)) (s : Peeling), (∀ e ∈ todo, e.2 ∈ ids) →
      Inv ids edges (done ++ [first]) todo s →
      Inv ids edges (done ++ [first]) [] (todo.foldl (fun s e => s.release e.2) s) := by
    intro todo
    induction todo with
    | nil => exact fun s _ hs => hs
    | cons e rest ih =>
      intro s htodo hs
      exact ih _ (fun f hf => htodo f (List.mem_cons_of_mem e hf))
        (hs.release (htodo e (List.mem_cons_self ..)))
  exact hfold _ _ (fun e he => hedges e (List.mem_of_mem_filter he)) h.begin

/-- Peeling off nodes until none is in line, or for as many steps as are allowed. -/
theorem Inv.run (hedges : ∀ e ∈ edges, e.2 ∈ ids) (fuel : Nat)
    (h : Inv ids edges done [] s) :
    ∃ done', Inv ids edges done' [] (Peeling.run edges fuel s) ∧
      ((Peeling.run edges fuel s).line = [] ∨ done'.length = done.length + fuel) := by
  induction fuel generalizing done s with
  | zero => exact ⟨done, h, .inr rfl⟩
  | succ fuel ih =>
    obtain ⟨degrees, line⟩ := s
    cases line with
    | nil => exact ⟨done, h, .inl rfl⟩
    | cons first line =>
      rw [Peeling.run]
      obtain ⟨done', hinv, hend⟩ := ih (h.peel hedges)
      refine ⟨done', hinv, hend.imp_right fun hlength => ?_⟩
      rw [hlength, List.length_append, List.length_singleton]
      omega

/-- As many steps as there are nodes are enough: no node is left in line. -/
theorem Inv.finish (hids : ids.Nodup) (hedges : ∀ e ∈ edges, e.2 ∈ ids) :
    (∃ done, Inv ids edges done [] (Peeling.run edges ids.length (.start ids edges))) ∧
      (Peeling.run edges ids.length (.start ids edges)).line = [] := by
  obtain ⟨done, hinv, hend⟩ := (Inv.start hids).run hedges ids.length
  refine ⟨⟨done, hinv⟩, ?_⟩
  rcases hend with hend | hend
  · exact hend
  · -- At most all nodes are done, so the line is empty even when the steps were used up.
    have hle := (hinv.nodup.subperm hinv.subset).length_le
    rw [List.length_append, hend, List.length_nil] at hle
    exact List.eq_nil_of_length_eq_zero (by omega)

end Peeling

/-- **The nodes that are not stuck come in an order in which edges lead forward**, and into each
stuck node leads an edge from a stuck one. -/
theorem exists_order {ids : List String} {edges : List (String × String)} (hids : ids.Nodup)
    (hedges : ∀ e ∈ edges, e.1 ∈ ids ∧ e.2 ∈ ids) :
    ∃ done : List String, done.Nodup ∧
      (∀ id, id ∈ done ↔ id ∈ ids ∧ id ∉ stuck ids edges) ∧
      (∀ before id after, done = before ++ id :: after → ∀ e ∈ edges, e.2 = id → e.1 ∈ before) ∧
      ∀ id ∈ stuck ids edges, ∃ e ∈ edges, e.2 = id ∧ e.1 ∈ stuck ids edges := by
  obtain ⟨⟨done, hinv⟩, hline⟩ := Peeling.Inv.finish hids fun e he => (hedges e he).2
  have hdone := hinv.free
  have hnodup := hinv.nodup
  have hsubset := hinv.subset
  have hsources := hinv.sources
  rw [hline, List.append_nil] at hdone hnodup hsubset hsources
  have hstuck : ∀ id, id ∈ stuck ids edges ↔ id ∈ ids ∧ id ∉ done := by
    intro id
    rw [stuck, List.mem_filter]
    refine and_congr_right fun hid => ?_
    rw [hinv.degree id hid, hdone id hid]
    simp [Nat.pos_iff_ne_zero]
  refine ⟨done, hnodup, fun id => ?_, hsources, fun id hid => ?_⟩
  · rw [hstuck]
    constructor
    · intro hmem
      exact ⟨hsubset id hmem, fun h => h.2 hmem⟩
    · rintro ⟨hid, hnot⟩
      by_contra hmem
      exact hnot ⟨hid, hmem⟩
  · obtain ⟨hids', hnot⟩ := (hstuck id).1 hid
    rw [hdone id hids', Peeling.waiting_nil] at hnot
    obtain ⟨e, he⟩ := List.exists_mem_of_length_pos (Nat.pos_of_ne_zero hnot)
    obtain ⟨hmem, hprop⟩ := List.mem_filter.1 he
    simp only [decide_eq_true_eq] at hprop
    exact ⟨e, hmem, hprop.2, (hstuck _).2 ⟨(hedges e hmem).1, hprop.1⟩⟩

/-- The nodes have ranks below their number, and an edge to a node that is not stuck leads from
lower to higher rank and starts at a node that is not stuck. -/
theorem exists_rank {ids : List String} {edges : List (String × String)} (hids : ids.Nodup)
    (hedges : ∀ e ∈ edges, e.1 ∈ ids ∧ e.2 ∈ ids) :
    ∃ rank : String → Nat, (∀ id ∈ ids, id ∉ stuck ids edges → rank id < ids.length) ∧
      ∀ e ∈ edges, e.2 ∉ stuck ids edges → e.1 ∉ stuck ids edges ∧ rank e.1 < rank e.2 := by
  obtain ⟨order, hnodup, hmem, hforward, -⟩ := exists_order hids hedges
  refine ⟨order.idxOf, fun id hid hfree => ?_, fun e he hfree => ?_⟩
  · have hle : order.length ≤ ids.length :=
      (hnodup.subperm fun id hid => ((hmem id).1 hid).1).length_le
    exact lt_of_lt_of_le (List.idxOf_lt_length_of_mem ((hmem id).2 ⟨hid, hfree⟩)) hle
  · obtain ⟨before, after, hsplit⟩ := List.append_of_mem ((hmem e.2).2 ⟨(hedges e he).2, hfree⟩)
    have hbefore := hforward before e.2 after hsplit e he rfl
    have hnot : e.2 ∉ before := by
      intro hin
      rw [hsplit] at hnodup
      exact (List.nodup_append.1 hnodup).2.2 e.2 hin e.2 (List.mem_cons_self ..) rfl
    have hsource : e.1 ∈ order := by
      rw [hsplit]
      exact List.mem_append_left _ hbefore
    refine ⟨((hmem e.1).1 hsource).2, ?_⟩
    show order.idxOf e.1 < order.idxOf e.2
    rw [hsplit, List.idxOf_append_of_mem hbefore, List.idxOf_append_of_notMem hnot]
    have := List.idxOf_lt_length_of_mem hbefore
    omega

end Cycle

namespace Program

variable {p : Program} {c : Catalog}

theorem mem_edges {source : String} {i : Nat} {edge : Edge}
    (h : (source, i, edge) ∈ p.edges) : ∃ node, p.node? source = some node ∧ edge ∈ node.next := by
  obtain ⟨⟨id, node⟩, hnode, hedge⟩ := List.mem_flatMap.1 h
  obtain ⟨⟨edge', j⟩, hmem, heq⟩ := List.mem_map.1 hedge
  cases heq
  exact ⟨node, Table.mem_entries.1 hnode, (List.mem_zipIdx' hmem).2 ▸ List.getElem_mem _⟩

theorem exists_mem_edges {source : String} {node : Node} {edge : Edge}
    (hnode : p.node? source = some node) (hedge : edge ∈ node.next) :
    ∃ i, (source, i, edge) ∈ p.edges := by
  obtain ⟨i, hi⟩ := List.getElem?_of_mem hedge
  refine ⟨i, List.mem_flatMap.2 ⟨(source, node), Table.mem_entries.2 hnode, ?_⟩⟩
  exact List.mem_map.2 ⟨(edge, i), List.mem_zipIdx_iff_getElem?.2 hi, rfl⟩

theorem mem_ids_of_dataEdge {e : String × String} (he : e ∈ Cycle.dataEdges p c) :
    e.1 ∈ p.ids ∧ e.2 ∈ p.ids := by
  obtain ⟨⟨source, i, edge⟩, hmem, hdata⟩ := List.mem_filterMap.1 he
  simp only at hdata
  split at hdata
  · rename_i hisdata
    cases hdata
    obtain ⟨node, hnode, -⟩ := mem_edges hmem
    rw [Cycle.isDataEdge, Bool.and_eq_true] at hisdata
    exact ⟨Table.mem_names.2 ⟨node, hnode⟩,
      Table.mem_names.2 (Option.isSome_iff_exists.1 hisdata.2)⟩
  · cases hdata

/-- Without cycles the nodes have ranks below their number, and data edges lead from lower to higher
rank. -/
theorem exists_rank (h : p.cycles c = []) :
    ∃ rank : String → Nat, (∀ id ∈ p.ids, rank id < p.size) ∧
      ∀ e ∈ Cycle.dataEdges p c, rank e.1 < rank e.2 := by
  have hstuck : Cycle.stuck p.ids (Cycle.dataEdges p c) = [] := by
    rw [cycles] at h
    split at h
    · exact List.isEmpty_iff.1 ‹_›
    · cases h
  have hlength : p.ids.length = p.size := List.length_map ..
  obtain ⟨rank, hrank, hforward⟩ := Cycle.exists_rank (show p.ids.Nodup from p.nodes.distinct)
    fun e he => mem_ids_of_dataEdge he
  rw [hstuck] at hrank hforward
  refine ⟨rank, fun id hid => ?_, fun e he => (hforward e he List.not_mem_nil).2⟩
  rw [← hlength]
  exact hrank id hid List.not_mem_nil

end Program

end Dataflow
