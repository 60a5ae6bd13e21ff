/-
The stages of a feed-forward program.

In a feed-forward program a node has fired, or its frame holds what its fired sources have given.
So a node becomes ready when the last of its sources has fired, it takes the arguments that its
meaning is made of, and nothing arrives at it afterwards.

* `Program.Stage` — what holds after some nodes have fired;
* `Program.Stage.start`, `Stage.defer`, `Stage.fire` — the steps of the scheduler keep it;
* `Program.Stage.arguments_of_ready` — a ready node takes the arguments of its meaning.
-/
import Mathlib
import Dataflow.Proofs.History
import Dataflow.Proofs.Meaning
namespace Dataflow

namespace Program

variable {p : Program} {c : Catalog} {F : String → Record Json → Outputs} {inputs : Record Json}
  {results : String → Option Outputs}

/-! ### Sources of a feed-forward program -/

/-- The edges to a key, source by source. -/
theorem edgesTo_eq (p : Program) (id key : String) :
    p.edgesTo id key = p.nodes.entries.flatMap fun entry =>
      (entry.2.next.filter fun e => e.target = id ∧ e.toKey = key).map fun e => (entry.1, e) := by
  rw [edgesTo, incoming, edges, List.filterMap_flatMap, List.filter_flatMap]
  refine congrArg (fun f => List.flatMap f p.nodes.entries) (funext fun entry => ?_)
  -- The places of the edges do not matter.
  conv_rhs => rw [← List.zipIdx_map_fst 0 entry.2.next]
  rw [List.filterMap_map, List.filter_filterMap, ← List.filterMap_eq_map, List.filterMap_filter,
    List.filterMap_map]
  refine List.filterMap_congr fun e _ => ?_
  by_cases hid : e.1.target = id <;> by_cases hkey : e.1.toKey = key <;>
    simp [hid, hkey, Option.filter]

/-- The edges of one node to a key are among all edges to it. -/
theorem sublist_edgesTo {id other key : String} {node : Node} (hnode : p.node? id = some node) :
    ((node.next.filter fun e => e.target = other ∧ e.toKey = key).map fun e => (id, e)).Sublist
      (p.edgesTo other key) := by
  rw [edgesTo_eq]
  obtain ⟨before, after, hsplit⟩ := List.append_of_mem (Table.mem_entries.2 hnode)
  rw [hsplit, List.flatMap_append, List.flatMap_cons]
  exact (List.sublist_append_left ..).trans (List.sublist_append_right ..)

theorem incoming_of_next {id : String} {node : Node} {edge : Edge} (hnode : p.node? id = some node)
    (hedge : edge ∈ node.next) : (id, edge) ∈ p.incoming edge.target := by
  have hmem : (id, edge) ∈ p.edgesTo edge.target edge.toKey :=
    (sublist_edgesTo hnode).mem (List.mem_map.2 ⟨edge, List.mem_filter.2 ⟨hedge, by simp⟩, rfl⟩)
  exact (mem_edgesTo.1 hmem).1

/-- An edge to a declared input is its only source. -/
theorem FeedForward.only_edge (h : p.FeedForward c) {id key : String} {node : Node} {entry : Entry}
    (hcalls : p.Calls c id node entry) (hkey : key ∈ entry.signature.inputNames)
    {e : String × Edge} (he : e ∈ p.edgesTo id key) :
    p.bindingsTo id key = [] ∧ p.edgesTo id key = [e] ∧ node.defaults.get? key = none := by
  have hcount := h.single hcalls key hkey
  have hpos := List.length_pos_of_mem he
  rw [sourceCount] at hcount
  have hdefault : node.defaults.contains key = false := by
    by_contra hcontains
    rw [if_pos (by simpa using hcontains)] at hcount
    omega
  rw [hdefault] at hcount
  simp only [Bool.false_eq_true, if_false, Nat.add_zero] at hcount
  obtain ⟨e', he'⟩ := List.length_eq_one_iff.1 (show (p.edgesTo id key).length = 1 by omega)
  rw [he'] at he ⊢
  rw [List.mem_singleton.1 he]
  exact ⟨List.eq_nil_of_length_eq_zero (by omega), rfl, Record.contains_eq_false.1 hdefault⟩

/-- An edge that is the only source feeds what flows at its output. -/
theorem fed_of_edge {id key : String} {e : String × Edge} (hbindings : p.bindingsTo id key = [])
    (hedges : p.edgesTo id key = [e]) :
    p.fed inputs results id key =
      ((results e.1).bind fun outputs => outputs.get? e.2.fromKey).bind Flow.value? := by
  rw [fed, hbindings, hedges, List.findSome?_nil, List.findSome?_cons, List.findSome?_nil]
  cases ((results e.1).bind fun outputs => outputs.get? e.2.fromKey).bind Flow.value? <;> rfl

/-- The arguments of a node have a value for each declared input. -/
theorem isSome_valueOf {id key : String} {node : Node} {signature : Signature} {args : Record Json}
    (h : p.argumentsOf inputs results id node signature = some args)
    (hkey : key ∈ signature.inputNames) : (p.valueOf inputs results id node key).isSome := by
  rw [argumentsOf] at h
  split at h
  · rename_i hall
    exact List.all_eq_true.1 hall key hkey
  · cases h

/-- A node has arguments only when all its sources give results. -/
theorem FeedForward.isSome_source (h : p.FeedForward c) {id : String} {node : Node} {entry : Entry}
    (hcalls : p.Calls c id node entry) {args : Record Json}
    (hargs : p.argumentsOf inputs results id node entry.signature = some args)
    {e : String × Edge} (he : e ∈ p.incoming id) : (results e.1).isSome := by
  have hkey := h.toKey_mem hcalls he
  obtain ⟨hbindings, hedges, hdefault⟩ :=
    h.only_edge hcalls hkey (mem_edgesTo.2 ⟨he, rfl⟩)
  have hvalue := isSome_valueOf hargs hkey
  rw [valueOf, fed_of_edge hbindings hedges, hdefault] at hvalue
  cases hresult : results e.1 with
  | some outputs => rfl
  | none =>
    rw [hresult] at hvalue
    cases hvalue

private theorem FeedForward.length_bindingsTo (h : p.FeedForward c) (id key : String) :
    (p.bindingsTo id key).length ≤ 1 := by
  cases hbindings : p.bindingsTo id key with
  | nil => exact Nat.zero_le 1
  | cons b rest =>
    have hb : b ∈ p.bindingsTo id key := hbindings ▸ List.mem_cons_self ..
    rw [bindingsTo, List.mem_filter, decide_eq_true_eq] at hb
    obtain ⟨hb, rfl, rfl⟩ := hb
    obtain ⟨node, entry, hcalls, haccepts⟩ := h.valid.inputs b hb
    have hcount := h.single hcalls _ (h.mem_inputNames hcalls haccepts)
    rw [sourceCount, hbindings] at hcount
    omega

/-- A node that no edge arrives at is a head. -/
theorem mem_heads {id : String} {node : Node} (hnode : p.node? id = some node)
    (h : p.incoming id = []) : id ∈ p.heads := by
  refine List.mem_filter.2 ⟨Table.mem_names.2 ⟨node, hnode⟩, ?_⟩
  rw [Bool.not_eq_true', ← Bool.not_eq_true]
  intro htarget
  obtain ⟨⟨source, sender⟩, hsender, hany⟩ := List.any_eq_true.1 htarget
  obtain ⟨edge, hedge, heq⟩ := List.any_eq_true.1 hany
  have hmem := incoming_of_next (Table.mem_entries.1 hsender) hedge
  rw [of_decide_eq_true heq, h] at hmem
  cases hmem

/-- Edges of a node to a key of another are found among its own edges. -/
theorem mem_next_of_edgesTo {id key : String} {e : String × Edge} (he : e ∈ p.edgesTo id key)
    {node : Node} (hnode : p.node? e.1 = some node) :
    e.2 ∈ node.next.filter fun edge => edge.target = id ∧ edge.toKey = key := by
  obtain ⟨hincoming, hkey⟩ := mem_edgesTo.1 he
  obtain ⟨htarget, i, hmem⟩ := mem_incoming hincoming
  obtain ⟨source, hsource, hnext⟩ := mem_edges hmem
  cases hsource.symm.trans hnode
  exact List.mem_filter.2 ⟨hnext, by simp [htarget, hkey]⟩

/-! ### Recorded outputs -/

/-- The binding of an output, by its name. -/
def output? (p : Program) (name : String) : Option Binding := p.output.find? fun b => b.name = name

theorem output?_eq_some (hd : p.outputNames.Nodup) {name : String} {b : Binding} :
    p.output? name = some b ↔ b ∈ p.output ∧ b.name = name := by
  rw [output?]
  rw [outputNames] at hd
  generalize p.output = bindings at hd
  induction bindings with
  | nil => simp
  | cons first rest ih =>
    rw [List.map_cons, List.nodup_cons] at hd
    rw [List.find?_cons, List.mem_cons]
    by_cases hname : first.name = name
    · simp only [hname, decide_true]
      constructor
      · rintro ⟨⟩
        exact ⟨.inl rfl, hname⟩
      · rintro ⟨rfl | hb, rfl⟩
        · rfl
        · exact absurd (hname ▸ List.mem_map.2 ⟨b, hb, rfl⟩) hd.1
    · simp only [hname, decide_false]
      rw [ih hd.2]
      constructor
      · rintro ⟨hb, heq⟩
        exact ⟨.inr hb, heq⟩
      · rintro ⟨rfl | hb, heq⟩
        · exact absurd heq hname
        · exact ⟨hb, heq⟩

/-- A firing records what its results hold for the bindings that read from the node. -/
theorem get?_recordOutputs (hd : p.outputNames.Nodup) (id : String) (results : Outputs)
    (outputs : Record Json) (name : String) :
    (p.recordOutputs id results outputs).get? name =
      (((p.output? name).bind fun b =>
        if b.address.id = id then (results.get? b.address.key).bind Flow.value? else none) <|>
        outputs.get? name) := by
  rw [recordOutputs, outputsOf, List.foldl_filter, output?]
  rw [outputNames] at hd
  generalize p.output = bindings at hd
  induction bindings generalizing outputs with
  | nil => rfl
  | cons first rest ih =>
    rw [List.map_cons, List.nodup_cons] at hd
    rw [List.foldl_cons, ih _ hd.2, List.find?_cons]
    by_cases hname : first.name = name
    · have hrest : rest.find? (fun b => b.name = name) = none :=
        List.find?_eq_none.2 fun b hb heq =>
          hd.1 (hname ▸ List.mem_map.2 ⟨b, hb, by simpa using heq⟩)
      simp only [hrest, hname, decide_true, Option.bind_none, Option.bind_some]
      by_cases hid : first.address.id = id
      · simp only [hid, decide_true, if_true]
        cases hresult : results.get? first.address.key with
        | none => rfl
        | some flow =>
          cases flow with
          | stop => rfl
          | value v =>
            show ((none : Option Json) <|> _) = _
            rw [Record.get?_insert, if_pos rfl]
            rfl
      · simp only [hid, decide_false, Bool.false_eq_true, if_false]
    · simp only [hname, decide_false]
      congr 1
      split
      · split
        · rw [Record.get?_insert, if_neg fun h => hname h.symm]
        · rfl
      · rfl

/-! ### The meaning and a frame -/

/-- Where a frame and the defaults hold the values of a node, the node is ready if it has arguments,
and takes these. -/
theorem argumentsOf_eq {id : String} {node : Node} {frame : Frame} (signature : Signature)
    (h : ∀ key, frame.get? key = p.fed inputs results id key) :
    p.argumentsOf inputs results id node signature =
      if node.isReady signature frame then some (node.arguments signature frame) else none := by
  have hvalue : ∀ key, p.valueOf inputs results id node key =
      (frame.get? key <|> node.defaults.get? key) := by
    intro key
    rw [valueOf, h key]
  have hsome : ∀ key, (frame.get? key <|> node.defaults.get? key).isSome =
      (frame.contains key || node.defaults.contains key) := by
    intro key
    rw [Record.contains, Record.contains]
    cases frame.get? key <;> rfl
  rw [argumentsOf, Node.isReady, Node.arguments]
  simp only [hvalue, hsome]

/-- What an output binding reads when the nodes give `results`. -/
def outputOf (results : String → Option Outputs) (b : Binding) : Option Json :=
  ((results b.address.id).bind fun outputs => outputs.get? b.address.key).bind Flow.value?

/-- What the nodes that have fired give. -/
def given (p : Program) (c : Catalog) (F : String → Record Json → Outputs) (inputs : Record Json)
    (fired : List String) (id : String) : Option Outputs :=
  if id ∈ fired then p.eval c F inputs id else none

theorem given_of_mem {fired : List String} {id : String} (h : id ∈ fired) :
    p.given c F inputs fired id = p.eval c F inputs id :=
  if_pos h

theorem given_of_not_mem {fired : List String} {id : String} (h : id ∉ fired) :
    p.given c F inputs fired id = none :=
  if_neg h

private theorem given_concat {fired : List String} {id other : String} (h : other ≠ id) :
    p.given c F inputs (fired ++ [id]) other = p.given c F inputs fired other := by
  rw [given, given]
  simp only [List.mem_append, List.mem_singleton, h, or_false]

/-- What holds after the listed nodes have fired. -/
structure Stage (p : Program) (c : Catalog) (F : String → Record Json → Outputs)
    (inputs : Record Json) (fired : List String) (frames : FrameQueue) (outputs : Record Json) :
    Prop where
  sound : frames.Sound
  nodup : fired.Nodup
  /-- Nodes fire after all their sources, and only if they have a meaning. -/
  settled : ∀ id ∈ fired, (p.eval c F inputs id).isSome ∧ ∀ e ∈ p.incoming id, e.1 ∈ fired
  waiting : ∀ id ∈ frames.order, id ∉ fired ∧ (p.node? id).isSome
  /-- The frames of the others hold what has been given to them. -/
  gathered : ∀ id, id ∉ fired → (p.node? id).isSome → ∀ key,
    frames.gathered id key = p.fed inputs (p.given c F inputs fired) id key
  heads : ∀ id ∈ p.heads, id ∉ fired → id ∈ frames.order
  /-- The outputs are read from what has been given. -/
  recorded : ∀ name, outputs.get? name =
    (p.output? name).bind (outputOf (p.given c F inputs fired))

namespace Stage

variable {fired : List String} {frames rest : FrameQueue} {outputs : Record Json} {id : String}
  {frame : Frame} {node : Node} {entry : Entry}

/-- A frame in the queue holds what has been given to its node. -/
theorem get?_frame (hs : p.Stage c F inputs fired frames outputs)
    (hframe : frames.get? id = some frame) (key : String) :
    frame.get? key = p.fed inputs (p.given c F inputs fired) id key := by
  obtain ⟨hfired, hnode⟩ := hs.waiting id ((hs.sound.mem_order id).2 ⟨frame, hframe⟩)
  rw [← hs.gathered id hfired hnode, FrameQueue.gathered, hframe]
  rfl

/-- When all sources of a node have fired, what has been given to it is all that it gets. -/
theorem argumentsOf_given (hsources : ∀ e ∈ p.incoming id, e.1 ∈ fired) :
    p.argumentsOf inputs (p.given c F inputs fired) id node entry.signature =
      p.argumentsOf inputs (p.eval c F inputs) id node entry.signature :=
  argumentsOf_congr node entry.signature fun e he => given_of_mem (hsources e he)

/-- A node that is ready takes the arguments of its meaning, and all its sources have fired. -/
theorem arguments_of_ready (hs : p.Stage c F inputs fired frames outputs) (h : p.FeedForward c)
    (hframe : frames.get? id = some frame) (hcalls : p.Calls c id node entry)
    (hready : node.isReady entry.signature frame = true) :
    p.argumentsOf inputs (p.eval c F inputs) id node entry.signature =
        some (node.arguments entry.signature frame) ∧
      ∀ e ∈ p.incoming id, e.1 ∈ fired := by
  have hargs : p.argumentsOf inputs (p.given c F inputs fired) id node entry.signature =
      some (node.arguments entry.signature frame) := by
    rw [argumentsOf_eq entry.signature (hs.get?_frame hframe), if_pos hready]
  have hsources : ∀ e ∈ p.incoming id, e.1 ∈ fired := by
    intro e he
    have hsome := h.isSome_source hcalls hargs he
    by_contra hfired
    rw [given_of_not_mem hfired] at hsome
    cases hsome
  exact ⟨argumentsOf_given hsources ▸ hargs, hsources⟩

/-- The invariant holds before the first step. -/
theorem start (h : p.FeedForward c) (hfirst : p.firstFrames inputs = .ok frames) :
    p.Stage c F inputs [] frames .empty := by
  obtain ⟨hinputs, hframes⟩ := firstFrames_eq_ok hfirst
  have hsound : (FrameQueue.empty.receiveAll (Delivery.ofBindings inputs p.input)).Sound :=
    FrameQueue.Sound.empty.receiveAll _
  have horder : ∀ id, id ∈ frames.order ↔
      (∃ d ∈ Delivery.ofBindings inputs p.input, d.id = id) ∨ id ∈ p.heads := by
    intro id
    rw [hframes, hsound.mem_order_ensureAll, FrameQueue.Sound.empty.mem_order_receiveAll]
    simp [FrameQueue.empty]
  refine ⟨firstFrames_sound hfirst, List.nodup_nil, by simp, ?_, ?_,
    fun id hid _ => (horder id).2 (.inr hid), ?_⟩
  · intro id hid
    refine ⟨List.not_mem_nil, ?_⟩
    rcases (horder id).1 hid with ⟨d, hd, rfl⟩ | hhead
    · obtain ⟨b, hb, hvalue⟩ := List.mem_filterMap.1 hd
      obtain ⟨value, -, rfl⟩ := Option.map_eq_some_iff.1 hvalue
      obtain ⟨node, entry, hcalls, -⟩ := h.valid.inputs b hb
      exact Option.isSome_iff_exists.2 ⟨node, hcalls.node_eq⟩
    · exact Option.isSome_iff_exists.2 (Table.mem_names.1 (List.mem_filter.1 hhead).1)
  · intro id _ _ key
    -- Nothing has fired, so only a binding can feed the key.
    have hedges : ((p.edgesTo id key).findSome? fun e =>
        ((p.given c F inputs [] e.1).bind fun outputs => outputs.get? e.2.fromKey).bind
          Flow.value?) = none :=
      List.findSome?_eq_none_iff.2 fun e _ => by rw [given_of_not_mem List.not_mem_nil]; rfl
    rw [hframes, FrameQueue.gathered_ensureAll, FrameQueue.gathered_receiveAll,
      Delivery.filter_ofBindings, fed, hedges, ← bindingsTo]
    -- There is at most one, so the last delivery and the first binding are the same.
    have hlength := h.length_bindingsTo id key
    generalize p.bindingsTo id key = bindings at hlength
    rcases bindings with _ | ⟨b, _ | ⟨b', rest⟩⟩
    · rfl
    · rw [Delivery.ofBindings, List.filterMap_cons, List.findSome?_cons]
      cases inputs.get? b.name <;> rfl
    · simp at hlength
  · intro name
    have hnone : ∀ b, outputOf (p.given c F inputs []) b = none := by
      intro b
      rw [outputOf, given_of_not_mem List.not_mem_nil]
      rfl
    rw [Record.get?_empty]
    cases p.output? name with
    | none => rfl
    | some b => exact (hnone b).symm

/-- A frame that is not ready goes to the end of the line. -/
theorem defer (hs : p.Stage c F inputs fired frames outputs)
    (hpop : frames.pop? = some ((id, frame), rest)) :
    p.Stage c F inputs fired (rest.defer id frame) outputs := by
  have hget := FrameQueue.get?_popped_deferred hs.sound hpop
  have hsound := (hs.sound.pop hpop).defer id frame
  have hmem : ∀ other, other ∈ (rest.defer id frame).order ↔ other ∈ frames.order := by
    intro other
    rw [hsound.mem_order, hs.sound.mem_order, hget]
  exact ⟨hsound, hs.nodup, hs.settled, fun other hother => hs.waiting other ((hmem other).1 hother),
    fun other hfired hnode key => by
      rw [← hs.gathered other hfired hnode key, FrameQueue.gathered, FrameQueue.gathered, hget],
    fun other hhead hfired => (hmem other).2 (hs.heads other hhead hfired), hs.recorded⟩

/-- What has been given to a node after a firing: the values that were sent to it, and what it had
before. -/
theorem gathered_fire (hs : p.Stage c F inputs fired frames outputs) (h : p.FeedForward c)
    (hpop : frames.pop? = some ((id, frame), rest)) (hcalls : p.Calls c id node entry)
    {results : Outputs} (heval : p.eval c F inputs id = some results) {other : String}
    (hfired : other ∉ fired ++ [id]) (hnode : (p.node? other).isSome) (key : String) :
    (rest.receiveAll (Delivery.ofFiring entry.signature results node.next)).gathered other key =
      p.fed inputs (p.given c F inputs (fired ++ [id])) other key := by
  obtain ⟨hfired, hne⟩ : other ∉ fired ∧ other ≠ id := by simpa using hfired
  have hid : id ∉ fired := by
    obtain ⟨horder, -, -⟩ := FrameQueue.pop?_eq_some hs.sound hpop
    exact (hs.waiting id (horder ▸ List.mem_cons_self ..)).1
  have hbefore : rest.gathered other key = p.fed inputs (p.given c F inputs fired) other key := by
    rw [← hs.gathered other hfired hnode, FrameQueue.gathered, FrameQueue.gathered,
      (FrameQueue.get?_of_pop? hpop).2, if_neg hne]
  have hsublist : List.Sublist _ (p.edgesTo other key) := sublist_edgesTo hcalls.node_eq
  rw [FrameQueue.gathered_receiveAll, Delivery.filter_ofFiring, hbefore]
  cases hsent : node.next.filter fun edge => edge.target = other ∧ edge.toKey = key with
  | nil =>
    -- No edge leads there, and the other sources have not changed.
    refine fed_congr fun e he => (given_concat ?_).symm
    intro heq
    have hmem := mem_next_of_edgesTo he (heq ▸ hcalls.node_eq)
    rw [hsent] at hmem
    cases hmem
  | cons edge more =>
    rw [hsent] at hsublist
    have hedge : (id, edge) ∈ p.edgesTo other key := hsublist.mem (List.mem_cons_self ..)
    have hmem : edge ∈ node.next.filter fun edge => edge.target = other ∧ edge.toKey = key :=
      hsent ▸ List.mem_cons_self ..
    obtain ⟨receiver, hreceiver⟩ := Option.isSome_iff_exists.1 hnode
    obtain ⟨called, hcalled⟩ := h.valid.functions hreceiver
    have hkey : key ∈ called.signature.inputNames :=
      (mem_edgesTo.1 hedge).2 ▸ h.toKey_mem hcalled (mem_edgesTo.1 hedge).1
    -- It is the only source of the key, so what it sends is all that arrives.
    obtain ⟨hbindings, hedges, -⟩ := h.only_edge hcalled hkey hedge
    have hmore : more = [] := by
      rw [hedges] at hsublist
      have hlength := hsublist.length_le
      simp only [List.map_cons, List.length_cons, List.length_map, List.length_nil] at hlength
      exact List.eq_nil_of_length_eq_zero (by omega)
    have hcarried : edge.carried? entry.signature results =
        (results.get? edge.fromKey).bind Flow.value? :=
      if_pos (h.hasOutput hcalls (List.mem_filter.1 hmem).1)
    rw [hmore, Delivery.ofFiring_singleton, hcarried, fed_of_edge hbindings hedges,
      fed_of_edge hbindings hedges, given_of_not_mem hid,
      given_of_mem (List.mem_append_right fired (List.mem_singleton_self id)), heval]
    simp

/-- A node that is ready fires. -/
theorem fire (hs : p.Stage c F inputs fired frames outputs) (h : p.FeedForward c)
    (hpop : frames.pop? = some ((id, frame), rest)) (hcalls : p.Calls c id node entry)
    (hready : node.isReady entry.signature frame = true) {results : Outputs}
    (heval : p.eval c F inputs id = some results) :
    p.Stage c F inputs (fired ++ [id])
      (rest.receiveAll (Delivery.ofFiring entry.signature results node.next))
      (p.recordOutputs id results outputs) := by
  obtain ⟨horder, hframe, -⟩ := FrameQueue.pop?_eq_some hs.sound hpop
  obtain ⟨hid, -⟩ := hs.waiting id (horder ▸ List.mem_cons_self ..)
  obtain ⟨-, hsources⟩ := hs.arguments_of_ready h hframe hcalls hready
  have hrest := hs.sound.pop hpop
  have hnodup := hs.sound.nodup
  rw [horder, List.nodup_cons] at hnodup
  refine ⟨hrest.receiveAll _, FrameQueue.nodup_concat hs.nodup hid, ?_, ?_,
    fun other hfired hnode key => hs.gathered_fire h hpop hcalls heval hfired hnode key, ?_, ?_⟩
  · -- Sources that have fired stay so, and those of this node have.
    intro other hother
    rcases List.mem_append.1 hother with hfired | heq
    · obtain ⟨hsome, hmem⟩ := hs.settled other hfired
      exact ⟨hsome, fun e he => List.mem_append_left _ (hmem e he)⟩
    · cases List.mem_singleton.1 heq
      exact ⟨heval ▸ rfl, fun e he => List.mem_append_left _ (hsources e he)⟩
  · intro other hother
    rcases hrest.mem_order_receiveAll.1 hother with hwaiting | ⟨d, hd, rfl⟩
    · obtain ⟨hfired, hnode⟩ := hs.waiting other (horder ▸ List.mem_cons_of_mem _ hwaiting)
      refine ⟨fun hmem => ?_, hnode⟩
      rcases List.mem_append.1 hmem with hmem | heq
      · exact hfired hmem
      · exact hnodup.1 (List.mem_singleton.1 heq ▸ hwaiting)
    · -- A node that receives something from this one cannot have fired before.
      obtain ⟨edge, hedge, hvalue⟩ := List.mem_filterMap.1 hd
      obtain ⟨value, -, rfl⟩ := Option.map_eq_some_iff.1 hvalue
      obtain ⟨target, called, hcalled, -⟩ := (h.valid.edges hcalls edge hedge).2
      have hincoming := incoming_of_next hcalls.node_eq hedge
      refine ⟨fun hmem => ?_, Option.isSome_iff_exists.2 ⟨target, hcalled.node_eq⟩⟩
      rcases List.mem_append.1 hmem with hmem | heq
      · exact hid ((hs.settled _ hmem).2 _ hincoming)
      · have hself := hsources (id, edge) (List.mem_singleton.1 heq ▸ hincoming)
        exact hid hself
  · intro other hhead hfired
    obtain ⟨hfired, hne⟩ : other ∉ fired ∧ other ≠ id := by simpa using hfired
    have hmem := hs.heads other hhead hfired
    rw [horder, List.mem_cons] at hmem
    exact hrest.mem_order_receiveAll.2 (.inl (hmem.resolve_left hne))
  · -- Only the bindings that read from this node change, and they had no value before.
    intro name
    rw [get?_recordOutputs h.distinct, hs.recorded]
    cases p.output? name with
    | none => rfl
    | some b =>
      simp only [Option.bind_some]
      by_cases hb : b.address.id = id
      · rw [if_pos hb, outputOf, outputOf, hb, given_of_not_mem hid,
          given_of_mem (List.mem_append_right fired (List.mem_singleton_self id)), heval]
        simp
      · rw [if_neg hb, outputOf, outputOf, given_concat hb]
        simp

end Stage

end Program

end Dataflow
