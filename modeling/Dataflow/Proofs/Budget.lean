/-
How much slack a program without callbacks needs.

A node can stand in line before it is ready only if an edge arrives at it and something else does as
well. A run puts such a node back at most once for every other node, so a slack that exceeds the
number of pairs of nodes with such a node is never used up: everything fires, and every output gets
its value. A slack of ten is not always that much: a line of five nodes can be written in such an
order that it is cut off just before its last node fires.

* `Program.waits` — the nodes that can stand in line before they are ready;
* `Program.Served` — programs without callbacks in which every input has a source;
* `Program.Course.exists_ready` — as long as a node has not fired, some node is ready;
* `Host.drain_completes` — a run with enough steps is not cut off;
* `Environment.run_completes` — top-level runs.
-/
import Mathlib
import Dataflow.Proofs.Slack
import Dataflow.Proofs.Toll
namespace Dataflow

/-! ### Data edges -/

namespace Cycle

variable {p : Program} {c : Catalog}

theorem mem_dataEdges {a b : String} : (a, b) ∈ dataEdges p c ↔
    ∃ edge, (a, edge) ∈ p.incoming b ∧ isDataEdge p c a edge = true := by
  constructor
  · intro h
    obtain ⟨⟨source, i, edge⟩, hmem, hdata⟩ := List.mem_filterMap.1 h
    simp only at hdata
    split at hdata
    · rename_i hisdata
      cases hdata
      obtain ⟨node, hnode, hnext⟩ := Program.mem_edges hmem
      exact ⟨edge, Program.incoming_of_next hnode hnext, hisdata⟩
    · cases hdata
  · rintro ⟨edge, hincoming, hdata⟩
    obtain ⟨rfl, i, hmem⟩ := Program.mem_incoming hincoming
    exact List.mem_filterMap.2 ⟨_, hmem, if_pos hdata⟩

/-- An edge between nodes carries data unless it belongs to the call of a callback. -/
theorem isDataEdge_iff {source : String} {edge : Edge} {node target : Node} {entry called : Entry}
    (hsource : p.Calls c source node entry) (htarget : p.Calls c edge.target target called) :
    isDataEdge p c source edge = true ↔ entry.signature.hasCallbackInput edge.fromKey = false ∧
      called.signature.hasCallbackOutput edge.toKey = false := by
  rw [isDataEdge, Validation.signatureOf?_of_calls hsource,
    Validation.signatureOf?_of_calls htarget, htarget.node_eq]
  simp

end Cycle

namespace Program

variable {p : Program} {c : Catalog} {rank : String → Nat} {start frames rest : FrameQueue}
  {results : String → Option Outputs} {outputs : Record Json} {id : String} {node : Node}
  {entry : Entry} {frame : Frame} {given : Outputs}

/-- An edge arrives at the node, and another edge or an input does as well. -/
def waits (p : Program) (id : String) : Bool :=
  0 < (p.incoming id).length &&
    1 < (p.incoming id).length + p.input.countP fun b => b.address.id = id

/-! ### Programs in which nothing is lacking -/

/-- A program without callbacks that can be followed from its first frames, and in which every
declared input has a source. -/
structure Served (p : Program) (c : Catalog) (rank : String → Nat) (start : FrameQueue) : Prop
    extends p.Wired c start where
  ranked : ∀ e ∈ Cycle.dataEdges p c, rank e.1 < rank e.2
  plain : ∀ {id node entry}, p.Calls c id node entry → entry.signature.callbacks = .empty
  provided : ∀ {id node entry}, p.Calls c id node entry → ∀ edge ∈ node.next,
    entry.signature.hasOutput edge.fromKey = true
  read : ∀ b ∈ p.output, ∃ node entry, p.Calls c b.address.id node entry ∧
    entry.signature.hasOutput b.address.key = true
  sourced : ∀ {id node entry}, p.Calls c id node entry → ∀ key ∈ entry.signature.inputNames,
    (∃ e, e ∈ p.edgesTo id key) ∨ (start.gathered id key).isSome ∨
      node.defaults.contains key = true
  heads : ∀ id ∈ p.heads, id ∈ start.order
  started : ∀ id ∈ start.order, (p.node? id).isSome
  /-- What is in line from the start is a head or waits. -/
  early : ∀ id ∈ start.order, p.incoming id = [] ∨ p.waits id = true

private theorem incoming_of_mem_heads (h : id ∈ p.heads) : p.incoming id = [] := by
  refine List.eq_nil_iff_forall_not_mem.2 fun e he => ?_
  obtain ⟨htarget, i, hmem⟩ := mem_incoming he
  obtain ⟨sender, hsender, hnext⟩ := mem_edges hmem
  have hnot := (List.mem_filter.1 h).2
  rw [Bool.not_eq_true', isTarget, List.any_eq_false] at hnot
  refine hnot (e.1, sender) (Table.mem_entries.2 hsender) ?_
  exact List.any_eq_true.2 ⟨e.2, hnext, decide_eq_true htarget⟩

/-- A clean program without callbacks, in which every declared input has one source. -/
theorem served_of_validate {inputs : Record Json} (hclean : p.validate c = [])
    (hplain : ∀ {id node entry}, p.Calls c id node entry → entry.signature.callbacks = .empty)
    (hsingle : ∀ {id node entry}, p.Calls c id node entry →
      ∀ key ∈ entry.signature.inputNames, p.sourceCount id node key = 1)
    (hranked : ∀ e ∈ Cycle.dataEdges p c, rank e.1 < rank e.2)
    (hfirst : p.firstFrames inputs = .ok start) : p.Served c rank start where
  toWired := (valid_of_validate hclean).wired
    (fun hcalls => Signature.separate_of_plain (hplain hcalls)) hsingle (nested_of_plain hplain)
    hfirst
  ranked := hranked
  plain := hplain
  provided := by
    intro id node entry hcalls edge hedge
    have hprovides := ((valid_of_validate hclean).edges hcalls edge hedge).1
    rwa [Signature.provides, Signature.hasCallbackInput_of_plain (hplain hcalls),
      Bool.or_false] at hprovides
  read := by
    intro b hb
    obtain ⟨node, entry, hcalls, hprovides⟩ := outputs_of_validate hclean hb
    rw [Signature.provides, Signature.hasCallbackInput_of_plain (hplain hcalls),
      Bool.or_false] at hprovides
    exact ⟨node, entry, hcalls, hprovides⟩
  sourced := by
    intro id node entry hcalls key hkey
    have hcount := hsingle hcalls key hkey
    rw [sourceCount] at hcount
    by_cases hdefault : node.defaults.contains key = true
    · exact .inr (.inr hdefault)
    · rw [if_neg hdefault] at hcount
      by_cases hbindings : 0 < (p.bindingsTo id key).length
      · exact .inr (.inl ((isSome_gathered_firstFrames hfirst).2 hbindings))
      · exact .inl (List.exists_mem_of_length_pos (by omega))
  heads := fun id hid => (mem_firstFrames hfirst).2 (.inr hid)
  started := fun id hid => (valid_of_validate hclean).started hfirst hid
  early := by
    intro id hid
    rcases (mem_firstFrames hfirst).1 hid with ⟨b, hb, hbound⟩ | hhead
    · have hcount : 0 < p.input.countP fun b => b.address.id = id :=
        List.countP_pos_iff.2 ⟨b, hb, decide_eq_true hbound⟩
      rcases Nat.eq_zero_or_pos (p.incoming id).length with hnone | hsome
      · exact .inl (List.eq_nil_of_length_eq_zero hnone)
      · refine .inr ?_
        rw [waits, Bool.and_eq_true, decide_eq_true_eq, decide_eq_true_eq]
        omega
    · exact .inl (incoming_of_mem_heads hhead)

/-! ### A run in which every call gives all its outputs -/

/-- What holds after some nodes have fired, if all of them have given all their outputs. -/
structure Course (p : Program) (c : Catalog) (start : FrameQueue)
    (results : String → Option Outputs) (frames : FrameQueue) (outputs : Record Json) : Prop
    extends p.Wave c start results frames where
  line : ∀ id ∈ frames.order, id ∈ p.unfired results
  full : ∀ {id node entry given}, p.Calls c id node entry → results id = some given →
    ∀ key ∈ entry.signature.outputNames, ∃ value, given.get? key = some (.value value)
  recorded : ∀ b ∈ p.output, (results b.address.id).isSome → outputs.contains b.name = true

namespace Course

/-- A source that has fired has sent its value. -/
theorem isSome_sent (hc : p.Course c start results frames outputs) (h : p.Served c rank start)
    {e : String × Edge} (he : e ∈ p.incoming id) (hsome : (results e.1).isSome) :
    (p.sent c results e).isSome := by
  obtain ⟨sender, called, hcalled, hnext, -⟩ := h.source he
  obtain ⟨given, hgiven⟩ := Option.isSome_iff_exists.1 hsome
  have hout := h.provided hcalled e.2 hnext
  obtain ⟨value, hvalue⟩ := hc.full hcalled hgiven _ (List.contains_iff_mem.1 hout)
  rw [sent_eq hcalled, hgiven, Option.bind_some, Edge.carried?, if_pos hout, hvalue]
  rfl

/-- A node in line is ready once all its sources have fired. -/
theorem ready_of_sources (hc : p.Course c start results frames outputs) (h : p.Served c rank start)
    (hid : id ∈ frames.order) (hsources : ∀ e ∈ p.incoming id, (results e.1).isSome) :
    p.Ready c frames id := by
  obtain ⟨frame, hframe⟩ := (hc.sound.mem_order id).1 hid
  obtain ⟨hnode, hunfired⟩ := mem_unfired.1 (hc.line id hid)
  obtain ⟨node, hnode⟩ := Option.isSome_iff_exists.1 hnode
  obtain ⟨entry, hcalls⟩ := h.known hnode
  refine ⟨node, entry, frame, hcalls, hframe, List.all_eq_true.2 fun key hkey => ?_⟩
  rw [Bool.or_eq_true]
  have hframe_key : (p.supplied c start results id key).isSome → frame.contains key = true := by
    intro hsome
    rw [Record.contains, hc.get?_frame hframe ⟨hcalls, not_inside_of_plain h.plain⟩ hunfired
      hkey]
    exact hsome
  rcases h.sourced hcalls key hkey with ⟨e, he⟩ | hstart | hdefault
  · have hincoming := (mem_edgesTo.1 he).1
    refine .inl (hframe_key ?_)
    rw [h.supplied_of_edge hcalls hkey he]
    exact hc.isSome_sent h hincoming (hsources e hincoming)
  · refine .inl (hframe_key ?_)
    rw [supplied]
    cases (p.edgesTo id key).findSome? (p.sent c results) with
    | none => exact hstart
    | some value => rfl
  · exact .inr hdefault

/-- **As long as a node has not fired, some node is ready.** -/
theorem exists_ready (hc : p.Course c start results frames outputs) (h : p.Served c rank start)
    (hnode : (p.node? id).isSome) (hid : results id = none) : ∃ other, p.Ready c frames other := by
  -- Induction on the rank: a source that has not fired comes before the node.
  induction hn : rank id using Nat.strong_induction_on generalizing id with
  | _ n ih =>
    by_cases hsources : ∀ e ∈ p.incoming id, (results e.1).isSome
    · obtain ⟨node, hnode⟩ := Option.isSome_iff_exists.1 hnode
      obtain ⟨entry, hcalls⟩ := h.known hnode
      have hsite : p.Site c id node entry := ⟨hcalls, not_inside_of_plain h.plain⟩
      refine ⟨id, hc.ready_of_sources h ((hc.reached hsite hid).2 ?_) hsources⟩
      cases hincoming : p.incoming id with
      | nil => exact .inl (h.heads id (mem_heads hnode hincoming))
      | cons e _ =>
        have he : e ∈ p.incoming id := hincoming ▸ List.mem_cons_self ..
        exact .inr ⟨e, List.mem_cons_self .., hc.isSome_sent h he (hsources e he)⟩
    · push Not at hsources
      obtain ⟨e, he, hnone⟩ := hsources
      obtain ⟨sender, called, hcalled, hnext, htarget⟩ := h.source he
      obtain ⟨target, entry, hcalls, -⟩ := h.edges hcalled e.2 hnext
      have hdata : Cycle.isDataEdge p c e.1 e.2 = true :=
        (Cycle.isDataEdge_iff hcalled hcalls).2
          ⟨Signature.hasCallbackInput_of_plain (h.plain hcalled) _,
            Signature.hasCallbackOutput_of_plain (h.plain hcalls) _⟩
      have hlt : rank e.1 < rank id := h.ranked (e.1, id) (Cycle.mem_dataEdges.2 ⟨e.2, he, hdata⟩)
      exact ih (rank e.1) (hn ▸ hlt) (by rw [hcalled.node_eq]; rfl)
        (Option.not_isSome_iff_eq_none.1 hnone) rfl

/-- What stands in line and is not ready waits. -/
theorem waits_of_not_ready (hc : p.Course c start results frames outputs)
    (h : p.Served c rank start) (hid : id ∈ frames.order) (hready : ¬ p.Ready c frames id) :
    p.waits id = true := by
  by_contra hwaits
  obtain ⟨hnode, hnone⟩ := mem_unfired.1 (hc.line id hid)
  obtain ⟨node, hnode⟩ := Option.isSome_iff_exists.1 hnode
  obtain ⟨entry, hcalls⟩ := h.known hnode
  have hsite : p.Site c id node entry := ⟨hcalls, not_inside_of_plain h.plain⟩
  refine hready (hc.ready_of_sources h hid ?_)
  intro e he
  have hpos := List.length_pos_of_mem he
  rw [waits, Bool.and_eq_true, decide_eq_true_eq, decide_eq_true_eq, not_and] at hwaits
  have hfew := hwaits hpos
  -- The edge is all that arrives, so the node is in line because of it.
  obtain ⟨only, honly⟩ := List.length_eq_one_iff.1 (show (p.incoming id).length = 1 by omega)
  rcases (hc.reached hsite hnone).1 hid with hstart | ⟨e', he', hsent⟩
  · rcases h.early id hstart with hnil | hwait
    · rw [hnil] at he
      cases he
    · rw [waits, Bool.and_eq_true, decide_eq_true_eq, decide_eq_true_eq] at hwait
      omega
  · rw [honly, List.mem_singleton] at he he'
    rw [he, ← he']
    exact isSome_of_sent hsent

/-! ### Recorded outputs -/

/-- A firing keeps the outputs that there are and adds those that read a value from it. -/
theorem contains_recordOutputs {name : String}
    (h : outputs.contains name = true ∨ ∃ b ∈ p.output, b.address.id = id ∧ b.name = name ∧
      ∃ value, given.get? b.address.key = some (.value value)) :
    (p.recordOutputs id given outputs).contains name = true := by
  rw [recordOutputs, outputsOf, List.foldl_filter]
  generalize p.output = bindings at h
  induction bindings generalizing outputs with
  | nil =>
    rcases h with hbefore | ⟨b, hb, -⟩
    · exact hbefore
    · cases hb
  | cons first more ih =>
    rw [List.foldl_cons]
    refine ih ?_
    have hkeep : ∀ value, outputs.contains name = true →
        (outputs.insert first.name value).contains name = true := by
      intro value hbefore
      rw [Record.contains, Record.get?_insert]
      split
      · rfl
      · exact hbefore
    rcases h with hbefore | ⟨b, hb, hat, hname, value, hvalue⟩
    · left
      split
      · split
        · exact hkeep _ hbefore
        · exact hbefore
      · exact hbefore
    · rcases List.mem_cons.1 hb with rfl | hb
      · left
        rw [if_pos (decide_eq_true hat), hvalue]
        simp only
        rw [Record.contains, Record.get?_insert, if_pos hname.symm]
        rfl
      · exact .inr ⟨b, hb, hat, hname, value, hvalue⟩

/-! ### Steps -/

private theorem unfired_of_pop (hc : p.Course c start results frames outputs)
    (hpop : frames.pop? = some ((id, frame), rest)) : results id = none := by
  obtain ⟨horder, -, -⟩ := FrameQueue.pop?_eq_some hc.sound hpop
  exact (mem_unfired.1 (hc.line id (horder ▸ List.mem_cons_self ..))).2

/-- Without callbacks, the edges of a node that fires lead to nodes that have not fired. -/
theorem unfired_of_next (hc : p.Course c start results frames outputs) (h : p.Served c rank start)
    (hf : p.Firable c results id node entry) (hunfired : results id = none) {edge : Edge}
    (hedge : edge ∈ node.next) : edge.target ≠ id ∧ edge.target ∈ p.unfired results := by
  obtain ⟨target, called, hcalled, haccepts⟩ := h.edges hf.calls edge hedge
  have hincoming := incoming_of_next hf.calls.node_eq hedge
  rw [Signature.accepts, Signature.hasCallbackOutput_of_plain (h.plain hcalled),
    Bool.or_false] at haccepts
  constructor
  · intro heq
    rw [heq] at hcalled hincoming
    cases (hf.calls.unique hcalled).2
    have hself := hf.sources (id, edge) hincoming haccepts
    rw [hunfired] at hself
    cases hself
  · refine mem_unfired.2 ⟨by rw [hcalled.node_eq]; rfl, ?_⟩
    by_contra hsome
    have hsource := hc.settled hcalled (Option.isSome_iff_ne_none.2 hsome) (id, edge) hincoming
      haccepts
    rw [hunfired] at hsource
    cases hsource

theorem initial (h : p.Served c rank start) : p.Course c start (fun _ => none) start .empty where
  toWave := .initial h.toWired
  line := fun id hid => mem_unfired.2 ⟨h.started id hid, rfl⟩
  full := fun _ hgiven => nomatch hgiven
  recorded := fun _ _ hsome => nomatch hsome

theorem defer (hc : p.Course c start results frames outputs)
    (hpop : frames.pop? = some ((id, frame), rest)) :
    p.Course c start results (rest.defer id frame) outputs where
  toWave := hc.toWave.defer hpop
  line := by
    intro other hother
    obtain ⟨horder, -, -⟩ := FrameQueue.pop?_eq_some hc.sound hpop
    rw [FrameQueue.order_popped_deferred hc.sound hpop, List.mem_append, List.mem_singleton,
      Or.comm, ← List.mem_cons, ← horder] at hother
    exact hc.line other hother
  full := hc.full
  recorded := hc.recorded

/-- A firing with all outputs of the function. -/
theorem fire (hc : p.Course c start results frames outputs) (h : p.Served c rank start)
    (hpop : frames.pop? = some ((id, frame), rest)) (hf : p.Firable c results id node entry)
    (hgiven : ∀ key ∈ entry.signature.outputNames, ∃ value, given.get? key = some (.value value)) :
    p.Course c start (Function.update results id (some given))
      (((p.bodyOf id entry.signature).foldl FrameQueue.remove rest).receiveAll
        (Delivery.ofFiring entry.signature given node.next))
      (p.recordOutputs id given outputs) where
  toWave := hc.toWave.fire h.toWired hpop hf (.inl (hc.unfired_of_pop hpop))
  line := by
    have hsound := (hc.sound.pop hpop).foldl_remove (p.bodyOf id entry.signature)
    have hunfired := hc.unfired_of_pop hpop
    intro other hother
    have hmem : other ≠ id ∧ other ∈ p.unfired results := by
      rcases hsound.mem_order_receiveAll.1 hother with hwaiting | hreceives
      · obtain ⟨hline, -, hne⟩ := (FrameQueue.mem_popped_removed hc.sound hpop _ _).1 hwaiting
        exact ⟨hne, hc.line other hline⟩
      · obtain ⟨edge, hedge, rfl, -⟩ := Delivery.mem_ofFiring.1 hreceives
        exact hc.unfired_of_next h hf hunfired hedge
    rw [unfired_update]
    exact (List.mem_erase_of_ne hmem.1).2 hmem.2
  full := by
    intro other node' entry' given' hcalls hother key hkey
    by_cases heq : other = id
    · subst heq
      obtain ⟨-, rfl⟩ := hf.calls.unique hcalls
      rw [Function.update_self] at hother
      cases hother
      exact hgiven key hkey
    · rw [Function.update_of_ne heq] at hother
      exact hc.full hcalls hother key hkey
  recorded := by
    intro b hb hsome
    refine contains_recordOutputs ?_
    by_cases heq : b.address.id = id
    · obtain ⟨node', entry', hcalls, hout⟩ := h.read b hb
      rw [heq] at hcalls
      obtain ⟨-, rfl⟩ := hf.calls.unique hcalls
      exact .inr ⟨b, hb, heq, rfl, hgiven _ (List.contains_iff_mem.1 hout)⟩
    · rw [Function.update_of_ne heq] at hsome
      exact .inl (hc.recorded b hb hsome)

/-- When nothing is ready, everything has fired. -/
theorem fired_of_not_ready (hc : p.Course c start results frames outputs)
    (h : p.Served c rank start) (hready : ∀ id, ¬ p.Ready c frames id)
    (hnode : (p.node? id).isSome) : (results id).isSome := by
  by_contra hnone
  obtain ⟨other, hother⟩ := hc.exists_ready h hnode (Option.not_isSome_iff_eq_none.1 hnone)
  exact hready other hother

/-- When nothing is ready, every output has a value. -/
theorem complete (hc : p.Course c start results frames outputs) (h : p.Served c rank start)
    (hready : ∀ id, ¬ p.Ready c frames id) (b : Binding) (hb : b ∈ p.output) :
    outputs.contains b.name = true := by
  obtain ⟨node, entry, hcalls, -⟩ := h.read b hb
  refine hc.recorded b hb (hc.fired_of_not_ready h hready ?_)
  rw [hcalls.node_eq]
  rfl

end Course

end Program

/-! ### Events -/

namespace Session

variable {s : Session}

theorem Uncut.note (h : s.Uncut) (n : Note) : (Run.note n s).2.Uncut := h

theorem Uncut.emit (h : s.Uncut) (observer : Observer) {e : Event}
    (he : e.kind ≠ "budgetExhausted") : (Run.emit observer e s).2.Uncut := by
  intro e' he'
  rw [Run.emit_events, Array.mem_push] at he'
  rcases he' with he' | rfl
  · exact h e' he'
  · exact he

end Session

/-- A script that neither calls nor draws tells no events. -/
theorem Script.events_of_value? {α : Type} {script : Script α} {a : α}
    (h : script.value? = some a) (answer : String → Record Json → Run (Record Json)) (s : Session) :
    (script.perform answer s).2.events = s.events := by
  induction script generalizing s with
  | done b => rfl
  | remark level text next ih => exact ih h _
  | fail | crash | call | random => cases h

namespace Host

variable {host : Host} {nested : Executor} {caller : String} {p : Program} {id : String}
  {frame : Frame} {frames rest start : FrameQueue} {outputs : Record Json} {s : Session}
  {rank : String → Nat} {results : String → Option Outputs} {steps : Nat}

private theorem announced_uncut (h : s.Uncut) (function : String) :
    (host.announced caller id function s).Uncut :=
  (h.note _).emit _ (by simp [Event.kind])

private theorem deliver_uncut (signature : Signature) (given : Outputs) (edges : List Edge)
    (frames : FrameQueue) (h : s.Uncut) :
    (host.deliver id signature given edges frames s).2.Uncut := by
  intro e he
  rw [← Array.mem_toList_iff, deliver_events, List.mem_append, Array.mem_toList_iff] at he
  rcases he with he | he
  · exact h e he
  · obtain ⟨edge, -, rfl⟩ := List.mem_map.1 he
    simp [Event.kind]

/-- A step tells of an exhausted budget only if the call that it makes does. -/
theorem process_uncut (h : s.Uncut)
    (hcall : ∀ node entry extraction, p.Calls host.catalog id node entry →
      node.isReady entry.signature frame = true →
      Callback.extract p id entry.signature frames = .ok extraction →
      (host.invokeCached nested node.function entry (node.arguments entry.signature frame)
        extraction.closures caller (host.announced caller id node.function s)).2.Uncut) :
    (host.process nested caller p id frame frames outputs s).2.Uncut := by
  refine process_cases (P := fun result => result.2.Uncut) ?_ ?_ ?_ ?_ ?_ ?_
  · exact fun _ => h.note _
  · exact fun _ _ _ => h
  · exact fun _ _ _ _ _ => h.note _
  · exact fun _ _ _ _ _ _ _ => h
  · intro node entry extraction halt s₂ hnode hentry hready hextract hinvoke
    have hafter := hcall node entry extraction ⟨hnode, hentry⟩ hready hextract
    rw [hinvoke] at hafter
    exact hafter
  · intro node entry extraction given s₂ hnode hentry hready hextract hinvoke
    have hafter := hcall node entry extraction ⟨hnode, hentry⟩ hready hextract
    rw [hinvoke] at hafter
    exact deliver_uncut _ _ _ _ hafter

/-! ### Runs -/

/-- The functions that a program calls never fail: given all declared inputs, they give a value for
every declared output, and none of their own executions is cut off. -/
def Reliable (nested : Executor) (p : Program) (c : Catalog) : Prop :=
  ∀ id node entry args, p.Calls c id node entry →
    (∀ key ∈ entry.signature.inputNames, args.contains key = true) →
    ∀ caller s, s.cache = none →
      ∃ given s', invoke nested node.function entry args .empty caller s = (.ok given, s') ∧
        (s.Uncut → s'.Uncut) ∧
        ∀ key ∈ entry.signature.outputNames, ∃ value, given.get? key = some (.value value)

/-- Native functions of which each call settles on values are reliable. -/
theorem reliable_of_value? {c : Catalog}
    (h : ∀ id node entry, p.Calls c id node entry → ∃ signature runner,
      entry = .native signature runner ∧ ∀ args,
        (∀ key ∈ signature.inputNames, args.contains key = true) →
        ∃ given, (runner args []).value? = some given ∧
          ∀ key ∈ signature.outputNames, ∃ value, given.get? key = some (.value value)) :
    Reliable nested p c := by
  intro id node entry args hcalls hargs caller s _
  obtain ⟨signature, runner, rfl, hrunner⟩ := h id node entry hcalls
  obtain ⟨given, hgiven, hfull⟩ := hrunner args hargs
  refine ⟨given, _, Prod.ext (Script.perform_of_value? hgiven _ s) rfl, fun hs => ?_, hfull⟩
  have hevents : (invoke nested node.function (.native signature runner) args .empty caller
      s).2.events = s.events := Script.events_of_value? hgiven _ s
  rw [Session.Uncut, hevents]
  exact hs

/-- The call of a ready node gives all its outputs. -/
theorem Reliable.call (hr : Reliable nested p host.catalog) (h : p.Served host.catalog rank start)
    {node : Node} {entry : Entry} (hcalls : p.Calls host.catalog id node entry)
    (hready : node.isReady entry.signature frame = true) {extraction : Extraction}
    (hextract : Callback.extract p id entry.signature frames = .ok extraction)
    (hcache : s.cache = none) (caller : String) :
    ∃ given s', host.invokeCached nested node.function entry (node.arguments entry.signature frame)
        extraction.closures caller s = (.ok given, s') ∧ (s.Uncut → s'.Uncut) ∧
      ∀ key ∈ entry.signature.outputNames, ∃ value, given.get? key = some (.value value) := by
  cases (Callback.extract_of_plain (h.plain hcalls) p id frames).symm.trans hextract
  rw [invokeCached_of_none (by rw [hcache]; rfl)]
  exact hr id node entry _ hcalls (fun key hkey => (Node.contains_arguments hready key).2 hkey)
    caller s hcache

/-- No step of a program whose functions are reliable fails. -/
theorem Processed.ok_of_reliable (hr : Reliable nested p host.catalog)
    (h : p.Served host.catalog rank start) {firing : Option Firing}
    {result : Except Halt Progress × Session} (hcache : s.cache = none)
    (hprocessed : host.Processed nested caller p id frame rest outputs s firing result) :
    ∃ progress, result.1 = .ok progress := by
  cases hprocessed with
  | dropped | deferred | fired => exact ⟨_, rfl⟩
  | unknown hnode hentry =>
    obtain ⟨entry, hcalls⟩ := h.known hnode
    cases hentry.symm.trans hcalls.entry_eq
  | @unwired node entry error hnode hentry _ hextract =>
    have hplain : entry.signature.callbacks = .empty := h.plain ⟨hnode, hentry⟩
    cases (Callback.extract_of_plain hplain p id rest).symm.trans hextract
  | failed hnode hentry hready hextract hquiet hcall =>
    obtain ⟨given, s', hgiven, -⟩ :=
      hr.call h ⟨hnode, hentry⟩ hready hextract (hquiet.cache.trans hcache) caller
    cases hcall.symm.trans hgiven

/-- A step keeps the run going and leaves enough steps for the rest. -/
theorem Processed.course (hr : Reliable nested p host.catalog)
    (h : p.Served host.catalog rank start)
    (hc : p.Course host.catalog start results frames outputs)
    (hample : p.Ample host.catalog p.waits results frames (steps + 1))
    (hpop : frames.pop? = some ((id, frame), rest)) (hcache : s.cache = none)
    {firing : Option Firing} {progress : Progress} {s' : Session}
    (hprocessed : host.Processed nested caller p id frame rest outputs s firing
      (.ok progress, s')) :
    (∃ outputs', progress = .complete outputs' ∧ p.isComplete outputs' = true) ∨
      ∃ frames' outputs' results', progress = .next frames' outputs' ∧
        p.Course host.catalog start results' frames' outputs' ∧
        p.Ample host.catalog p.waits results' frames' steps := by
  obtain ⟨horder, hframe, -⟩ := FrameQueue.pop?_eq_some hc.sound hpop
  rcases hprocessed.advance h.toWired hc.toWave hpop with ⟨hnode, -⟩ | ⟨hnot, rfl⟩ |
    ⟨node, entry, extraction, given, s₁, s₂, hf, hready, hextract, hquiet, hcall, rfl⟩
  · have hknown := (Program.mem_unfired.1 (hc.line id (horder ▸ List.mem_cons_self ..))).1
    rw [hnode] at hknown
    cases hknown
  · exact .inr ⟨_, _, results, rfl, hc.defer hpop, hample.defer hc.sound hpop hnot⟩
  · obtain ⟨given', s₂', hcall', -, hfull⟩ :=
      hr.call h hf.calls hready hextract (hquiet.cache.trans hcache) caller
    cases hcall.symm.trans hcall'
    have hnext := hc.fire h hpop hf hfull
    split
    · exact .inl ⟨_, rfl, by assumption⟩
    · refine .inr ⟨_, _, _, rfl, hnext, hnext.toWave.ample hnext.line ?_ ?_⟩
      · exact fun other hother hnot => hnext.waits_of_not_ready h hother hnot
      · exact hample.toll_le hc.sound hpop ⟨node, entry, frame, hf.calls, hframe, hready⟩

/-- **A run that has enough steps is not cut off**, and all its outputs get a value. -/
theorem drain_completes (hn : nested.Steady) (hr : Reliable nested p host.catalog)
    (h : p.Served host.catalog rank start) (caller : String) (steps : Nat) (frames : FrameQueue)
    (hc : p.Course host.catalog start results frames outputs)
    (hample : p.Ample host.catalog p.waits results frames steps) (hcache : s.cache = none) :
    ∃ final s', host.drain nested caller p steps frames outputs s = (.ok final, s') ∧
      (∀ b ∈ p.output, final.contains b.name = true) ∧ (s.Uncut → s'.Uncut) := by
  -- By induction on the steps. `Ample` says that they last until nothing is ready any more, and in
  -- a program in which everything is served nothing is left unfired then.
  induction steps generalizing frames outputs results s with
  | zero =>
    rw [drain]
    have hready := hample.not_ready
    cases hpop : frames.pop? with
    | none => exact ⟨outputs, s, rfl, hc.complete h hready, id⟩
    | some popped =>
      -- Everything has fired, so no frame is left in line.
      obtain ⟨⟨id, frame⟩, rest⟩ := popped
      obtain ⟨horder, -, -⟩ := FrameQueue.pop?_eq_some hc.sound hpop
      obtain ⟨hnode, hnone⟩ :=
        Program.mem_unfired.1 (hc.line id (horder ▸ List.mem_cons_self ..))
      have hsome := hc.fired_of_not_ready h hready hnode
      rw [hnone] at hsome
      cases hsome
  | succ steps ih =>
    rw [drain]
    cases hpop : frames.pop? with
    | none => exact ⟨outputs, s, rfl, hc.complete h (hc.toWave.not_ready_of_empty hpop), id⟩
    | some popped =>
      obtain ⟨⟨id, frame⟩, rest⟩ := popped
      obtain ⟨firing, hprocessed⟩ : ∃ firing, host.Processed nested caller p id frame rest outputs s
          firing (host.process nested caller p id frame rest outputs s) := ⟨_, process_processed⟩
      obtain ⟨progress, hprogress⟩ := hprocessed.ok_of_reliable hr h hcache
      have hprocess : host.process nested caller p id frame rest outputs s =
          (.ok progress, (host.process nested caller p id frame rest outputs s).2) :=
        Prod.ext hprogress rfl
      have huncut : s.Uncut → (host.process nested caller p id frame rest outputs s).2.Uncut := by
        refine fun hs => process_uncut hs fun node entry extraction hcalls hready hextract => ?_
        have hquiet := host.announced_quiet caller id node.function s
        obtain ⟨given, s', hcall, hs', -⟩ :=
          hr.call h hcalls hready hextract (hquiet.cache.trans hcache) caller
        rw [hcall]
        exact hs' (announced_uncut hs node.function)
      have hsteady := hprocessed.steady hn
      generalize (host.process nested caller p id frame rest outputs s).2 = s' at hprocess huncut
      rw [hprocess] at hprocessed hsteady
      simp only [Run.bind_eq]
      rw [Run.andThen_of_ok hprocess]
      rcases hprocessed.course hr h hc hample hpop hcache with
        ⟨outputs', rfl, hcomplete⟩ | ⟨frames', outputs', results', rfl, hc', hample'⟩
      · rw [Program.isComplete, Bool.and_eq_true] at hcomplete
        exact ⟨outputs', s', rfl, fun b hb => List.all_eq_true.1 hcomplete.2 b.name
          (List.mem_map.2 ⟨b, hb, rfl⟩), huncut⟩
      · obtain ⟨final, s'', hdrain, hfinal, hs''⟩ :=
          ih frames' hc' hample' (Session.cache_eq_none hcache hsteady)
        exact ⟨final, s'', hdrain, hfinal, fun hs => hs'' (huncut hs)⟩

/-- A program whose functions are reliable gives all its outputs, if its slack exceeds the number of
pairs of nodes with one that waits. -/
theorem runProgram_completes (host : Host) {depth : Nat} {inputs : Record Json}
    (hclean : p.validate host.catalog = []) (hacyclic : p.cycles host.catalog = [])
    (hplain : ∀ {id node entry}, p.Calls host.catalog id node entry →
      entry.signature.callbacks = .empty)
    (hsingle : ∀ {id node entry}, p.Calls host.catalog id node entry →
      ∀ key ∈ entry.signature.inputNames, p.sourceCount id node key = 1)
    (hinputs : ∀ b ∈ p.input, inputs.contains b.name = true)
    (hr : Reliable (host.execute depth) p host.catalog)
    (hpairs : waitingPairs p.waits p.ids < host.slack.toNat)
    (hsize : p.size + host.slack.toNat < 2 ^ 64) (hcache : s.cache = none) (caller : String) :
    ∃ final s', runProgram (host.execute (depth + 1)) p inputs caller s = (.ok final, s') ∧
      (∀ b ∈ p.output, final.contains b.name = true) ∧ (s.Uncut → s'.Uncut) := by
  obtain ⟨frames, hfirst⟩ := Program.exists_firstFrames hinputs
  obtain ⟨rank, -, hranked⟩ := p.exists_rank hacyclic
  have hserved := Program.served_of_validate hclean hplain hsingle hranked hfirst
  have hcourse := Program.Course.initial hserved
  have hsteps : toll p.waits (p.unfired fun _ => none) ≤ p.steps host.slack := by
    have hall : (p.unfired fun _ => none) = p.ids := List.filter_eq_self.2 fun _ _ => rfl
    have hlength : p.ids.length = p.size := List.length_map ..
    rw [hall, toll, hlength, steps_of_lt hsize]
    omega
  have hample := hcourse.toWave.ample hcourse.line
    (fun id hid hnot => hcourse.waits_of_not_ready hserved hid hnot) hsteps
  obtain ⟨final, s', hdrain, hfinal, hs'⟩ := drain_completes (execute_steady host depth) hr hserved
    caller (p.steps host.slack) frames hcourse hample hcache
  exact ⟨final, s', (runProgram_of_ok hfirst caller s).trans hdrain, hfinal, hs'⟩

end Host

/-! ### Top-level runs -/

namespace Environment

/-- **Enough slack is never used up.** A clean program without data cycles calls only functions
without callbacks, every declared input of its nodes has exactly one source, its functions never
fail and give a value for each declared output, all its inputs are given, and nothing is cached.
Some of its nodes can stand in line before they are ready: those at which an edge arrives and
another edge or an input as well. If the slack exceeds the number of pairs of nodes of which at
least one is such a node, then a run gives a value for every output and never tells of an exhausted
budget. -/
theorem run_completes {env : Environment} {p : Program} {inputs : Record Json} {depth : Nat}
    (hclean : p.validate env.catalog = []) (hacyclic : p.cycles env.catalog = [])
    (hplain : ∀ {id node entry}, p.Calls env.catalog id node entry →
      entry.signature.callbacks = .empty)
    (hsingle : ∀ {id node entry}, p.Calls env.catalog id node entry →
      ∀ key ∈ entry.signature.inputNames, p.sourceCount id node key = 1)
    (hinputs : ∀ b ∈ p.input, inputs.contains b.name = true)
    (hreliable : Host.Reliable (env.host.execute depth) p env.catalog) (hcache : env.cache = none)
    (hpairs : waitingPairs p.waits p.ids < env.config.budgetSlack.toNat)
    (hsize : p.size + env.config.budgetSlack.toNat < 2 ^ 64) {deeper : Nat}
    (hdeeper : depth < deeper) (run : String) (random : RandomSource) :
    ∃ outputs, (env.runWithin deeper run random p inputs).outcome = .ok outputs ∧
      (∀ name ∈ p.outputNames, outputs.contains name = true) ∧
      ∀ e ∈ (env.runWithin deeper run random p inputs).events, e.kind ≠ "budgetExhausted" := by
  -- The session in which the program is run.
  let s₀ : Session := ⟨env.cache.map MemoCache.clear, #[], #[], random⟩
  let s₁ := (Run.emit env.observer .runStarted (Run.note (.runStarted run p.size) s₀).2).2
  have hcache₁ : s₁.cache = none := by
    rw [(Run.emit_outcome ..).2]
    show env.cache.map MemoCache.clear = none
    rw [hcache]
    rfl
  have huncut₁ : s₁.Uncut :=
    Session.Uncut.emit (s := (Run.note (.runStarted run p.size) s₀).2)
      (fun e he => absurd he (Array.not_mem_empty e)) env.observer (by decide)
  obtain ⟨outputs, s₂, hrun, houtputs, huncut₂⟩ := Host.runProgram_completes env.host hclean
    hacyclic hplain hsingle hinputs hreliable hpairs hsize hcache₁ mainCaller
  have hsession : env.session (depth + 1) run p inputs s₀ = (.ok outputs,
      (Run.emit env.observer (.runCompleted outputs.names)
        (Run.note (.runCompleted run outputs.names) s₂).2).2) := by
    rw [session, Run.bind_eq, Run.andThen_of_ok (Run.note_eq ..), Run.bind_eq,
      Run.andThen_of_ok (Run.emit_eq ..), Run.bind_eq, Run.andThen_of_ok (Run.attempt_of_ok hrun)]
    simp only [Run.bind_eq]
    rw [Run.andThen_of_ok (Run.note_eq ..), Run.andThen_of_ok (Run.emit_eq ..)]
    rfl
  have houtcome : (env.runWithin (depth + 1) run random p inputs).outcome = .ok outputs :=
    congrArg Prod.fst hsession
  have hevents : (env.runWithin (depth + 1) run random p inputs).events = _ :=
    congrArg (fun result => result.2.events) hsession
  rw [runWithin_persists hdeeper (by rw [houtcome]; exact fun h => nomatch h)]
  refine ⟨outputs, houtcome, fun name hname => ?_, ?_⟩
  · obtain ⟨b, hb, rfl⟩ := List.mem_map.1 hname
    exact houtputs b hb
  · rw [hevents]
    exact ((huncut₂ huncut₁).note _).emit env.observer (by simp [Event.kind])

/-- The library with the default settings. -/
def standard : Environment := ⟨Library.catalog, .default, none, fun _ => none⟩

end Environment

/-- The nodes of a relay: each choice decides about the next one. -/
def relayNodes (first : List (String × Json)) : List String → List (String × Node)
  | [] => []
  | [id] => [(id, ⟨"ctrl.if", [], .ofList (("false", .bool false) :: first)⟩)]
  | id :: next :: rest =>
    (id, ⟨"ctrl.if", [⟨next, "data", "condition"⟩], .ofList (("false", .bool false) :: first)⟩) ::
      relayNodes [] (next :: rest)

/-- A line of choices that pass a flag on. All of them get it, the last one first. -/
def relay (ids : List String) : Program where
  input := ids.reverse.map fun id => ⟨"flag", ⟨id, "true"⟩, .bool⟩
  output := ids.getLast?.toList.map fun id => ⟨"out", ⟨id, "data"⟩, .bool⟩
  nodes := .ofList (relayNodes [("condition", .bool true)] ids)

/-- A choice that has all its inputs gives a value. -/
theorem Library.ctrlIf_value? {args : Record Json}
    (h : ∀ key ∈ ctrlIf.signature.inputNames, args.contains key = true) :
    ∃ given, (ctrlIf.runner args []).value? = some given ∧
      ∀ key ∈ ctrlIf.signature.outputNames, ∃ value, given.get? key = some (.value value) := by
  obtain ⟨condition, hcondition⟩ := Record.contains_eq_true.1 (h "condition" (by decide))
  obtain ⟨yes, hyes⟩ := Record.contains_eq_true.1 (h "true" (by decide))
  obtain ⟨no, hno⟩ := Record.contains_eq_true.1 (h "false" (by decide))
  have hruns : (ctrlIf.runner args []).value? =
      some (single "data" (if truthy condition then yes else no)) := by
    show (Script.ofExcept (argument args "condition" >>= fun condition => _)).value? = _
    rw [argument, hcondition]
    show (Script.ofExcept (argument args (if truthy condition then "true" else "false") >>=
      fun data => _)).value? = _
    cases truthy condition with
    | true =>
      rw [if_pos rfl, if_pos rfl, argument, hyes]
      rfl
    | false =>
      rw [if_neg Bool.false_ne_true, if_neg Bool.false_ne_true, argument, hno]
      rfl
  refine ⟨_, hruns, fun key hkey => ?_⟩
  have hdata : key = "data" := List.mem_singleton.1 hkey
  rw [hdata, single, Record.get?_insert_self]
  exact ⟨_, rfl⟩

private theorem relay_function {ids : List String} {id : String} {node : Node}
    (h : (relay ids).node? id = some node) : node.function = "ctrl.if" := by
  have hnodes : ∀ (ids : List String) (first : List (String × Json)), ∀ x ∈ relayNodes first ids,
      x.2.function = "ctrl.if" := by
    intro ids
    induction ids with
    | nil => simp [relayNodes]
    | cons id more ih =>
      intro first x hx
      cases more with
      | nil =>
        rw [List.mem_singleton.1 hx]
      | cons next rest =>
        rcases List.mem_cons.1 hx with rfl | hx
        · rfl
        · exact ih [] x hx
  exact hnodes ids _ _ (Table.mem_of_get?_ofList h)

private theorem relay_reliable (nested : Executor) (ids : List String) :
    Host.Reliable nested (relay ids) Environment.standard.catalog := by
  refine Host.reliable_of_value? fun id node entry hcalls => ?_
  have hentry := hcalls.entry_eq
  rw [relay_function hcalls.node_eq] at hentry
  have hlookup : Environment.standard.catalog.get? "ctrl.if" =
      some (.native Library.ctrlIf.signature Library.ctrlIf.runner) := rfl
  cases hlookup.symm.trans hentry
  exact ⟨_, _, rfl, fun args hargs => Library.ctrlIf_value? hargs⟩

namespace Environment

/-- Four choices in a line have six pairs with one that waits. -/
theorem run_completes_relay :
    (relay ["a", "b", "c", "d"]).FeedForward standard.catalog ∧
    ∃ outputs, (standard.run "" default (relay ["a", "b", "c", "d"])
        (.ofList [("flag", .bool true)])).outcome = .ok outputs ∧
      (∀ name ∈ (relay ["a", "b", "c", "d"]).outputNames, outputs.contains name = true) ∧
      ∀ e ∈ (standard.run "" default (relay ["a", "b", "c", "d"])
        (.ofList [("flag", .bool true)])).events, e.kind ≠ "budgetExhausted" := by
  have hfeed : (relay ["a", "b", "c", "d"]).FeedForward standard.catalog := by decide +kernel
  have hinputs : ∀ b ∈ (relay ["a", "b", "c", "d"]).input,
      (Record.ofList [("flag", Json.bool true)]).contains b.name = true := by decide +kernel
  have hpairs : waitingPairs (relay ["a", "b", "c", "d"]).waits (relay ["a", "b", "c", "d"]).ids <
      standard.config.budgetSlack.toNat := by decide +kernel
  have hsize : (relay ["a", "b", "c", "d"]).size + standard.config.budgetSlack.toNat < 2 ^ 64 := by
    decide +kernel
  have hdeeper : 0 < depthLimit := Nat.pow_pos (by decide)
  exact ⟨hfeed, run_completes hfeed.clean hfeed.acyclic hfeed.plain hfeed.single hinputs
    (relay_reliable _ _) rfl hpairs hsize hdeeper "" default⟩

/-- With the default slack, a line of five choices is cut off before the last one fires. It has ten
pairs with a node that waits, just as many as the slack. -/
theorem run_cut_off_relay :
    (relay ["a", "b", "c", "d", "e"]).FeedForward standard.catalog ∧
    Host.Reliable (standard.host.execute 0) (relay ["a", "b", "c", "d", "e"]) standard.catalog ∧
    waitingPairs (relay ["a", "b", "c", "d", "e"]).waits (relay ["a", "b", "c", "d", "e"]).ids =
      standard.config.budgetSlack.toNat ∧
    (standard.run "" default (relay ["a", "b", "c", "d", "e"])
      (.ofList [("flag", .bool true)])).outcome = .ok .empty ∧
    Event.budgetExhausted mainCaller ["e"] ∈
      (standard.run "" default (relay ["a", "b", "c", "d", "e"])
        (.ofList [("flag", .bool true)])).events := by
  have houtcome : (standard.runWithin 1 "" default (relay ["a", "b", "c", "d", "e"])
      (.ofList [("flag", .bool true)])).outcome = .ok .empty := by decide +kernel
  have hevents : Event.budgetExhausted mainCaller ["e"] ∈
      (standard.runWithin 1 "" default (relay ["a", "b", "c", "d", "e"])
        (.ofList [("flag", .bool true)])).events := by decide +kernel
  have hdeeper : 1 ≤ depthLimit := Nat.pow_pos (by decide)
  have hrun : standard.run "" default (relay ["a", "b", "c", "d", "e"])
      (.ofList [("flag", .bool true)]) = standard.runWithin 1 "" default
        (relay ["a", "b", "c", "d", "e"]) (.ofList [("flag", .bool true)]) :=
    runWithin_persists hdeeper (by rw [houtcome]; exact fun h => nomatch h)
  refine ⟨by decide +kernel, relay_reliable _ _, by decide +kernel, ?_, ?_⟩
  · rw [hrun, houtcome]
  · rw [hrun]
    exact hevents

end Environment

end Dataflow
