/-
The frames of a run that can be followed.

While a run goes on, some nodes have given results. In a wired program these results say what the
frames hold: nothing but what has been sent along the edges or was there at the start, and for a
node outside of bodies that has not fired, all of it. A node that is ready has heard from all its
sources, and a node in a body never is. A node may fire again, when a value for the output of its
callback puts it back in line. As long as it gives the same again, nothing changes.

* `Program.supplied` — what a node has for a key, given the results so far;
* `Program.Wave` — frames that go with the results;
* `Program.Wave.initial`, `Wave.drop`, `Wave.defer`, `Wave.fire` — the steps of the scheduler keep
  them so;
* `Program.Wave.supplied_update` — what was supplied to a fired node is final;
* `Host.Processed.advance` — a step drops a frame, puts it back or fires a node.
-/
import Mathlib
import Dataflow.Proofs.Completion
import Dataflow.Proofs.Scope
namespace Dataflow

namespace FrameQueue

variable {q rest : FrameQueue} {id : String} {frame : Frame}

/-- The queue after a frame was taken and others were dropped. -/
theorem get?_popped_removed (hq : q.Sound) (hpop : q.pop? = some ((id, frame), rest))
    (ids : List String) (other : String) : (ids.foldl remove rest).get? other =
      if other ∈ ids ∨ other = id then none else q.get? other := by
  obtain ⟨-, -, hrest⟩ := pop?_eq_some hq hpop
  rw [get?_foldl_remove, hrest]
  by_cases hids : other ∈ ids <;> by_cases hother : other = id <;> simp [hids, hother]

theorem gathered_popped_removed (hq : q.Sound) (hpop : q.pop? = some ((id, frame), rest))
    (ids : List String) (other key : String) : (ids.foldl remove rest).gathered other key =
      if other ∈ ids ∨ other = id then none else q.gathered other key := by
  rw [gathered, get?_popped_removed hq hpop, gathered]
  split <;> rfl

theorem mem_popped_removed (hq : q.Sound) (hpop : q.pop? = some ((id, frame), rest))
    (ids : List String) (other : String) : other ∈ (ids.foldl remove rest).order ↔
      other ∈ q.order ∧ other ∉ ids ∧ other ≠ id := by
  rw [((hq.pop hpop).foldl_remove ids).mem_order, hq.mem_order, get?_popped_removed hq hpop]
  by_cases hids : other ∈ ids <;> by_cases hother : other = id <;> simp [hids, hother]

end FrameQueue

/-- The nodes that a firing sends something to. -/
theorem Delivery.mem_ofFiring {signature : Signature} {given : Outputs} {edges : List Edge}
    {other : String} : (∃ d ∈ Delivery.ofFiring signature given edges, d.id = other) ↔
      ∃ edge ∈ edges, edge.target = other ∧ (edge.carried? signature given).isSome := by
  constructor
  · rintro ⟨d, hd, rfl⟩
    obtain ⟨edge, hedge, hvalue⟩ := List.mem_filterMap.1 hd
    obtain ⟨value, hcarried, rfl⟩ := Option.map_eq_some_iff.1 hvalue
    exact ⟨edge, hedge, rfl, by rw [hcarried]; rfl⟩
  · rintro ⟨edge, hedge, rfl, hcarried⟩
    obtain ⟨value, hvalue⟩ := Option.isSome_iff_exists.1 hcarried
    exact ⟨⟨edge.target, edge.toKey, value⟩,
      List.mem_filterMap.2 ⟨edge, hedge, by rw [hvalue]; rfl⟩, rfl⟩

namespace Program

variable {p : Program} {c : Catalog} {start frames rest : FrameQueue}
  {results : String → Option Outputs} {id other key : String} {node receiver : Node}
  {entry called : Entry} {frame : Frame} {given : Outputs} {value : Json}

/-! ### What has been supplied -/

/-- What has been sent along an edge when the nodes have given `results`. -/
def sent (p : Program) (c : Catalog) (results : String → Option Outputs) (e : String × Edge) :
    Option Json :=
  (p.node? e.1).bind fun node => (c.get? node.function).bind fun entry =>
    (results e.1).bind fun outputs => e.2.carried? entry.signature outputs

theorem sent_eq {e : String × Edge} (hcalls : p.Calls c e.1 node entry) :
    p.sent c results e =
      (results e.1).bind fun outputs => e.2.carried? entry.signature outputs := by
  rw [sent, hcalls.node_eq, Option.bind_some, hcalls.entry_eq, Option.bind_some]

private theorem sent_of_none {e : String × Edge} (h : results e.1 = none) :
    p.sent c results e = none := by
  rw [sent, h]
  cases p.node? e.1 with
  | none => rfl
  | some node => cases c.get? node.function <;> simp

theorem isSome_of_sent {e : String × Edge} (h : (p.sent c results e).isSome) :
    (results e.1).isSome := by
  by_contra hnone
  rw [sent_of_none (Option.not_isSome_iff_eq_none.1 hnone)] at h
  cases h

/-- Nothing is sent along the edges into callbacks. -/
theorem sent_of_feeding {e : String × Edge} (hcalls : p.Calls c e.1 node entry)
    (hseparate : entry.signature.Separate)
    (hkey : entry.signature.hasCallbackInput e.2.fromKey = true) : p.sent c results e = none := by
  have hnot : ¬ entry.signature.hasOutput e.2.fromKey = true := by
    intro hout
    rw [hseparate.of_hasOutput hout] at hkey
    cases hkey
  rw [sent_eq hcalls]
  cases results e.1 with
  | none => rfl
  | some outputs => rw [Option.bind_some, Edge.carried?, if_neg hnot]

/-- The value for a key of a node: what was sent along an edge, or what was there at the start. -/
def supplied (p : Program) (c : Catalog) (start : FrameQueue) (results : String → Option Outputs)
    (id key : String) : Option Json :=
  (p.edgesTo id key).findSome? (p.sent c results) <|> start.gathered id key

private theorem supplied_congr {results' : String → Option Outputs}
    (hsent : ∀ e ∈ p.edgesTo id key, p.sent c results e = p.sent c results' e) :
    p.supplied c start results id key = p.supplied c start results' id key := by
  have hedges : (p.edgesTo id key).findSome? (p.sent c results) =
      (p.edgesTo id key).findSome? (p.sent c results') := by
    rw [← List.head?_filterMap, ← List.head?_filterMap, List.filterMap_congr hsent]
  rw [supplied, supplied, hedges]

theorem supplied_of_no_edge (h : ∀ e, e ∉ p.edgesTo id key) :
    p.supplied c start results id key = start.gathered id key := by
  rw [supplied, List.eq_nil_iff_forall_not_mem.2 h]
  rfl

/-- An edge to a declared input supplies what was sent along it. -/
theorem Wired.supplied_of_edge (h : p.Wired c start) (hcalls : p.Calls c id node entry)
    (hkey : key ∈ entry.signature.inputNames) {e : String × Edge} (he : e ∈ p.edgesTo id key) :
    p.supplied c start results id key = p.sent c results e := by
  rw [supplied, (h.fed hcalls hkey he).1]
  cases hfound : (p.edgesTo id key).findSome? (p.sent c results) with
  | none =>
    rw [List.findSome?_eq_none_iff.1 hfound e he]
    rfl
  | some value =>
    obtain ⟨e', he', hvalue⟩ := List.exists_of_findSome?_eq_some hfound
    rw [← h.alone hcalls hkey he he', hvalue]
    rfl

/-- Frames that go with the results of the nodes that have fired. -/
structure Wave (p : Program) (c : Catalog) (start : FrameQueue) (results : String → Option Outputs)
    (frames : FrameQueue) : Prop where
  sound : frames.Sound
  fired : ∀ {id}, (results id).isSome → ¬ p.Inside c id
  /-- Nodes fire after all their sources. -/
  settled : ∀ {id node entry}, p.Calls c id node entry → (results id).isSome →
    ∀ e ∈ p.incoming id, entry.signature.hasInput e.2.toKey = true → (results e.1).isSome
  waiting : ∀ id ∈ frames.order, id ∈ start.order ∨ (p.node? id).isSome
  /-- Frames hold what has been supplied, -/
  held : ∀ {id node entry}, p.Calls c id node entry → ∀ {key}, key ∈ entry.signature.inputNames →
    ∀ {value}, frames.gathered id key = some value →
      p.supplied c start results id key = some value
  /-- and outside of bodies all of it, until the node fires. -/
  gathered : ∀ {id node entry}, p.Site c id node entry → results id = none →
    ∀ {key}, key ∈ entry.signature.inputNames →
      frames.gathered id key = p.supplied c start results id key
  reached : ∀ {id node entry}, p.Site c id node entry → results id = none →
    (id ∈ frames.order ↔ id ∈ start.order ∨ ∃ e ∈ p.incoming id, (p.sent c results e).isSome)

/-- What is known of a node that can fire. -/
structure Firable (p : Program) (c : Catalog) (results : String → Option Outputs) (id : String)
    (node : Node) (entry : Entry) : Prop extends p.Site c id node entry where
  sources : ∀ e ∈ p.incoming id, entry.signature.hasInput e.2.toKey = true → (results e.1).isSome

namespace Wave

/-- Nothing has fired at the start. -/
theorem initial (h : p.Wired c start) : p.Wave c start (fun _ => none) start := by
  have hsent : ∀ e, p.sent c (fun _ => none) e = none := fun e => sent_of_none rfl
  have hsupplied : ∀ id key, p.supplied c start (fun _ => none) id key = start.gathered id key := by
    intro id key
    rw [supplied, List.findSome?_eq_none_iff.2 fun e _ => hsent e]
    rfl
  refine ⟨h.sound, (fun hsome => nomatch hsome), (fun _ hsome => nomatch hsome),
    fun id hid => .inl hid, ?_, ?_, ?_⟩
  · intro id node entry _ key _ value hvalue
    rw [hsupplied, hvalue]
  · intro id node entry _ _ key _
    rw [hsupplied]
  · intro id node entry _ _
    simp [hsent]

/-- A frame in the queue holds nothing but what has been supplied to its node. -/
theorem supplied_of_frame (hw : p.Wave c start results frames)
    (hframe : frames.get? id = some frame) (hcalls : p.Calls c id node entry)
    (hkey : key ∈ entry.signature.inputNames) (hvalue : frame.get? key = some value) :
    p.supplied c start results id key = some value := by
  refine hw.held hcalls hkey ?_
  rw [FrameQueue.gathered, hframe]
  exact hvalue

/-- Before it fires, the frame of a node outside of bodies holds all of it. -/
theorem get?_frame (hw : p.Wave c start results frames) (hframe : frames.get? id = some frame)
    (hsite : p.Site c id node entry) (hunfired : results id = none)
    (hkey : key ∈ entry.signature.inputNames) :
    frame.get? key = p.supplied c start results id key := by
  rw [← hw.gathered hsite hunfired hkey, FrameQueue.gathered, hframe]
  rfl

/-! ### Nodes that are ready -/

/-- A declared input that an edge feeds is there only when something was sent along the edge. -/
theorem sent_of_ready (hw : p.Wave c start results frames) (h : p.Wired c start)
    (hframe : frames.get? id = some frame) (hcalls : p.Calls c id node entry)
    (hready : node.isReady entry.signature frame = true) {e : String × Edge}
    (he : e ∈ p.incoming id) (hkey : entry.signature.hasInput e.2.toKey = true) :
    (p.sent c results e).isSome := by
  have hmem := Signature.mem_inputNames.2 hkey
  have hedge : e ∈ p.edgesTo id e.2.toKey := mem_edgesTo.2 ⟨he, rfl⟩
  have hhas := List.all_eq_true.1 hready _ hmem
  rw [(h.fed hcalls hmem hedge).2, Bool.or_false] at hhas
  obtain ⟨value, hvalue⟩ := Record.contains_eq_true.1 hhas
  rw [← h.supplied_of_edge hcalls hmem hedge, hw.supplied_of_frame hframe hcalls hmem hvalue]
  rfl

/-- Nodes inside a body are never ready: what they wait for is not sent. -/
theorem not_inside_of_ready (hw : p.Wave c start results frames) (h : p.Wired c start)
    (hframe : frames.get? id = some frame) (hcalls : p.Calls c id node entry)
    (hready : node.isReady entry.signature frame = true) : ¬ p.Inside c id := by
  intro hinside
  obtain ⟨e, he, ⟨node', entry', hcalls', hkey⟩, hsource⟩ := h.nested id hinside
  cases (hcalls.unique hcalls').2
  have hsent := hw.sent_of_ready h hframe hcalls hready he hkey
  rcases hsource with hbody | ⟨sender, sending, hsender, hfeeding⟩
  · exact hw.fired (isSome_of_sent hsent) hbody
  · rw [sent_of_feeding hsender (h.separate hsender) hfeeding] at hsent
    cases hsent

/-- A ready node can fire. -/
theorem firable (hw : p.Wave c start results frames) (h : p.Wired c start)
    (hframe : frames.get? id = some frame) (hcalls : p.Calls c id node entry)
    (hready : node.isReady entry.signature frame = true) : p.Firable c results id node entry where
  calls := hcalls
  outside := hw.not_inside_of_ready h hframe hcalls hready
  sources := fun _ he hkey => isSome_of_sent (hw.sent_of_ready h hframe hcalls hready he hkey)

/-- The frame of a ready node holds all that has been supplied to it, be it the first time or not.
-/
theorem get?_of_ready (hw : p.Wave c start results frames) (h : p.Wired c start)
    (hframe : frames.get? id = some frame) (hcalls : p.Calls c id node entry)
    (hready : node.isReady entry.signature frame = true)
    (hkey : key ∈ entry.signature.inputNames) :
    frame.get? key = p.supplied c start results id key := by
  cases hvalue : frame.get? key with
  | some value => exact (hw.supplied_of_frame hframe hcalls hkey hvalue).symm
  | none =>
    -- The key has a default, so nothing else supplies it.
    have hdefault := List.all_eq_true.1 hready key hkey
    rw [Record.contains, hvalue, Option.isSome_none, Bool.false_or] at hdefault
    by_cases hedge : ∃ e, e ∈ p.edgesTo id key
    · obtain ⟨e, he⟩ := hedge
      rw [(h.fed hcalls hkey he).2] at hdefault
      cases hdefault
    · push Not at hedge
      rw [supplied_of_no_edge hedge]
      by_contra hsome
      rw [h.given hcalls hkey (Option.isSome_iff_ne_none.2 (Ne.symm hsome))] at hdefault
      cases hdefault

/-! ### After a firing -/

private theorem sent_update_of_ne {e : String × Edge} (hne : e.1 ≠ id) :
    p.sent c (Function.update results id (some given)) e = p.sent c results e := by
  rw [sent, sent, Function.update_of_ne hne]

private theorem sent_update_self {edge : Edge} (hcalls : p.Calls c id node entry) :
    p.sent c (Function.update results id (some given)) (id, edge) =
      edge.carried? entry.signature given := by
  rw [sent_eq hcalls, Function.update_self, Option.bind_some]

theorem update_of_again (h : results id = some given) :
    Function.update results id (some given) = results :=
  Function.update_eq_self_iff.2 h.symm

/-- What has been sent before is still sent. -/
theorem sent_update_of_isSome {e : String × Edge}
    (hgiven : results id = none ∨ results id = some given) (hsent : (p.sent c results e).isSome) :
    p.sent c (Function.update results id (some given)) e = p.sent c results e := by
  rcases hgiven with hfresh | hagain
  · refine sent_update_of_ne fun heq => ?_
    have hsome := isSome_of_sent hsent
    rw [heq, hfresh] at hsome
    cases hsome
  · rw [update_of_again hagain]

theorem isSome_update (h : (results other).isSome) :
    (Function.update results id (some given) other).isSome := by
  by_cases hother : other = id
  · rw [hother, Function.update_self]
    rfl
  · rw [Function.update_of_ne hother]
    exact h

/-- The edge of an incoming pair whose source is known stands among the source's own. -/
theorem mem_next_of_incoming {edge : Edge} (he : (id, edge) ∈ p.incoming other)
    (hnode : p.node? id = some node) : edge ∈ node.next ∧ edge.target = other := by
  obtain ⟨htarget, i, hmem⟩ := mem_incoming he
  obtain ⟨sender, hsender, hnext⟩ := mem_edges hmem
  cases hsender.symm.trans hnode
  exact ⟨hnext, htarget⟩

/-- **What was supplied to a fired node is final.** -/
theorem supplied_update (hw : p.Wave c start results frames)
    (hf : p.Firable c results id node entry) (hgiven : results id = none ∨ results id = some given)
    (hcalls : p.Calls c other receiver called)
    (hfired : (Function.update results id (some given) other).isSome)
    (hkey : key ∈ called.signature.inputNames) :
    p.supplied c start (Function.update results id (some given)) other key =
      p.supplied c start results other key := by
  rcases hgiven with hfresh | hagain
  · refine supplied_congr fun e he => sent_update_of_ne fun heq => ?_
    -- The node is no source of a node that has fired before it, nor of itself.
    have hincoming := (mem_edgesTo.1 he).1
    have hinput := Signature.mem_inputNames.1 ((mem_edgesTo.1 he).2.symm ▸ hkey)
    have hsome : (results e.1).isSome := by
      by_cases hother : other = id
      · subst hother
        cases (hf.calls.unique hcalls).2
        exact hf.sources e hincoming hinput
      · rw [Function.update_of_ne hother] at hfired
        exact hw.settled hcalls hfired e hincoming hinput
    rw [heq, hfresh] at hsome
    cases hsome
  · rw [update_of_again hagain]

/-- What was supplied for a declared input stays. -/
theorem supplied_mono (h : p.Wired c start)
    (hgiven : results id = none ∨ results id = some given)
    (hcalls : p.Calls c other receiver called) (hkey : key ∈ called.signature.inputNames)
    (hvalue : p.supplied c start results other key = some value) :
    p.supplied c start (Function.update results id (some given)) other key = some value := by
  by_cases hedge : ∃ e, e ∈ p.edgesTo other key
  · obtain ⟨e, he⟩ := hedge
    rw [h.supplied_of_edge hcalls hkey he] at hvalue ⊢
    rw [sent_update_of_isSome hgiven (by rw [hvalue]; rfl), hvalue]
  · push Not at hedge
    rw [supplied_of_no_edge hedge] at hvalue ⊢
    exact hvalue

/-- What a node has for a declared input after a firing elsewhere: the value that was sent to it, or
what it had. -/
theorem gathered_fire (h : p.Wired c start) (hf : p.Firable c results id node entry)
    (hgiven : results id = none ∨ results id = some given)
    (hcalls : p.Calls c other receiver called) (hkey : key ∈ called.signature.inputNames)
    (queue : FrameQueue) :
    (queue.receiveAll (Delivery.ofFiring entry.signature given node.next)).gathered other key =
        p.supplied c start (Function.update results id (some given)) other key ∨
      (queue.receiveAll (Delivery.ofFiring entry.signature given node.next)).gathered other key =
          queue.gathered other key ∧
        p.supplied c start (Function.update results id (some given)) other key =
          p.supplied c start results other key := by
  have hmem : ∀ edge ∈ node.next.filter (fun edge => edge.target = other ∧ edge.toKey = key),
      (id, edge) ∈ p.edgesTo other key :=
    fun edge hedge => (sublist_edgesTo hf.calls.node_eq).mem (List.mem_map.2 ⟨edge, hedge, rfl⟩)
  rw [FrameQueue.gathered_receiveAll, Delivery.filter_ofFiring]
  cases hlast : (Delivery.ofFiring entry.signature given
    (node.next.filter fun edge => edge.target = other ∧ edge.toKey = key)).getLast? with
  | some d =>
    -- The last delivery was made along the only edge that feeds the key.
    left
    obtain ⟨edge, hedge, hvalue⟩ := List.mem_filterMap.1 (List.mem_of_getLast? hlast)
    obtain ⟨value, hcarried, rfl⟩ := Option.map_eq_some_iff.1 hvalue
    rw [h.supplied_of_edge hcalls hkey (hmem edge hedge), sent_update_self hf.calls, hcarried]
    rfl
  | none =>
    refine .inr ⟨rfl, supplied_congr fun e he => ?_⟩
    rcases hgiven with hfresh | hagain
    swap
    · rw [update_of_again hagain]
    obtain ⟨source, edge⟩ := e
    by_cases hne : source = id
    · subst hne
      rw [sent_update_self hf.calls, sent_of_none hfresh]
      have hnone := List.filterMap_eq_nil_iff.1 (List.getLast?_eq_none_iff.1 hlast) edge
        (mem_next_of_edgesTo he hf.calls.node_eq)
      exact Option.map_eq_none_iff.1 hnone
    · exact sent_update_of_ne hne

/-! ### Steps -/

/-- A frame without a node is dropped. -/
theorem drop (hw : p.Wave c start results frames)
    (hpop : frames.pop? = some ((id, frame), rest)) (hnode : p.node? id = none) :
    p.Wave c start results rest := by
  obtain ⟨horder, -, hrest⟩ := FrameQueue.pop?_eq_some hw.sound hpop
  have hother : ∀ {other receiver called}, p.Calls c other receiver called →
      rest.get? other = frames.get? other := by
    intro other receiver called hcalls
    rw [hrest, if_neg]
    rintro rfl
    cases hnode.symm.trans hcalls.node_eq
  refine ⟨hw.sound.pop hpop, hw.fired, hw.settled, fun other hline => hw.waiting other ?_, ?_, ?_,
    ?_⟩
  · rw [horder]
    exact List.mem_cons_of_mem _ hline
  · intro other receiver called hcalls key hkey value hvalue
    rw [FrameQueue.gathered, hother hcalls] at hvalue
    exact hw.held hcalls hkey hvalue
  · intro other receiver called hsite hunfired key hkey
    rw [FrameQueue.gathered, hother hsite.calls]
    exact hw.gathered hsite hunfired hkey
  · intro other receiver called hsite hunfired
    rw [← hw.reached hsite hunfired, (hw.sound.pop hpop).mem_order, hw.sound.mem_order,
      hother hsite.calls]

/-- A frame that is not ready goes to the end of the line. -/
theorem defer (hw : p.Wave c start results frames)
    (hpop : frames.pop? = some ((id, frame), rest)) :
    p.Wave c start results (rest.defer id frame) := by
  have hget := FrameQueue.get?_popped_deferred hw.sound hpop
  have hgathered : ∀ other key, (rest.defer id frame).gathered other key =
      frames.gathered other key := by
    intro other key
    rw [FrameQueue.gathered, FrameQueue.gathered, hget]
  have hsound := (hw.sound.pop hpop).defer id frame
  have hmem : ∀ other, other ∈ (rest.defer id frame).order ↔ other ∈ frames.order := by
    intro other
    rw [hsound.mem_order, hw.sound.mem_order, hget]
  refine ⟨hsound, hw.fired, hw.settled,
    fun other hother => hw.waiting other ((hmem other).1 hother), ?_, ?_, ?_⟩
  · intro other receiver called hcalls key hkey value hvalue
    exact hw.held hcalls hkey (by rw [← hgathered, hvalue])
  · intro other receiver called hsite hunfired key hkey
    rw [hgathered, hw.gathered hsite hunfired hkey]
  · intro other receiver called hsite hunfired
    rw [hmem, hw.reached hsite hunfired]

/-- A node is in line after a firing if it was before or if something was sent to it. -/
theorem reached_fire (hw : p.Wave c start results frames)
    (hpop : frames.pop? = some ((id, frame), rest)) (hf : p.Firable c results id node entry)
    (hgiven : results id = none ∨ results id = some given)
    (hsite : p.Site c other receiver called) (hne : other ≠ id) (hunfired : results other = none) :
    other ∈ (((p.bodyOf id entry.signature).foldl FrameQueue.remove rest).receiveAll
        (Delivery.ofFiring entry.signature given node.next)).order ↔
      other ∈ start.order ∨ ∃ e ∈ p.incoming other,
        (p.sent c (Function.update results id (some given)) e).isSome := by
  have hbody : other ∉ p.bodyOf id entry.signature :=
    fun hmem => hsite.outside ⟨id, node, entry, hf.calls, hmem⟩
  rw [((hw.sound.pop hpop).foldl_remove _).mem_order_receiveAll,
    FrameQueue.mem_popped_removed hw.sound hpop, hw.reached hsite hunfired, Delivery.mem_ofFiring]
  constructor
  · rintro (⟨hbefore | ⟨e, he, hsent⟩, -⟩ | ⟨edge, hedge, rfl, hcarried⟩)
    · exact .inl hbefore
    · exact .inr ⟨e, he, by rwa [sent_update_of_isSome hgiven hsent]⟩
    · exact .inr ⟨(id, edge), incoming_of_next hf.calls.node_eq hedge,
        by rwa [sent_update_self hf.calls]⟩
  · rintro (hbefore | ⟨⟨source, edge⟩, he, hsent⟩)
    · exact .inl ⟨.inl hbefore, hbody, hne⟩
    · by_cases hsource : source = id
      · subst hsource
        obtain ⟨hnext, htarget⟩ := mem_next_of_incoming he hf.calls.node_eq
        rw [sent_update_self hf.calls] at hsent
        exact .inr ⟨edge, hnext, htarget, hsent⟩
      · rw [sent_update_of_ne hsource] at hsent
        exact .inl ⟨.inr ⟨(source, edge), he, hsent⟩, hbody, hne⟩

/-- **After a firing, the frames go with the next results.** A node that fires again has to give the
same again. -/
theorem fire (hw : p.Wave c start results frames) (h : p.Wired c start)
    (hpop : frames.pop? = some ((id, frame), rest)) (hf : p.Firable c results id node entry)
    (hgiven : results id = none ∨ results id = some given) :
    p.Wave c start (Function.update results id (some given))
      (((p.bodyOf id entry.signature).foldl FrameQueue.remove rest).receiveAll
        (Delivery.ofFiring entry.signature given node.next)) := by
  have hsound : ((p.bodyOf id entry.signature).foldl FrameQueue.remove rest).Sound :=
    (hw.sound.pop hpop).foldl_remove _
  have hunfired : ∀ {other}, Function.update results id (some given) other = none →
      other ≠ id ∧ results other = none := by
    intro other hnone
    have hne : other ≠ id := by
      rintro rfl
      rw [Function.update_self] at hnone
      cases hnone
    rw [Function.update_of_ne hne] at hnone
    exact ⟨hne, hnone⟩
  refine ⟨hsound.receiveAll _, ?_, ?_, ?_, ?_, ?_, ?_⟩
  · -- What fires lies outside of all bodies,
    intro other hsome
    by_cases hother : other = id
    · rw [hother]
      exact hf.outside
    · rw [Function.update_of_ne hother] at hsome
      exact hw.fired hsome
  · -- after its sources,
    intro other receiver called hcalls hsome e he hkey
    by_cases hother : other = id
    · subst hother
      cases (hf.calls.unique hcalls).2
      exact isSome_update (hf.sources e he hkey)
    · rw [Function.update_of_ne hother] at hsome
      exact isSome_update (hw.settled hcalls hsome e he hkey)
  · -- and frames come into line only for nodes.
    intro other hother
    rcases hsound.mem_order_receiveAll.1 hother with hwaiting | hreceives
    · exact hw.waiting other ((FrameQueue.mem_popped_removed hw.sound hpop _ _).1 hwaiting).1
    · obtain ⟨edge, hedge, rfl, -⟩ := Delivery.mem_ofFiring.1 hreceives
      obtain ⟨target, called, hcalled, -⟩ := h.edges hf.calls edge hedge
      exact .inr (by rw [hcalled.node_eq]; rfl)
  · -- A key of a frame is delivered now or is as before. What was in the popped frame and in those
    -- of the body is gone, so a frame holds no more than what has been supplied;
    intro other receiver called hcalls key hkey value hvalue
    rcases gathered_fire h hf hgiven hcalls hkey _ with hnew | ⟨hold, hsame⟩
    · rw [← hnew, hvalue]
    · rw [hold, FrameQueue.gathered_popped_removed hw.sound hpop] at hvalue
      rw [hsame]
      split at hvalue
      · cases hvalue
      · exact hw.held hcalls hkey hvalue
  · -- and outside of bodies no less, for nodes other than the one that fires.
    intro other receiver called hsite hnone key hkey
    obtain ⟨hne, hnone⟩ := hunfired hnone
    rcases gathered_fire h hf hgiven hsite.calls hkey _ with hnew | ⟨hold, hsame⟩
    · exact hnew
    · have hbody : other ∉ p.bodyOf id entry.signature :=
        fun hmem => hsite.outside ⟨id, node, entry, hf.calls, hmem⟩
      rw [hold, hsame, FrameQueue.gathered_popped_removed hw.sound hpop,
        if_neg (not_or.2 ⟨hbody, hne⟩), hw.gathered hsite hnone hkey]
  · intro other receiver called hsite hnone
    obtain ⟨hne, hnone⟩ := hunfired hnone
    exact hw.reached_fire hpop hf hgiven hsite hne hnone

end Wave

end Program

/-! ### A step of the scheduler -/

namespace Host

variable {host : Host} {nested : Executor} {caller : String} {p : Program} {id : String}
  {frame : Frame} {frames rest start : FrameQueue} {outputs : Record Json} {s s' : Session}
  {results : String → Option Outputs} {firing : Option Firing}
  {progress : Progress}

/-- **A step that does not fail drops a frame, puts it back or fires a node.** -/
theorem Processed.advance (h : p.Wired host.catalog start)
    (hw : p.Wave host.catalog start results frames)
    (hpop : frames.pop? = some ((id, frame), rest))
    (hprocessed : host.Processed nested caller p id frame rest outputs s firing
      (.ok progress, s')) :
    (p.node? id = none ∧ progress = .next rest outputs) ∨
    (¬ p.Ready host.catalog frames id ∧ progress = .next (rest.defer id frame) outputs) ∨
    ∃ node entry extraction given s₁ s₂, p.Firable host.catalog results id node entry ∧
      node.isReady entry.signature frame = true ∧
      Callback.extract p id entry.signature rest = .ok extraction ∧ s.Quiet s₁ ∧
      host.invokeCached nested node.function entry (node.arguments entry.signature frame)
        extraction.closures caller s₁ = (.ok given, s₂) ∧
      progress = if p.isComplete (p.recordOutputs id given outputs) then
          .complete (p.recordOutputs id given outputs)
        else .next (((p.bodyOf id entry.signature).foldl FrameQueue.remove rest).receiveAll
          (Delivery.ofFiring entry.signature given node.next))
          (p.recordOutputs id given outputs) := by
  obtain ⟨-, hframe, -⟩ := FrameQueue.pop?_eq_some hw.sound hpop
  generalize hresult : (Except.ok progress, s') = result at hprocessed
  cases hprocessed with
  | unknown | unwired | failed => cases hresult
  | dropped hnode _ =>
    cases hresult
    exact .inl ⟨hnode, rfl⟩
  | @deferred node entry _ hnode hentry hready _ =>
    cases hresult
    refine .inr (.inl ⟨?_, rfl⟩)
    rintro ⟨node', entry', frame', hcalls', hframe', hready'⟩
    obtain ⟨rfl, rfl⟩ := hcalls'.unique ⟨hnode, hentry⟩
    cases hframe.symm.trans hframe'
    rw [hready] at hready'
    cases hready'
  | @fired node entry extraction given s₁ s₂ _ hnode hentry hready hextract hquiet hcall _ =>
    cases hresult
    have hfirable := hw.firable h hframe ⟨hnode, hentry⟩ hready
    refine .inr (.inr ⟨node, entry, extraction, given, s₁, s₂, hfirable, hready, hextract, hquiet,
      hcall, ?_⟩)
    rw [Program.bodyOf, Callback.consumed_of_extract hnode hextract]

end Host

end Dataflow
