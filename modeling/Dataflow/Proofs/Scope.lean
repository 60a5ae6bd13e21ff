/-
Where values come from, and where the bodies of callbacks lie.

The nodes of a callback's body stand in the program around it but are run with the callback. A run
is easy to follow when every input has one source and the nodes of bodies do not run on their own:
each of them has an input that only a body or a callback can supply.

* `Program.bodyOf`, `Program.Inside` — the nodes of callback bodies;
* `Program.Nested`, `Program.Scoped` — bodies that do not run on their own, also inside of bodies;
* `Program.Wired` — programs that can be followed from the frames that they start with;
* `Program.Valid.wired` — where every input has one source, the first frames are such frames.
-/
import Mathlib
import Dataflow.Proofs.FeedForward
import Dataflow.Proofs.Slice
namespace Dataflow

/-! ### Signatures -/

namespace Signature

/-- No output is handed to a callback, and no callback gives a key twice. -/
structure Separate (s : Signature) : Prop where
  output : ∀ key ∈ s.outputNames, s.hasCallbackInput key = false
  given : ∀ callback ∈ s.bodies, (Param.names callback.output).Nodup

variable {s : Signature} {key : String}

theorem mem_inputNames : key ∈ s.inputNames ↔ s.hasInput key = true := by
  rw [hasInput, List.contains_iff_mem]

theorem Separate.of_hasOutput (h : s.Separate) (hkey : s.hasOutput key = true) :
    s.hasCallbackInput key = false :=
  h.output key (List.contains_iff_mem.1 hkey)

theorem separate_of_plain (h : s.callbacks = .empty) : s.Separate := by
  refine ⟨fun key _ => hasCallbackInput_of_plain h key, ?_⟩
  rw [bodies, h]
  exact fun callback hcallback => absurd hcallback List.not_mem_nil

end Signature

namespace Program

variable {p : Program} {c : Catalog} {id site : String} {signature : Signature}

/-! ### Bodies -/

/-- The nodes in the callback bodies of a call site. -/
def bodyOf (p : Program) (site : String) (signature : Signature) : List String :=
  Callback.body p site (Callback.feedingEdges p site signature)

private theorem bodyOf_of_plain (h : signature.callbacks = .empty) :
    p.bodyOf site signature = [] := by
  have hfeeding : Callback.feedingEdges p site signature = [] :=
    List.filter_eq_nil_iff.2 fun edge _ => by
      rw [Signature.hasCallbackInput_of_plain h]
      exact Bool.false_ne_true
  rw [bodyOf, hfeeding]
  rfl

theorem site_not_mem_bodyOf : site ∉ p.bodyOf site signature :=
  fun h => (Callback.mem_body.1 h).ne_site rfl

theorem mem_bodyOf_of_next (hid : id ∈ p.bodyOf site signature) {node : Node}
    (hnode : p.node? id = some node) {edge : Edge} (hedge : edge ∈ node.next)
    (hne : edge.target ≠ site) : edge.target ∈ p.bodyOf site signature :=
  Callback.mem_body.2
    ((Callback.mem_body.1 hid).next (Callback.mem_edgesOf.2 ⟨node, hnode, hedge⟩) hne)

theorem exists_calls {P : Entry → Prop} :
    (∃ node entry, p.Calls c id node entry ∧ P entry) ↔
      ∃ node ∈ p.node? id, ∃ entry ∈ c.get? node.function, P entry := by
  constructor
  · rintro ⟨node, entry, hcalls, h⟩
    exact ⟨node, hcalls.node_eq, entry, hcalls.entry_eq, h⟩
  · rintro ⟨node, hnode, entry, hentry, h⟩
    exact ⟨node, entry, ⟨hnode, hentry⟩, h⟩

/-- The node lies in the body of some callback. -/
def Inside (p : Program) (c : Catalog) (id : String) : Prop :=
  ∃ site node entry, p.Calls c site node entry ∧ id ∈ p.bodyOf site entry.signature

theorem not_inside_of_plain
    (h : ∀ {id node entry}, p.Calls c id node entry → entry.signature.callbacks = .empty) :
    ¬ p.Inside c id := by
  rintro ⟨site, node, entry, hcalls, hid⟩
  rw [bodyOf_of_plain (h hcalls)] at hid
  cases hid

private theorem inside_iff : p.Inside c id ↔
    ∃ x ∈ p.nodes.entries, ∃ entry ∈ c.get? x.2.function, id ∈ p.bodyOf x.1 entry.signature := by
  constructor
  · rintro ⟨site, node, entry, hcalls, hid⟩
    exact ⟨(site, node), Table.mem_entries.2 hcalls.node_eq, entry, hcalls.entry_eq, hid⟩
  · rintro ⟨⟨site, node⟩, hx, entry, hentry, hid⟩
    exact ⟨site, node, entry, ⟨Table.mem_entries.1 hx, hentry⟩, hid⟩

instance (p : Program) (c : Catalog) (id : String) : Decidable (p.Inside c id) :=
  decidable_of_iff' _ inside_iff

/-- The node calls a function and lies in no body. -/
structure Site (p : Program) (c : Catalog) (id : String) (node : Node) (entry : Entry) : Prop where
  calls : p.Calls c id node entry
  outside : ¬ p.Inside c id

/-- The nodes of bodies do not run on their own: each has a declared input that is fed from a body
or by a callback. -/
def Nested (p : Program) (c : Catalog) : Prop :=
  ∀ id, p.Inside c id → ∃ e ∈ p.incoming id,
    (∃ node entry, p.Calls c id node entry ∧ entry.signature.hasInput e.2.toKey = true) ∧
    (p.Inside c e.1 ∨ ∃ node entry, p.Calls c e.1 node entry ∧
      entry.signature.hasCallbackInput e.2.fromKey = true)

private theorem nested_iff : p.Nested c ↔
    ∀ x ∈ p.nodes.entries, ∀ entry ∈ c.get? x.2.function, ∀ id ∈ p.bodyOf x.1 entry.signature,
      ∃ e ∈ p.incoming id, (∃ node ∈ p.node? id, ∃ called ∈ c.get? node.function,
          called.signature.hasInput e.2.toKey = true) ∧
        (p.Inside c e.1 ∨ ∃ node ∈ p.node? e.1, ∃ called ∈ c.get? node.function,
          called.signature.hasCallbackInput e.2.fromKey = true) := by
  simp only [← exists_calls]
  constructor
  · intro h x hx entry hentry id hid
    exact h id ⟨x.1, x.2, entry, ⟨Table.mem_entries.1 hx, hentry⟩, hid⟩
  · rintro h id ⟨site, node, entry, hcalls, hid⟩
    exact h (site, node) (Table.mem_entries.2 hcalls.node_eq) entry hcalls.entry_eq id hid

instance (p : Program) (c : Catalog) : Decidable (p.Nested c) := decidable_of_iff' _ nested_iff

/-- A program without callbacks has no bodies. -/
theorem nested_of_plain
    (h : ∀ {id node entry}, p.Calls c id node entry → entry.signature.callbacks = .empty) :
    p.Nested c :=
  fun _ hinside => absurd hinside (not_inside_of_plain h)

/-- The nodes of bodies do not run on their own, neither in the program nor in the programs that are
cut out of it for callbacks. -/
inductive Scoped (c : Catalog) : Program → Prop where
  | intro {p : Program} : p.Nested c →
    (∀ {site node entry}, p.Site c site node entry → ∀ q : Program,
      q.nodes = Callback.bodyNodes p site (p.bodyOf site entry.signature) → Scoped c q) →
    Scoped c p

theorem Scoped.nested (h : p.Scoped c) : p.Nested c := by
  cases h with
  | intro hnested _ => exact hnested

theorem Scoped.body (h : p.Scoped c) {node : Node} {entry : Entry}
    (hsite : p.Site c site node entry) {q : Program}
    (hq : q.nodes = Callback.bodyNodes p site (p.bodyOf site entry.signature)) : q.Scoped c := by
  cases h with
  | intro _ hbody => exact hbody hsite q hq

theorem scoped_of_plain
    (h : ∀ {id node entry}, p.Calls c id node entry → entry.signature.callbacks = .empty) :
    p.Scoped c := by
  refine .intro (nested_of_plain h) fun hsite q hq => ?_
  rw [bodyOf_of_plain (h hsite.calls)] at hq
  -- Nothing is cut out, so there are no nodes and no sites.
  have hnone : ∀ {id node entry}, ¬ q.Calls c id node entry := by
    intro id node entry hcalls
    have hnode := hcalls.node_eq
    rw [node?, hq] at hnode
    cases hnode
  exact .intro (nested_of_plain fun hcalls => absurd hcalls hnone)
    fun hsite => absurd hsite.calls hnone

/-! ### Programs that can be followed -/

/-- A program and the frames that it starts with: names lead somewhere, every declared input has at
most one source, and the nodes of bodies do not run on their own. -/
structure Wired (p : Program) (c : Catalog) (start : FrameQueue) : Prop where
  known : ∀ {id node}, p.node? id = some node → ∃ entry, p.Calls c id node entry
  separate : ∀ {id node entry}, p.Calls c id node entry → entry.signature.Separate
  edges : ∀ {id node entry}, p.Calls c id node entry → ∀ edge ∈ node.next,
    ∃ target called, p.Calls c edge.target target called ∧
      called.signature.accepts edge.toKey = true
  alone : ∀ {id node entry}, p.Calls c id node entry → ∀ {key}, key ∈ entry.signature.inputNames →
    ∀ {e e'}, e ∈ p.edgesTo id key → e' ∈ p.edgesTo id key → e' = e
  fed : ∀ {id node entry}, p.Calls c id node entry → ∀ {key}, key ∈ entry.signature.inputNames →
    ∀ {e}, e ∈ p.edgesTo id key →
      start.gathered id key = none ∧ node.defaults.contains key = false
  given : ∀ {id node entry}, p.Calls c id node entry → ∀ {key}, key ∈ entry.signature.inputNames →
    (start.gathered id key).isSome → node.defaults.contains key = false
  sound : start.Sound
  nested : p.Nested c

/-- The source of an incoming edge, with the edge among its own. -/
theorem Wired.source {start : FrameQueue} (h : p.Wired c start) {e : String × Edge}
    (he : e ∈ p.incoming id) :
    ∃ sender called, p.Calls c e.1 sender called ∧ e.2 ∈ sender.next ∧ e.2.target = id := by
  obtain ⟨htarget, i, hmem⟩ := mem_incoming he
  obtain ⟨sender, hsender, hnext⟩ := mem_edges hmem
  obtain ⟨called, hcalled⟩ := h.known hsender
  exact ⟨sender, called, hcalled, hnext, htarget⟩

end Program

/-! ### First frames -/

namespace FrameQueue

variable {q : FrameQueue} {values : Record Json} {bindings : List Binding} {id key : String}

/-- A frame stands in line after the deliveries of bindings when it did before or when a binding
leads to it. -/
theorem Sound.mem_order_bindings (hq : q.Sound)
    (hvalues : ∀ b ∈ bindings, values.contains b.name = true) :
    id ∈ (q.receiveAll (Delivery.ofBindings values bindings)).order ↔
      id ∈ q.order ∨ ∃ b ∈ bindings, b.address.id = id := by
  rw [hq.mem_order_receiveAll]
  refine or_congr_right ⟨?_, ?_⟩
  · rintro ⟨d, hd, rfl⟩
    obtain ⟨b, hb, hvalue⟩ := List.mem_filterMap.1 hd
    obtain ⟨value, -, rfl⟩ := Option.map_eq_some_iff.1 hvalue
    exact ⟨b, hb, rfl⟩
  · rintro ⟨b, hb, rfl⟩
    obtain ⟨value, hvalue⟩ := Record.contains_eq_true.1 (hvalues b hb)
    exact ⟨_, List.mem_filterMap.2 ⟨b, hb, by rw [hvalue]; rfl⟩, rfl⟩

/-- A key has a value after the deliveries of bindings when it had one before or when a binding
leads to it. -/
theorem isSome_gathered_bindings (hvalues : ∀ b ∈ bindings, values.contains b.name = true) :
    ((q.receiveAll (Delivery.ofBindings values bindings)).gathered id key).isSome ↔
      (q.gathered id key).isSome ∨
        0 < (bindings.filter fun b => b.address.id = id ∧ b.address.key = key).length := by
  rw [gathered_receiveAll, Delivery.filter_ofBindings]
  cases hfilter : bindings.filter fun b => b.address.id = id ∧ b.address.key = key with
  | nil =>
    rw [show Delivery.ofBindings values [] = [] from rfl]
    simp
  | cons b rest =>
    have hb : b ∈ bindings := List.mem_of_mem_filter (hfilter ▸ List.mem_cons_self ..)
    obtain ⟨value, hvalue⟩ := Record.contains_eq_true.1 (hvalues b hb)
    rw [Delivery.ofBindings, List.filterMap_cons, hvalue]
    simp [List.getLast?_cons]

end FrameQueue

namespace Program

variable {p : Program} {c : Catalog} {inputs : Record Json}
  {frames : FrameQueue} {id key : String}

theorem mem_firstFrames (h : p.firstFrames inputs = .ok frames) :
    id ∈ frames.order ↔ (∃ b ∈ p.input, b.address.id = id) ∨ id ∈ p.heads := by
  obtain ⟨hinputs, rfl⟩ := firstFrames_eq_ok h
  rw [(FrameQueue.Sound.empty.receiveAll _).mem_order_ensureAll,
    FrameQueue.Sound.empty.mem_order_bindings hinputs]
  simp [FrameQueue.empty]

theorem isSome_gathered_firstFrames (h : p.firstFrames inputs = .ok frames) :
    (frames.gathered id key).isSome ↔ 0 < (p.bindingsTo id key).length := by
  obtain ⟨hinputs, rfl⟩ := firstFrames_eq_ok h
  rw [FrameQueue.gathered_ensureAll, FrameQueue.isSome_gathered_bindings hinputs]
  simp [FrameQueue.gathered, bindingsTo]

/-- A valid program in which every declared input has one source can be followed from its first
frames. -/
theorem Valid.wired (hvalid : p.Valid c)
    (hseparate : ∀ {id node entry}, p.Calls c id node entry → entry.signature.Separate)
    (hsingle : ∀ {id node entry}, p.Calls c id node entry →
      ∀ key ∈ entry.signature.inputNames, p.sourceCount id node key = 1)
    (hnested : p.Nested c) (hfirst : p.firstFrames inputs = .ok frames) : p.Wired c frames where
  known := hvalid.functions
  separate := hseparate
  edges hcalls edge hedge := (hvalid.edges hcalls edge hedge).2
  alone := by
    intro id node entry hcalls key hkey e e' he he'
    have hcount := hsingle hcalls key hkey
    have hpos := List.length_pos_of_mem he
    rw [sourceCount] at hcount
    obtain ⟨only, honly⟩ := List.length_eq_one_iff.1 (show (p.edgesTo id key).length = 1 by omega)
    rw [honly, List.mem_singleton] at he he'
    rw [he, he']
  fed := by
    intro id node entry hcalls key hkey e he
    have hcount := hsingle hcalls key hkey
    have hpos := List.length_pos_of_mem he
    rw [sourceCount] at hcount
    constructor
    · by_contra hsome
      have hbinding := (isSome_gathered_firstFrames hfirst).1 (Option.isSome_iff_ne_none.2 hsome)
      omega
    · by_contra hdefault
      rw [if_pos (Bool.not_eq_false _ ▸ hdefault)] at hcount
      omega
  given := by
    intro id node entry hcalls key hkey hsome
    have hcount := hsingle hcalls key hkey
    have hbinding := (isSome_gathered_firstFrames hfirst).1 hsome
    rw [sourceCount] at hcount
    by_contra hdefault
    rw [if_pos (Bool.not_eq_false _ ▸ hdefault)] at hcount
    omega
  sound := firstFrames_sound hfirst
  nested := hnested

/-- The first frames of a valid program are frames of its nodes. -/
theorem Valid.started (hvalid : p.Valid c) (hfirst : p.firstFrames inputs = .ok frames)
    (hid : id ∈ frames.order) : (p.node? id).isSome := by
  rcases (mem_firstFrames hfirst).1 hid with ⟨b, hb, rfl⟩ | hhead
  · obtain ⟨node, entry, hcalls, -⟩ := hvalid.inputs b hb
    exact Option.isSome_iff_exists.2 ⟨node, hcalls.node_eq⟩
  · exact Option.isSome_iff_exists.2 (Table.mem_names.1 (List.mem_filter.1 hhead).1)

end Program

end Dataflow
