/-
Nodes that run on their defaults.

An execution starts with a frame for each node at which no edge arrives. A node that has a default
for each of its inputs needs no delivery, and it should start with a frame, too. If no value can
arrive at its inputs, then only the results of its own callbacks arrive at it; so it starts with a
frame if its function takes no callbacks. The test does not ask what an edge carries, and what comes
back from a callback counts like an input. A node with a wired callback is therefore left out, and
it waits for a delivery that nobody makes.

A node that waits with all its defaults stays in the queue until its turn comes, and then it fires.

* `Program.RunsOnDefaults` — nodes that need no delivery;
* `Callback.isTarget_of_extract` — a callback that gives something back is wired by an edge to its
  call site;
* `Fate.next_cases` — what a popped frame leaves in the queue;
* `Fate.mem_next`, `Fate.of_mem_next` — how a frame stays in the queue, and how it gets there;
* `Host.course_keeps` — a node that can always fire is not forgotten;
* `Host.course_awaits` — a node that does not wait fires only after an edge has led to it;
* `Host.defaults_start` — which nodes start on their defaults, and what becomes of them;
* `Host.dormant_never_runs` — a clean program in which a node does not get its turn.
-/
import Mathlib
import Dataflow.Proofs.Cutting
import Dataflow.Proofs.Ending
import Dataflow.Proofs.Flaw
import Dataflow.Proofs.Wave
namespace Dataflow

/-! ### Nodes that need no delivery -/

/-- Some callback of the function gives something back. -/
def Signature.TakesBack (signature : Signature) : Prop :=
  ∃ name callback, signature.callbacks.get? name = some callback ∧ callback.output ≠ []

namespace Program

variable {p : Program} {c : Catalog} {id : String} {node : Node} {entry : Entry}

/-- A node that has a default for each input of its function, where no binding and no edge brings
a value to one of the inputs. -/
structure RunsOnDefaults (p : Program) (c : Catalog) (id : String) (node : Node) (entry : Entry) :
    Prop where
  calls : p.Calls c id node entry
  defaults : ∀ key ∈ entry.signature.inputNames, node.defaults.contains key = true
  free : ∀ key ∈ entry.signature.inputNames, Validation.isSupplied p id key = false

private theorem isComplete_empty (p : Program) : p.isComplete .empty = false := by
  rw [← Bool.not_eq_true, isComplete_iff]
  rintro ⟨hdeclared, hall⟩
  obtain ⟨b, hb⟩ := List.exists_mem_of_ne_nil _ hdeclared
  cases hall b.name (List.mem_map_of_mem hb)

private theorem isTarget_iff : p.isTarget id = true ↔
    ∃ source sender, p.node? source = some sender ∧ ∃ edge ∈ sender.next, edge.target = id := by
  simp [isTarget, Table.mem_entries, node?]

private theorem isTarget_of_edge {source : String} {edge : Edge}
    (h : edge ∈ Callback.edgesOf p source) :
    p.isTarget edge.target = true := by
  obtain ⟨sender, hsender, hedge⟩ := Callback.mem_edgesOf.1 h
  exact isTarget_iff.2 ⟨source, sender, hsender, edge, hedge, rfl⟩

namespace RunsOnDefaults

theorem ready (h : p.RunsOnDefaults c id node entry) (frame : Frame) :
    node.isReady entry.signature frame = true := by
  refine List.all_eq_true.2 fun key hkey => ?_
  rw [h.defaults key hkey, Bool.or_true]

/-- What can be delivered to the node comes back from a callback. -/
theorem hasCallbackOutput (h : p.RunsOnDefaults c id node entry) {key : String}
    (haccepts : entry.signature.accepts key = true)
    (hsupplied : Validation.isSupplied p id key = true) :
    entry.signature.hasCallbackOutput key = true := by
  rcases Bool.or_eq_true_iff.1 haccepts with hinput | houtput
  · have hfree := h.free key (List.contains_iff_mem.1 hinput)
    rw [hsupplied] at hfree
    cases hfree
  · exact houtput

private theorem hasCallbackOutput_of_binding (h : p.RunsOnDefaults c id node entry)
    (hvalid : p.Valid c) {b : Binding} (hb : b ∈ p.input) (hid : b.address.id = id) :
    entry.signature.hasCallbackOutput b.address.key = true := by
  obtain ⟨target, called, hcalls, haccepts⟩ := hvalid.inputs b hb
  obtain ⟨-, rfl⟩ := h.calls.unique (hid ▸ hcalls)
  refine h.hasCallbackOutput haccepts (isSupplied_iff.2 (.inl ⟨b, hb, ?_⟩))
  rw [← hid]

private theorem hasCallbackOutput_of_edge (h : p.RunsOnDefaults c id node entry)
    (hvalid : p.Valid c)
    {source : String} {sender : Node} (hsender : p.node? source = some sender) {edge : Edge}
    (hedge : edge ∈ sender.next) (hid : edge.target = id) :
    entry.signature.hasCallbackOutput edge.toKey = true := by
  obtain ⟨function, hfunction⟩ := hvalid.functions hsender
  obtain ⟨-, target, called, hcalls, haccepts⟩ := hvalid.edges hfunction edge hedge
  obtain ⟨-, rfl⟩ := h.calls.unique (hid ▸ hcalls)
  exact h.hasCallbackOutput haccepts
    (isSupplied_iff.2 (.inr ⟨source, sender, hsender, edge, hedge, hid, rfl⟩))

/-- Nothing arrives at a node without callbacks. -/
theorem isTarget_of_plain (h : p.RunsOnDefaults c id node entry) (hvalid : p.Valid c)
    (hplain : entry.signature.callbacks = .empty) : p.isTarget id = false := by
  rw [← Bool.not_eq_true, isTarget_iff]
  rintro ⟨source, sender, hsender, edge, hedge, hid⟩
  have houtput := h.hasCallbackOutput_of_edge hvalid hsender hedge hid
  obtain ⟨name, callback, hcallback, -⟩ := Signature.hasCallbackOutput_iff.1 houtput
  rw [hplain] at hcallback
  cases hcallback

end RunsOnDefaults

/-- The nodes that start with a frame: those at which no edge arrives, and those that get an
input. -/
theorem contains_firstFrames {inputs : Record Json} {frames : FrameQueue}
    (hfirst : p.firstFrames inputs = .ok frames) (hnode : p.node? id = some node) :
    frames.contains id = true ↔ p.isTarget id = false ∨ ∃ b ∈ p.input, b.address.id = id := by
  have hhead : id ∈ p.heads ↔ p.isTarget id = false := by
    rw [heads, List.mem_filter, Bool.not_eq_true']
    exact and_iff_right (Table.mem_names.2 ⟨node, hnode⟩)
  rw [FrameQueue.contains, Record.contains_eq_true]
  refine ((firstFrames_sound hfirst).mem_order id).symm.trans ?_
  rw [mem_firstFrames hfirst, hhead, or_comm]

end Program

/-! ### Callbacks and the edges to their call site -/

namespace Callback

variable {p : Program} {site id : String} {signature : Signature} {frames : FrameQueue}
  {extraction : Extraction}

/-- What a firing uses up are targets of edges. -/
theorem isTarget_of_consumed (h : extract p site signature frames = .ok extraction)
    (hid : id ∈ extraction.consumed) : p.isTarget id = true := by
  rw [consumed_eq_body h, mem_body] at hid
  cases hid with
  | entry hedge _ => exact Program.isTarget_of_edge (mem_feedingEdges.1 hedge).1
  | next _ hedge _ => exact Program.isTarget_of_edge hedge

/-- The output of a callback is wired by an edge to the call site. -/
theorem isTarget_of_wireOutputs {callback : String} {exits : List String} {params : List Param}
    {output : List Binding} (h : wireOutputs callback p site exits params = .ok output)
    (hparams : params ≠ []) : p.isTarget site = true := by
  cases wireOutputs_eq_ok h with
  | nil => exact absurd rfl hparams
  | cons hbinding _ =>
    obtain ⟨id, -, hid⟩ := List.exists_of_findSome?_eq_some hbinding
    obtain ⟨edge, hedge, -⟩ := Option.map_eq_some_iff.1 hid
    have htarget := List.find?_some hedge
    rw [← (of_decide_eq_true htarget).1]
    exact Program.isTarget_of_edge (List.mem_of_find?_eq_some hedge)

/-- **A node that takes something back from a callback has an edge to it**, if it can fire. -/
theorem isTarget_of_extract {node : Node} (hnode : p.node? site = some node)
    (hback : signature.TakesBack) (h : extract p site signature frames = .ok extraction) :
    p.isTarget site = true := by
  obtain ⟨name, callback, hcallback, hparams⟩ := hback
  have hname : name ∈ extraction.closures.names := by
    rw [names_of_extract hnode h]
    exact Record.mem_names.2 (Record.contains_eq_true.2 ⟨callback, hcallback⟩)
  obtain ⟨closure, hclosure⟩ := Record.contains_eq_true.1 (Record.mem_names.1 hname)
  obtain ⟨callback', hcallback', -, -, -, houtput⟩ := closure_of_extract h hclosure
  cases hcallback.symm.trans hcallback'
  exact isTarget_of_wireOutputs houtput hparams

end Callback

/-! ### How frames stay and come -/

/-- What a firing delivers goes along one of its edges. -/
theorem Firing.edge_of_delivery {f : Firing} {d : Delivery} (h : d ∈ f.deliveries) :
    ∃ edge ∈ f.node.next, edge.target = d.id := by
  rw [deliveries] at h
  split at h
  · obtain ⟨edge, hedge, htarget, -⟩ := Delivery.mem_ofFiring.1 ⟨d, h, rfl⟩
    exact ⟨edge, hedge, htarget⟩
  · cases h

namespace Fate

/-- The node whose frame it was. -/
def id : Fate → String
  | .dropped id | .deferred id _ | .refused id _ => id
  | .fired f _ => f.id

/-- One of the firings of an execution is as described. -/
def Occurs (P : Firing → Prop) (log : List Fate) : Prop :=
  ∃ f called, .fired f called ∈ log ∧ P f

private theorem occurs_singleton {P : Firing → Prop} {f : Firing} (h : P f) (called : List Event) :
    Occurs P [.fired f called] :=
  ⟨f, called, List.mem_singleton_self _, h⟩

theorem Occurs.mono {P : Firing → Prop} {log log' : List Fate} (h : Occurs P log)
    (hlog : log ⊆ log') : Occurs P log' := by
  obtain ⟨f, called, hmem, hf⟩ := h
  exact ⟨f, called, hlog hmem, hf⟩

private theorem occurs_cons {P : Firing → Prop} {fate : Fate} {log : List Fate} :
    Occurs P (fate :: log) ↔ Occurs P [fate] ∨ Occurs P log := by
  simp [Occurs, or_and_right, exists_or]

variable {p : Program} {id : String} {rest frames : FrameQueue} {outputs final : Record Json}
  {fate : Fate}

/-- What is left in the queue when an execution goes on. -/
theorem next_cases (h : fate.progress? p rest outputs = some (.next frames final)) :
    frames = rest ∨ (∃ frame, frames = rest.defer fate.id frame) ∨ ∃ f called,
      fate = .fired f called ∧
        frames = (f.consumed.foldl FrameQueue.remove rest).receiveAll f.deliveries := by
  match fate with
  | .refused .. | .fired ⟨_, _, _, _, _, none⟩ _ => cases h
  | .dropped _ =>
    cases h
    exact .inl rfl
  | .deferred _ frame =>
    cases h
    exact .inr (.inl ⟨frame, rfl⟩)
  | .fired ⟨_, _, _, _, _, some _⟩ called =>
    simp only [progress?, Option.map_some, Option.some.injEq] at h
    split at h
    · cases h
    · cases h
      exact .inr (.inr ⟨_, called, rfl, rfl⟩)

/-- A frame that is not popped stays, unless it waits in the body of a callback that is called. -/
theorem mem_next (hrest : rest.Sound) (hid : id ∈ rest.order)
    (hnext : fate.progress? p rest outputs = some (.next frames final)) :
    id ∈ frames.order ∨ ∃ f called, fate = .fired f called ∧ id ∈ f.consumed := by
  rcases next_cases hnext with rfl | ⟨frame, rfl⟩ | ⟨f, called, hfate, rfl⟩
  · exact .inl hid
  · refine .inl (((hrest.defer fate.id frame).mem_order id).2 ?_)
    rw [FrameQueue.get?_defer]
    split
    · exact ⟨frame, rfl⟩
    · exact (hrest.mem_order id).1 hid
  · by_cases hconsumed : id ∈ f.consumed
    · exact .inr ⟨f, called, hfate, hconsumed⟩
    · have hkept := hrest.foldl_remove f.consumed
      refine .inl (hkept.mem_order_receiveAll.2 (.inl ((hkept.mem_order id).2 ?_)))
      rw [FrameQueue.get?_foldl_remove, if_neg hconsumed]
      exact (hrest.mem_order id).1 hid

/-- A frame that is there was there before, or it was put back, or an edge has led to it. -/
theorem of_mem_next (hrest : rest.Sound) (hid : id ∈ frames.order)
    (hnext : fate.progress? p rest outputs = some (.next frames final)) :
    id ∈ rest.order ∨ fate.id = id ∨
      ∃ f called, fate = .fired f called ∧ ∃ edge ∈ f.node.next, edge.target = id := by
  rcases next_cases hnext with rfl | ⟨frame, rfl⟩ | ⟨f, called, hfate, rfl⟩
  · exact .inl hid
  · obtain ⟨held, hheld⟩ := ((hrest.defer fate.id frame).mem_order id).1 hid
    rw [FrameQueue.get?_defer] at hheld
    split at hheld
    · rename_i hother
      exact .inr (.inl hother.symm)
    · exact .inl ((hrest.mem_order id).2 ⟨held, hheld⟩)
  · have hkept := hrest.foldl_remove f.consumed
    rcases hkept.mem_order_receiveAll.1 hid with hwaiting | ⟨d, hd, rfl⟩
    · obtain ⟨held, hheld⟩ := (hkept.mem_order id).1 hwaiting
      rw [FrameQueue.get?_foldl_remove] at hheld
      split at hheld
      · cases hheld
      · exact .inl ((hrest.mem_order id).2 ⟨held, hheld⟩)
    · exact .inr (.inr ⟨f, called, hfate, Firing.edge_of_delivery hd⟩)

end Fate

/-! ### One execution -/

namespace Host

open Fate

variable {host : Host} {nested : Executor} {caller id other : String} {p : Program} {node : Node}
  {entry : Entry} {frame : Frame} {frames frames' rest : FrameQueue}
  {outputs outputs' : Record Json} {f : Firing} {called : List Event} {s s' : Session}

private theorem fate_id : (host.fate nested caller p id frame rest s).id = id := by
  rw [fate]
  split
  · rfl
  · split
    · rfl
    · split
      · split <;> rfl
      · rfl

/-- A node fires with its callbacks wired. -/
theorem extract_of_fate (h : host.fate nested caller p id frame rest s = .fired f called) :
    p.Calls host.catalog id f.node f.entry ∧ ∃ extraction,
      Callback.extract p id f.entry.signature rest = .ok extraction ∧
        f.consumed = extraction.consumed := by
  rw [fate] at h
  split at h
  · cases h
  · rename_i node hnode
    split at h
    · cases h
    · rename_i entry hentry
      split at h
      · split at h
        · cases h
        · rename_i extraction hextract
          cases h
          exact ⟨⟨hnode, hentry⟩, extraction, hextract, rfl⟩
      · cases h

/-- A node that is ready is not put back. -/
theorem fate_of_ready (hcalls : p.Calls host.catalog id node entry)
    (hready : node.isReady entry.signature frame = true) :
    (∃ error, host.fate nested caller p id frame rest s = .refused id error) ∨
      ∃ f called, host.fate nested caller p id frame rest s = .fired f called := by
  simp only [fate, hcalls.node_eq, hcalls.entry_eq, hready, if_true]
  cases Callback.extract p id entry.signature rest with
  | error error => exact .inl ⟨error, rfl⟩
  | ok extraction => exact .inr ⟨_, _, rfl⟩

private theorem sound_of_next (hp : host.process nested caller p id frame rest outputs s =
    (.ok (.next frames' outputs'), s')) (hrest : rest.Sound) : frames'.Sound := by
  have hprocessed : host.Processed nested caller p id frame rest outputs s _ _ := process_processed
  rw [hp] at hprocessed
  exact hprocessed.sound hrest

/-- An execution ends with the frame that it has popped, or it goes on. -/
theorem course_cases (host : Host) (nested : Executor) (caller : String) (p : Program) (steps : Nat)
    (hpop : frames.pop? = some ((id, frame), rest)) (outputs : Record Json) (s : Session) :
    let fate := host.fate nested caller p id frame rest s
    host.course nested caller p (steps + 1) frames outputs s = ([fate], rest) ∨
      ∃ frames' outputs' s', host.process nested caller p id frame rest outputs s =
          (.ok (.next frames' outputs'), s') ∧
        host.course nested caller p (steps + 1) frames outputs s =
          (fate :: (host.course nested caller p steps frames' outputs' s').1,
            (host.course nested caller p steps frames' outputs' s').2) := by
  simp only [course, hpop]
  split
  · rename_i hp
    exact .inr ⟨_, _, _, hp, rfl⟩
  · exact .inl rfl

private theorem fate_mem_course {steps : Nat} (hpop : frames.pop? = some ((id, frame), rest)) :
    [host.fate nested caller p id frame rest s] ⊆
      (host.course nested caller p (steps + 1) frames outputs s).1 := by
  rcases host.course_cases nested caller p steps hpop outputs s with
    hcourse | ⟨_, _, _, -, hcourse⟩ <;> simp [hcourse]

/-- The fates in the course of an execution are those of popped frames. -/
theorem fate_of_mem_course {steps : Nat} {fate : Fate}
    (h : fate ∈ (host.course nested caller p steps frames outputs s).1) :
    ∃ id frame rest s, fate = host.fate nested caller p id frame rest s := by
  induction steps generalizing frames outputs s with
  | zero => cases h
  | succ steps ih =>
    rw [course] at h
    split at h
    · cases h
    · split at h
      · rcases List.mem_cons.1 h with rfl | h
        · exact ⟨_, _, _, _, rfl⟩
        · exact ih h
      · exact ⟨_, _, _, _, List.mem_singleton.1 h⟩

/-- A node fires as a node of the program, with its callbacks wired. -/
theorem extract_of_mem_course {steps : Nat}
    (h : .fired f called ∈ (host.course nested caller p steps frames outputs s).1) :
    p.Calls host.catalog f.id f.node f.entry ∧ ∃ rest extraction,
      Callback.extract p f.id f.entry.signature rest = .ok extraction ∧
        f.consumed = extraction.consumed := by
  obtain ⟨id, frame, rest, s, hfate⟩ := fate_of_mem_course h
  have hid : f.id = id := (congrArg Fate.id hfate).trans fate_id
  obtain ⟨hcalls, extraction, hextract⟩ := extract_of_fate hfate.symm
  rw [hid]
  exact ⟨hcalls, rest, extraction, hextract⟩

/-- One step does not forget a node that can always fire: the node fires, or it is used up in the
body of a callback, or the execution fails, or the node still waits. -/
theorem process_keeps (hcalls : p.Calls host.catalog id node entry)
    (hready : ∀ frame, node.isReady entry.signature frame = true) (depth : Nat)
    (hframes : frames.Sound) (hid : id ∈ frames.order)
    (hpop : frames.pop? = some ((other, frame), rest)) (outputs : Record Json) (s : Session) :
    let fate := host.fate (host.execute depth) caller p other frame rest s
    let after := host.process (host.execute depth) caller p other frame rest outputs s
    Occurs (·.id = id) [fate] ∨ Occurs (id ∈ ·.consumed) [fate] ∨
      (∃ halt, after.1 = .error halt) ∨ (id ∈ rest.order ∧
        ∀ frames' outputs', after.1 = .ok (.next frames' outputs') → id ∈ frames'.order) := by
  intro fate after
  obtain ⟨hprogress, -⟩ := host.process_fate depth caller p hpop outputs s
  have hfateId : fate.id = other := fate_id
  by_cases hother : other = id
  · subst hother
    rcases fate_of_ready hcalls (hready frame) with ⟨error, hrefused⟩ | ⟨f, called, hfired⟩
    · -- Its callbacks are not wired.
      have hnone : after.1.toOption = none := hprogress.trans (by rw [hrefused]; rfl)
      cases hafter : after.1 with
      | error halt => exact .inr (.inr (.inl ⟨halt, rfl⟩))
      | ok progress =>
        rw [hafter] at hnone
        cases hnone
    · have hfate : fate = .fired f called := hfired
      rw [hfate] at hfateId ⊢
      exact .inl (occurs_singleton hfateId called)
  · have hwaits : id ∈ rest.order :=
      (FrameQueue.mem_popped_removed hframes hpop [] id).2 ⟨hid, List.not_mem_nil, Ne.symm hother⟩
    by_cases hused : Occurs (id ∈ ·.consumed) [fate]
    · exact .inr (.inl hused)
    · refine .inr (.inr (.inr ⟨hwaits, fun frames' outputs' hnext => ?_⟩))
      have hsome : fate.progress? p rest outputs = some (.next frames' outputs') :=
        hprogress.symm.trans (congrArg Except.toOption hnext)
      rcases mem_next (hframes.pop hpop) hwaits hsome with hstays | ⟨f, called, hfate, hconsumed⟩
      · exact hstays
      · rw [hfate] at hused
        exact absurd (occurs_singleton hconsumed called) hused

/-- **A node that can always fire is not forgotten.** Its frame stays in the queue until its turn
comes, unless it is used up in the body of a callback or the execution fails. -/
theorem course_keeps (hcalls : p.Calls host.catalog id node entry)
    (hready : ∀ frame, node.isReady entry.signature frame = true) (depth steps : Nat)
    (hframes : frames.Sound) (hid : id ∈ frames.order) (outputs : Record Json) (s : Session) :
    let course := host.course (host.execute depth) caller p steps frames outputs s
    Occurs (·.id = id) course.1 ∨ Occurs (id ∈ ·.consumed) course.1 ∨
      (∃ halt, (host.drain (host.execute depth) caller p steps frames outputs s).1 =
        .error halt) ∨ ∃ frame, (id, frame) ∈ course.2.toList := by
  intro course
  induction steps generalizing frames outputs s with
  | zero =>
    obtain ⟨frame, hframe⟩ := (hframes.mem_order id).1 hid
    exact .inr (.inr (.inr ⟨frame, hframes.mem_toList.2 hframe⟩))
  | succ steps ih =>
    cases hpop : frames.pop? with
    | none =>
      rw [FrameQueue.pop?_eq_none hframes hpop] at hid
      cases hid
    | some popped =>
      obtain ⟨⟨other, frame⟩, rest⟩ := popped
      rcases process_keeps hcalls hready depth hframes hid hpop outputs s with
        hfires | hused | ⟨halt, hhalt⟩ | ⟨hwaits, hstays⟩
      · exact .inl (hfires.mono (fate_mem_course hpop))
      · exact .inr (.inl (hused.mono (fate_mem_course hpop)))
      · refine .inr (.inr (.inl ⟨halt, ?_⟩))
        simp only [drain, hpop, Run.bind_eq]
        rw [Run.andThen_of_error (Prod.ext hhalt rfl)]
      · have hrest := hframes.pop hpop
        rcases host.course_cases (host.execute depth) caller p steps hpop outputs s with
          hcourse | ⟨frames', outputs', s', hp, hcourse⟩
        · obtain ⟨held, hheld⟩ := (hrest.mem_order id).1 hwaits
          refine .inr (.inr (.inr ⟨held, ?_⟩))
          simp only [course, hcourse]
          exact hrest.mem_toList.2 hheld
        · -- The rest of the execution starts with the node in its queue.
          have hlater := ih (sound_of_next hp hrest) (hstays _ _ (by rw [hp])) outputs' s'
          have hdrain : host.drain (host.execute depth) caller p (steps + 1) frames outputs s =
              host.drain (host.execute depth) caller p steps frames' outputs' s' := by
            simp only [drain, hpop, Run.bind_eq]
            rw [Run.andThen_of_ok hp]
          rw [hdrain]
          simp only [course, hcourse]
          rcases hlater with hfires | hused | hend
          · exact .inl (hfires.mono (List.subset_cons_self ..))
          · exact .inr (.inl (hused.mono (List.subset_cons_self ..)))
          · exact .inr (.inr hend)

/-- A step does not fire a node that does not wait, and the node waits afterwards only if an edge
has led to it. -/
theorem process_awaits (depth : Nat) (hframes : frames.Sound) (hid : id ∉ frames.order)
    (hpop : frames.pop? = some ((other, frame), rest)) (outputs : Record Json) (s : Session) :
    let fate := host.fate (host.execute depth) caller p other frame rest s
    ¬ Occurs (·.id = id) [fate] ∧ ∀ frames' outputs' s',
      host.process (host.execute depth) caller p other frame rest outputs s =
        (.ok (.next frames' outputs'), s') →
      id ∈ frames'.order → Occurs (∃ edge ∈ ·.node.next, edge.target = id) [fate] := by
  intro fate
  have hfateId : fate.id = other := fate_id
  obtain ⟨horder, -, -⟩ := FrameQueue.pop?_eq_some hframes hpop
  rw [horder, List.mem_cons, not_or] at hid
  constructor
  · rintro ⟨f, called, hmem, hf⟩
    rw [← List.mem_singleton.1 hmem] at hfateId
    exact hid.1 (hf.symm.trans hfateId)
  · intro frames' outputs' s' hp hwaits
    obtain ⟨hprogress, -⟩ := host.process_fate depth caller p hpop outputs s
    rw [hp] at hprogress
    rcases of_mem_next (hframes.pop hpop) hwaits hprogress.symm with
      hbefore | hsame | ⟨f, called, hfate, hleads⟩
    · exact absurd hbefore hid.2
    · exact absurd (hsame.symm.trans hfateId) hid.1
    · exact ⟨f, called, List.mem_singleton.2 hfate.symm, hleads⟩

/-- A node that does not wait fires only if a node with an edge to it does. -/
theorem course_awaits (depth steps : Nat) (hframes : frames.Sound) (hid : id ∉ frames.order)
    (outputs : Record Json) (s : Session)
    (hfires : Occurs (·.id = id)
      (host.course (host.execute depth) caller p steps frames outputs s).1) :
    Occurs (∃ edge ∈ ·.node.next, edge.target = id)
      (host.course (host.execute depth) caller p steps frames outputs s).1 := by
  induction steps generalizing frames outputs s with
  | zero =>
    obtain ⟨f, called, hmem, -⟩ := hfires
    cases hmem
  | succ steps ih =>
    cases hpop : frames.pop? with
    | none =>
      obtain ⟨f, called, hmem, -⟩ := hfires
      simp only [course, hpop] at hmem
      cases hmem
    | some popped =>
      obtain ⟨⟨other, frame⟩, rest⟩ := popped
      obtain ⟨hother, hcomes⟩ := process_awaits depth hframes hid hpop outputs s
      rcases host.course_cases (host.execute depth) caller p steps hpop outputs s with
        hcourse | ⟨frames', outputs', s', hp, hcourse⟩
      · rw [hcourse] at hfires
        exact absurd hfires hother
      · rw [hcourse, occurs_cons] at hfires ⊢
        by_cases hwaits : id ∈ frames'.order
        · exact .inl (hcomes frames' outputs' s' hp hwaits)
        · exact .inr (ih (sound_of_next hp (hframes.pop hpop)) hwaits outputs' s'
            (hfires.resolve_left hother))

/-- A node that can always fire does so, unless the execution ends before or the node is used up in
the body of a callback. -/
theorem execute_keeps (hcalls : p.Calls host.catalog id node entry)
    (hready : ∀ frame, node.isReady entry.signature frame = true) (depth : Nat)
    (hframes : frames.Sound) (hid : id ∈ frames.order) (s : Session) :
    let course := host.course (host.execute depth) caller p (p.steps host.slack) frames .empty s
    let final := host.execute (depth + 1) caller p frames s
    Occurs (·.id = id) course.1 ∨ (p.isTarget id = true ∧ Occurs (id ∈ ·.consumed) course.1) ∨
      (∃ halt, final.1 = .error halt) ∨
      (∃ outputs, final.1 = .ok outputs ∧ p.isComplete outputs = true) ∨
      IsCut p (p.steps host.slack) course.1 course.2 final.1 := by
  intro course final
  rcases course_keeps hcalls hready depth (p.steps host.slack) hframes hid .empty s with
    hfires | ⟨f, called, hmem, hused⟩ | hhalt | ⟨frame, hleft⟩
  · exact .inl hfires
  · obtain ⟨-, rest, extraction, hextract, hconsumed⟩ := extract_of_mem_course hmem
    exact .inr (.inl ⟨Callback.isTarget_of_consumed hextract (hconsumed ▸ hused),
      f, called, hmem, hused⟩)
  · exact .inr (.inr (.inl hhalt))
  · -- The node still waits at the end, so the queue has not been drained.
    have hending : Ending p caller (p.steps host.slack) course.1 course.2
        (course.1.foldl (Fate.record p) .empty) _ final.1 _ :=
      drain_ending depth (p.steps host.slack) hframes .empty p.isComplete_empty s
    cases hfinal : final.1 with
    | error halt => exact .inr (.inr (.inl ⟨halt, rfl⟩))
    | ok outputs =>
      obtain ⟨-, hcomplete | hcut | hdrained⟩ := hending.of_ok hfinal
      · exact .inr (.inr (.inr (.inl ⟨outputs, rfl, hcomplete⟩)))
      · exact .inr (.inr (.inr (.inr (hfinal ▸ hcut))))
      · rw [hdrained] at hleft
        cases hleft

/-- **Which nodes start on their defaults.** In a clean program that has its inputs, take a node
with a default for each of its inputs, where no value arrives at one of them. What arrives at the
node is then only what its callbacks give back, and nothing if its function takes no callbacks. The
node starts with a frame exactly when no edge arrives at it or an input is bound to it. If so, it
fires, unless the execution ends before, with an error, with all outputs or for want of steps, or an
edge has put the node into the body of a callback and it is used up there. If not, it fires only if
a node with an edge to it does. Where a callback gives something back, the node does not fire at all
without such an edge. -/
theorem defaults_start {inputs : Record Json} (hclean : p.validate host.catalog = [])
    (hinputs : ∀ b ∈ p.input, inputs.contains b.name = true)
    (h : p.RunsOnDefaults host.catalog id node entry) :
    ∃ frames, p.firstFrames inputs = .ok frames ∧
      (frames.contains id = true ↔ p.isTarget id = false ∨ ∃ b ∈ p.input, b.address.id = id) ∧
      (∀ b ∈ p.input, b.address.id = id →
        entry.signature.hasCallbackOutput b.address.key = true) ∧
      (∀ e ∈ p.incoming id, entry.signature.hasCallbackOutput e.2.toKey = true) ∧
      (entry.signature.callbacks = .empty → p.isTarget id = false) ∧
      ∀ depth caller s,
        let course := host.course (host.execute depth) caller p (p.steps host.slack) frames .empty s
        let final := runProgram (host.execute (depth + 1)) p inputs caller s
        (frames.contains id = true → Occurs (·.id = id) course.1 ∨
          (p.isTarget id = true ∧ Occurs (id ∈ ·.consumed) course.1) ∨
          (∃ halt, final.1 = .error halt) ∨
          (∃ outputs, final.1 = .ok outputs ∧ p.isComplete outputs = true) ∨
          IsCut p (p.steps host.slack) course.1 course.2 final.1) ∧
        (frames.contains id = false → Occurs (·.id = id) course.1 →
          Occurs (∃ edge ∈ ·.node.next, edge.target = id) course.1) ∧
        (entry.signature.TakesBack → Occurs (·.id = id) course.1 → p.isTarget id = true) := by
  have hvalid := Program.valid_of_validate hclean
  obtain ⟨frames, hfirst⟩ := Program.exists_firstFrames hinputs
  have hframes := Program.firstFrames_sound hfirst
  have hcontains : frames.contains id = true ↔ id ∈ frames.order := by
    rw [hframes.mem_order, FrameQueue.contains, Record.contains_eq_true]
    rfl
  refine ⟨frames, hfirst, Program.contains_firstFrames hfirst h.calls.node_eq,
    fun b hb hid => h.hasCallbackOutput_of_binding hvalid hb hid, fun e he => ?_,
    h.isTarget_of_plain hvalid, fun depth caller s => ⟨fun hstart => ?_, fun hstart => ?_, ?_⟩⟩
  · obtain ⟨htarget, i, hmem⟩ := Program.mem_incoming he
    obtain ⟨sender, hsender, hedge⟩ := Program.mem_edges hmem
    exact h.hasCallbackOutput_of_edge hvalid hsender hedge htarget
  · rw [runProgram_of_ok hfirst]
    exact execute_keeps h.calls h.ready depth hframes (hcontains.1 hstart) s
  · refine course_awaits depth _ hframes (fun hid => ?_) .empty s
    rw [hcontains.2 hid] at hstart
    cases hstart
  · rintro hback ⟨f, called, hmem, rfl⟩
    obtain ⟨hcalls, rest, extraction, hextract, -⟩ := extract_of_mem_course hmem
    obtain ⟨-, rfl⟩ := h.calls.unique hcalls
    exact Callback.isTarget_of_extract hcalls.node_eq hback hextract

/-- Three nodes whose results nobody reads, and the last of them starts with a frame and fires. -/
theorem defaults_start_trio :
    let p : Program := { Program.trio with output := [] }
    let s : Session := ⟨none, #[], #[], default⟩
    ∃ frames, p.firstFrames .empty = .ok frames ∧ frames.contains "c" = true ∧
      Occurs (·.id = "c") (branches.course (branches.execute 0) "main" p (p.steps branches.slack)
        frames .empty s).1 := by
  intro p s
  have hruns : p.RunsOnDefaults branches.catalog "c" _ _ :=
    ⟨⟨rfl, rfl⟩, by decide +kernel, by decide +kernel⟩
  have hinputs : ∀ b ∈ p.input, (.empty : Record Json).contains b.name = true :=
    fun b hb => by cases hb
  obtain ⟨frames, hfirst, hcontains, -, -, -, hcourse⟩ :=
    defaults_start (by decide +kernel) hinputs hruns
  have hfinal : (runProgram (branches.execute 1) p .empty "main" s).1 = .ok .empty := by
    decide +kernel
  have hstart := hcontains.2 (.inl (by decide +kernel))
  refine ⟨frames, hfirst, hstart, ?_⟩
  rcases (hcourse 0 "main" s).1 hstart with
    hfires | ⟨htarget, -⟩ | ⟨halt, hhalt⟩ | ⟨outputs, -, hcomplete⟩ | ⟨hlength, -⟩
  · exact hfires
  · cases htarget
  · rw [hfinal] at hhalt
    cases hhalt
  · cases hcomplete
  · -- Three of the twelve steps are used.
    obtain rfl : p.heads.foldl FrameQueue.ensure .empty = frames := Except.ok.inj hfirst
    exact absurd hlength (by decide +kernel)

/-- An array with a default is mapped, and the results of the callback come back to the node. -/
def dormant : Program where
  input := []
  output := [⟨"out", ⟨"map", "arr"⟩, .arrayOf .bool⟩]
  nodes := .ofList [
    ("map", ⟨"array.map", [⟨"body", "item", "condition"⟩], .ofList [("arr", .array [.bool true])]⟩),
    ("body", ⟨"ctrl.if", [⟨"map", "data", "callback"⟩],
      .ofList [("true", .bool true), ("false", .bool false)]⟩)]

/-- The program is clean, and its first node has all it needs, but it does not get its turn. -/
theorem dormant_never_runs :
    let host : Host := ⟨Library.catalog, 10, fun _ => none⟩
    dormant.validate host.catalog = [] ∧
      (∃ node entry, dormant.RunsOnDefaults host.catalog "map" node entry) ∧
      (dormant.firstFrames .empty).toOption.map (·.contains "map") = some false ∧
      (runProgram (host.execute 2) dormant .empty "main" ⟨none, #[], #[], default⟩).1 =
        .ok .empty := by
  intro host
  refine ⟨by decide +kernel, ⟨_, _, ⟨rfl, rfl⟩, by decide +kernel, by decide +kernel⟩,
    by decide +kernel, by decide +kernel⟩

end Host

end Dataflow
