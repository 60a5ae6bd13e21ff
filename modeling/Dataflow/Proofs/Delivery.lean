/-
Deliveries: how values get into frames.

All values in frames come from deliveries: those of the bindings at the start, and those that a
firing sends along the edges of its node. Here they are lists, and the effect of a start or of a
firing on the queue is that its list is received.

* `Program.firstFrames_eq_ok`, `Closure.frames_eq_ok` — the frames of a start;
* `Host.deliver_spec` — the frames after a firing, with cache and random numbers left alone;
* `Host.deliver_events` — what a firing tells of stopped branches;
* `FrameQueue.Sound.receiveAll` — deliveries keep a queue sound.
-/
import Mathlib
import Dataflow.Scheduler
import Dataflow.Proofs.FrameQueue
import Dataflow.Proofs.Run
import Dataflow.Proofs.Similar
namespace Dataflow

/-- A value for a key of a node. -/
structure Delivery where
  id : String
  key : String
  value : Json
  deriving DecidableEq

namespace FrameQueue

/-- The queue with one delivery. -/
def receive (q : FrameQueue) (d : Delivery) : FrameQueue := q.add d.id d.key d.value

/-- The queue with a list of deliveries. -/
def receiveAll (q : FrameQueue) (ds : List Delivery) : FrameQueue := ds.foldl receive q

private theorem receiveAll_append (q : FrameQueue) (ds es : List Delivery) :
    q.receiveAll (ds ++ es) = (q.receiveAll ds).receiveAll es :=
  List.foldl_append

theorem Sound.receiveAll {q : FrameQueue} (hq : q.Sound) (ds : List Delivery) :
    (q.receiveAll ds).Sound := by
  induction ds generalizing q with
  | nil => exact hq
  | cons d rest ih => exact ih (hq.add d.id d.key d.value)

/-- The nodes in line after deliveries are those from before and those that received something. -/
theorem Sound.mem_order_receiveAll {q : FrameQueue} (hq : q.Sound) {ds : List Delivery}
    {id : String} :
    id ∈ (q.receiveAll ds).order ↔ id ∈ q.order ∨ ∃ d ∈ ds, d.id = id := by
  induction ds generalizing q with
  | nil => simp [FrameQueue.receiveAll]
  | cons d rest ih =>
    have hsound : (q.receive d).Sound := hq.add d.id d.key d.value
    have hfirst : id ∈ (q.receive d).order ↔ id ∈ q.order ∨ d.id = id := by
      rw [hsound.mem_order, hq.mem_order, receive, get?_add]
      by_cases hid : id = d.id
      · simp [hid]
      · simp [hid, Ne.symm hid]
    rw [show q.receiveAll (d :: rest) = (q.receive d).receiveAll rest from rfl,
      ih hsound, hfirst]
    simp [or_assoc]

theorem Sound.ensureAll {q : FrameQueue} (hq : q.Sound) (ids : List String) :
    (ids.foldl FrameQueue.ensure q).Sound := by
  induction ids generalizing q with
  | nil => exact hq
  | cons id rest ih => exact ih (hq.ensure id)

/-- Frames that were ensured hold what they held before, or nothing. -/
theorem get?_ensureAll (q : FrameQueue) (ids : List String) (id : String) :
    (ids.foldl FrameQueue.ensure q).get? id =
      if id ∈ ids then some ((q.get? id).getD .empty) else q.get? id := by
  induction ids generalizing q with
  | nil => rfl
  | cons other rest ih =>
    rw [List.foldl_cons, ih, get?_ensure]
    by_cases hid : id = other <;> by_cases hrest : id ∈ rest <;> simp [hid, hrest]

/-- The nodes in line after frames were ensured are those from before and those it was done for. -/
theorem Sound.mem_order_ensureAll {q : FrameQueue} (hq : q.Sound) {ids : List String}
    {id : String} :
    id ∈ (ids.foldl FrameQueue.ensure q).order ↔ id ∈ q.order ∨ id ∈ ids := by
  induction ids generalizing q with
  | nil => simp
  | cons other rest ih =>
    have hmem : id ∈ (q.ensure other).order ↔ id ∈ q.order ∨ id = other := by
      rw [(hq.ensure other).mem_order, hq.mem_order, get?_ensure]
      by_cases hid : id = other <;> simp [hid]
    rw [List.foldl_cons, ih (hq.ensure other), hmem, List.mem_cons, or_assoc]

end FrameQueue

/-! ### Deliveries of a start -/

/-- The deliveries of bindings that have a value. -/
def Delivery.ofBindings (values : Record Json) (bindings : List Binding) : List Delivery :=
  bindings.filterMap fun b => (values.get? b.name).map fun value =>
    ⟨b.address.id, b.address.key, value⟩

/-- Bindings are all delivered, or one without a value stops everything. -/
theorem Delivery.foldlM_bindings {values : Record Json} {missing : String → RunError}
    {bindings : List Binding} {start frames : FrameQueue}
    (h : bindings.foldlM
      (fun frames b =>
        match values.get? b.name with
        | some value => Except.ok (frames.add b.address.id b.address.key value)
        | none => Except.error (missing b.name))
      start = Except.ok frames) :
    (∀ b ∈ bindings, values.contains b.name = true) ∧
      frames = start.receiveAll (ofBindings values bindings) := by
  induction bindings generalizing start with
  | nil =>
    cases h
    exact ⟨fun b hb => absurd hb List.not_mem_nil, rfl⟩
  | cons b rest ih =>
    rw [List.foldlM_cons] at h
    obtain ⟨next, hnext, h⟩ := Except.bind_eq_ok h
    cases hvalue : values.get? b.name with
    | none =>
      rw [hvalue] at hnext
      cases hnext
    | some value =>
      rw [hvalue] at hnext
      cases hnext
      obtain ⟨hall, hframes⟩ := ih h
      refine ⟨fun c hc => ?_, ?_⟩
      · rcases List.mem_cons.1 hc with rfl | hc
        · exact Record.contains_eq_true.2 ⟨value, hvalue⟩
        · exact hall c hc
      · rw [hframes, ofBindings, ofBindings, List.filterMap_cons, hvalue]
        rfl

/-- The deliveries to one key come from the bindings to it. -/
theorem Delivery.filter_ofBindings (values : Record Json) (bindings : List Binding)
    (id key : String) :
    (ofBindings values bindings).filter (fun d => d.id = id ∧ d.key = key) =
      ofBindings values (bindings.filter fun b => b.address.id = id ∧ b.address.key = key) := by
  rw [ofBindings, ofBindings, List.filter_filterMap, List.filterMap_filter]
  refine List.filterMap_congr fun b _ => ?_
  cases values.get? b.name <;> simp [Option.filter]

/-- Without a value for some binding, the first of these is the error. -/
theorem Delivery.missing_of_error {values : Record Json} {missing : String → RunError}
    {bindings : List Binding} {start : FrameQueue} {error : RunError}
    (h : bindings.foldlM
      (fun frames b =>
        match values.get? b.name with
        | some value => Except.ok (frames.add b.address.id b.address.key value)
        | none => Except.error (missing b.name))
      start = Except.error error) :
    ∃ b ∈ bindings, values.contains b.name = false := by
  induction bindings generalizing start with
  | nil => cases h
  | cons b rest ih =>
    rw [List.foldlM_cons] at h
    cases hvalue : values.get? b.name with
    | none => exact ⟨b, List.mem_cons_self .., Record.contains_eq_false.2 hvalue⟩
    | some value =>
      rw [hvalue] at h
      obtain ⟨b', hb', hmissing⟩ := ih h
      exact ⟨b', List.mem_cons_of_mem b hb', hmissing⟩

/-- A run that has all its inputs starts. -/
theorem Program.exists_firstFrames {p : Program} {inputs : Record Json}
    (h : ∀ b ∈ p.input, inputs.contains b.name = true) :
    ∃ frames, p.firstFrames inputs = .ok frames := by
  cases hframes : p.firstFrames inputs with
  | ok frames => exact ⟨frames, rfl⟩
  | error error =>
    rw [Program.firstFrames] at hframes
    rcases Except.bind_eq_error hframes with hfold | ⟨frames, -, hdone⟩
    · obtain ⟨b, hb, hmissing⟩ := Delivery.missing_of_error hfold
      rw [h b hb] at hmissing
      cases hmissing
    · cases hdone

/-- The first frames of a run: all inputs delivered, and a frame for each head. -/
theorem Program.firstFrames_eq_ok {p : Program} {inputs : Record Json} {frames : FrameQueue}
    (h : p.firstFrames inputs = .ok frames) :
    (∀ b ∈ p.input, inputs.contains b.name = true) ∧
      frames = p.heads.foldl FrameQueue.ensure
        (FrameQueue.empty.receiveAll (Delivery.ofBindings inputs p.input)) := by
  rw [Program.firstFrames] at h
  obtain ⟨delivered, hdelivered, h⟩ := Except.bind_eq_ok h
  cases h
  obtain ⟨hall, rfl⟩ := Delivery.foldlM_bindings hdelivered
  exact ⟨hall, rfl⟩

theorem Program.firstFrames_sound {p : Program} {inputs : Record Json} {frames : FrameQueue}
    (h : p.firstFrames inputs = .ok frames) : frames.Sound := by
  rw [(firstFrames_eq_ok h).2]
  exact (FrameQueue.Sound.empty.receiveAll _).ensureAll _

/-- A run that has all its inputs is an execution from its first frames. -/
theorem Host.runProgram_of_ok {nested : Executor} {p : Program} {inputs : Record Json}
    {frames : FrameQueue} (h : p.firstFrames inputs = .ok frames) (caller : String) (s : Session) :
    runProgram nested p inputs caller s = nested caller p frames s := by
  have hframes : Run.ofExcept (p.firstFrames inputs) s = (.ok frames, s) := by
    rw [h]
    rfl
  rw [runProgram, Run.bind_eq, Run.andThen_of_ok hframes]

/-- A run that lacks an input fails. -/
theorem Host.runProgram_of_error {nested : Executor} {p : Program} {inputs : Record Json}
    {error : RunError} (h : p.firstFrames inputs = .error error) (caller : String) (s : Session) :
    runProgram nested p inputs caller s = (.error (.failed error), s) := by
  rw [runProgram, Run.bind_eq, h]
  rfl

/-- The frames of a callback's call: the seed with all arguments delivered. -/
theorem Closure.frames_eq_ok {c : Closure} {args : Record Json} {frames : FrameQueue}
    (h : c.frames args = .ok frames) :
    (∀ b ∈ c.program.input, args.contains b.name = true) ∧
      frames = c.seed.receiveAll (Delivery.ofBindings args c.program.input) :=
  Delivery.foldlM_bindings h

/-- A callback that has all its inputs starts. -/
theorem Closure.exists_frames {c : Closure} {args : Record Json}
    (h : ∀ b ∈ c.program.input, args.contains b.name = true) :
    ∃ frames, c.frames args = .ok frames := by
  cases hframes : c.frames args with
  | ok frames => exact ⟨frames, rfl⟩
  | error error =>
    obtain ⟨b, hb, hmissing⟩ := Delivery.missing_of_error hframes
    rw [h b hb] at hmissing
    cases hmissing

theorem Closure.frames_sound {c : Closure} {args : Record Json} {frames : FrameQueue}
    (hc : c.seed.Sound) (h : c.frames args = .ok frames) : frames.Sound := by
  rw [(frames_eq_ok h).2]
  exact hc.receiveAll _

/-! ### Deliveries of a firing -/

/-- What an edge carries: the value under a declared output. -/
def Edge.carried? (signature : Signature) (results : Outputs) (edge : Edge) : Option Json :=
  if signature.hasOutput edge.fromKey then (results.get? edge.fromKey).bind Flow.value? else none

/-- The deliveries of a firing, in order of the edges. -/
def Delivery.ofFiring (signature : Signature) (results : Outputs) (edges : List Edge) :
    List Delivery :=
  edges.filterMap fun edge => (edge.carried? signature results).map fun value =>
    ⟨edge.target, edge.toKey, value⟩

/-- Along one edge goes what it carries. -/
theorem Delivery.ofFiring_singleton (signature : Signature) (results : Outputs) (edge : Edge) :
    (ofFiring signature results [edge]).getLast?.map (·.value) =
      edge.carried? signature results := by
  rw [ofFiring, List.filterMap_cons, List.filterMap_nil]
  cases edge.carried? signature results <;> rfl

/-- The deliveries to one key go along the edges to it. -/
theorem Delivery.filter_ofFiring (signature : Signature) (results : Outputs) (edges : List Edge)
    (id key : String) :
    (ofFiring signature results edges).filter (fun d => d.id = id ∧ d.key = key) =
      ofFiring signature results (edges.filter fun e => e.target = id ∧ e.toKey = key) := by
  rw [ofFiring, ofFiring, List.filter_filterMap, List.filterMap_filter]
  refine List.filterMap_congr fun e _ => ?_
  cases e.carried? signature results <;> simp [Option.filter]

/-- Nothing flows along the edge, although it comes from a declared output. -/
def Edge.isStopped (signature : Signature) (results : Outputs) (edge : Edge) : Bool :=
  signature.hasOutput edge.fromKey && results.get? edge.fromKey = some .stop

/-- The branches that are stopped behind a node. -/
def Event.ofStops (id : String) (signature : Signature) (results : Outputs) (edges : List Edge) :
    List Event :=
  (edges.filter fun edge => edge.isStopped signature results).map fun edge =>
    .branchStopped id edge.fromKey

/-- Nothing but events and notes has changed. -/
structure Session.Quiet (s s' : Session) : Prop where
  cache : s'.cache = s.cache
  random : s'.random = s.random

namespace Session.Quiet

variable {s s' s'' : Session}

theorem refl (s : Session) : s.Quiet s := ⟨rfl, rfl⟩

theorem trans (h : s.Quiet s') (h' : s'.Quiet s'') : s.Quiet s'' :=
  ⟨h'.cache.trans h.cache, h'.random.trans h.random⟩

theorem note (n : Note) (s : Session) : s.Quiet (Run.note n s).2 := ⟨rfl, rfl⟩

theorem emit (observer : Observer) (e : Event) (s : Session) :
    s.Quiet (Run.emit observer e s).2 := by
  rw [Run.emit]
  cases observer e <;> exact ⟨rfl, rfl⟩

end Session.Quiet

namespace Host

/-- An edge from a declared output delivers what it carries. -/
theorem forward_spec (host : Host) (id : String) {edge : Edge} {signature : Signature}
    (results : Outputs) (frames : FrameQueue) (s : Session)
    (h : signature.hasOutput edge.fromKey = true) :
    ∃ s', s.Quiet s' ∧ host.forward id edge results frames s =
      (.ok (frames.receiveAll (Delivery.ofFiring signature results [edge])), s') := by
  rw [forward, Delivery.ofFiring, List.filterMap_cons, Edge.carried?, if_pos h]
  cases hresult : results.get? edge.fromKey with
  | none => exact ⟨_, .note _ s, rfl⟩
  | some flow =>
    cases flow with
    | value value => exact ⟨s, .refl s, rfl⟩
    | stop =>
      refine ⟨_, (Session.Quiet.note (.stopped id edge.fromKey) s).trans
        (.emit host.observer (.branchStopped id edge.fromKey) _), ?_⟩
      simp only [Run.bind_eq, Run.pure_eq]
      rw [Run.andThen_of_ok (Run.note_eq ..), Run.andThen_of_ok (Run.emit_eq ..)]
      rfl

/-- A firing's deliveries are received in order of the edges. -/
theorem deliver_spec (host : Host) (id : String) (signature : Signature) (results : Outputs)
    (edges : List Edge) (frames : FrameQueue) (s : Session) :
    ∃ s', s.Quiet s' ∧ host.deliver id signature results edges frames s =
      (.ok (frames.receiveAll (Delivery.ofFiring signature results edges)), s') := by
  induction edges generalizing frames s with
  | nil => exact ⟨s, .refl s, rfl⟩
  | cons edge rest ih =>
    have hsplit : Delivery.ofFiring signature results (edge :: rest) =
        Delivery.ofFiring signature results [edge] ++
          Delivery.ofFiring signature results rest := by
      rw [Delivery.ofFiring, Delivery.ofFiring, Delivery.ofFiring, ← List.filterMap_append]
      rfl
    rw [hsplit, FrameQueue.receiveAll_append, deliver]
    split
    · rename_i hout
      obtain ⟨s₁, hquiet, hforward⟩ := forward_spec host id results frames s hout
      obtain ⟨s₂, hquiet', hdeliver⟩ := ih (frames.receiveAll _) s₁
      refine ⟨s₂, hquiet.trans hquiet', ?_⟩
      rw [Run.bind_eq, Run.andThen_of_ok hforward]
      exact hdeliver
    · rename_i hout
      -- an edge from another key carries nothing, whether it is noted or not
      have hnone : Delivery.ofFiring signature results [edge] = [] := by
        rw [Delivery.ofFiring, List.filterMap_cons, Edge.carried?, if_neg hout]
        rfl
      rw [hnone]
      split
      · obtain ⟨s₂, hquiet, hdeliver⟩ := ih frames (Run.note (.unknownKey id edge.fromKey) s).2
        refine ⟨s₂, (Session.Quiet.note _ s).trans hquiet, ?_⟩
        rw [Run.bind_eq, Run.andThen_of_ok (Run.note_eq ..)]
        exact hdeliver
      · exact ih frames s

private theorem forward_events (host : Host) (id : String) {signature : Signature} {edge : Edge}
    (h : signature.hasOutput edge.fromKey = true) (results : Outputs) (frames : FrameQueue)
    (s : Session) :
    (host.forward id edge results frames s).2.events.toList =
      s.events.toList ++ Event.ofStops id signature results [edge] := by
  rw [forward, Event.ofStops, List.filter_singleton, Edge.isStopped, h]
  rcases results.get? edge.fromKey with _ | value | _
  · simp [Run.bind_eq, Run.pure_eq, Run.andThen_of_ok (Run.note_eq ..), Run.result, Run.note]
  · simp [Run.pure_eq, Run.result]
  · simp only [Run.bind_eq, Run.pure_eq]
    rw [Run.andThen_of_ok (Run.note_eq ..), Run.andThen_of_ok (Run.emit_eq ..)]
    simp [Run.result, Run.emit_events, Run.note]

/-- Deliveries tell of stopped branches only. -/
theorem deliver_events (host : Host) (id : String) (signature : Signature) (results : Outputs)
    (edges : List Edge) (frames : FrameQueue) (s : Session) :
    (host.deliver id signature results edges frames s).2.events.toList =
      s.events.toList ++ Event.ofStops id signature results edges := by
  induction edges generalizing frames s with
  | nil => exact (List.append_nil _).symm
  | cons edge rest ih =>
    have hsplit : Event.ofStops id signature results (edge :: rest) =
        Event.ofStops id signature results [edge] ++ Event.ofStops id signature results rest := by
      rw [Event.ofStops, Event.ofStops, Event.ofStops, ← List.map_append, ← List.filter_append]
      rfl
    rw [hsplit, deliver]
    split
    · rename_i hout
      have hevents := host.forward_events id hout results frames s
      obtain ⟨s₁, -, hforward⟩ := forward_spec host id results frames s hout
      rw [hforward] at hevents
      rw [Run.bind_eq, Run.andThen_of_ok hforward, ih, hevents, List.append_assoc]
    · rename_i hout
      -- Nothing is told of an edge from another key, whether it is noted or not.
      have hnone : Event.ofStops id signature results [edge] = [] := by
        simp [Event.ofStops, Edge.isStopped, hout]
      rw [hnone, List.nil_append]
      split
      · rw [Run.bind_eq, Run.andThen_of_ok (Run.note_eq ..), ih]
        rfl
      · exact ih frames s

end Host

end Dataflow
