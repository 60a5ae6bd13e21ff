/-
Every firing is justified.

The history of an execution tells what happened to the values gathered for its nodes: they were
delivered, or cleared because their node fired or stood in the body of a callback that was called.
What waits in the queue for a node is what the history says was delivered to it last and not
cleared since. So the arguments of a firing are the latest deliveries, and no value is used twice.

* `Happening.latest` — the latest delivery since a node was last cleared;
* `Host.Processed.tracks` — a step keeps the queue and the history in agreement;
* `Host.firings_justified` — each firing takes its arguments from the history before it.
-/
import Mathlib
import Dataflow.Library.Control
import Dataflow.Proofs.Firing
namespace Dataflow

/-- What happens to the values gathered for nodes. -/
inductive Happening where
  | delivered (d : Delivery)
  /-- The values of a node are used up by its firing, or dropped with a callback body. -/
  | cleared (id : String)
  deriving DecidableEq

namespace Happening

/-- The value that a key of a node receives. -/
def valueFor (id key : String) : Happening → Option Json
  | .delivered d => if d.id = id ∧ d.key = key then some d.value else none
  | .cleared _ => none

/-- The latest value delivered to a key of a node since the node was last cleared. -/
def latest (id key : String) (past : List Happening) : Option Json :=
  (past.reverse.takeWhile fun h => h ≠ .cleared id).findSome? (valueFor id key)

private theorem latest_delivered (id key : String) (past : List Happening) (d : Delivery) :
    latest id key (past ++ [.delivered d]) =
      if id = d.id ∧ key = d.key then some d.value else latest id key past := by
  rw [latest, List.reverse_append, List.reverse_singleton, List.singleton_append,
    List.takeWhile_cons_of_pos (by simp), List.findSome?_cons, valueFor]
  by_cases h : d.id = id ∧ d.key = key
  · rw [if_pos h, if_pos ⟨h.1.symm, h.2.symm⟩]
  · rw [if_neg h, if_neg fun h' => h ⟨h'.1.symm, h'.2.symm⟩, latest]

private theorem latest_cleared (id key : String) (past : List Happening) (other : String) :
    latest id key (past ++ [.cleared other]) = if id = other then none else latest id key past := by
  rw [latest, List.reverse_append, List.reverse_singleton, List.singleton_append]
  by_cases h : id = other
  · rw [if_pos h, List.takeWhile_cons_of_neg (by simp [h]), List.findSome?_nil]
  · rw [if_neg h, List.takeWhile_cons_of_pos (by simpa using fun e => h e.symm),
      List.findSome?_cons, latest]
    rfl

private theorem latest_clearedAll (id key : String) (past : List Happening) (ids : List String) :
    latest id key (past ++ ids.map .cleared) = if id ∈ ids then none else latest id key past := by
  induction ids generalizing past with
  | nil => simp
  | cons other rest ih =>
    rw [List.map_cons, List.append_cons, ih, latest_cleared]
    by_cases h : id = other <;> simp [h]

/-- A latest value was delivered. -/
theorem mem_of_latest {id key : String} {past : List Happening} {value : Json}
    (h : latest id key past = some value) : .delivered ⟨id, key, value⟩ ∈ past := by
  obtain ⟨a, ha, hvalue⟩ := List.exists_of_findSome?_eq_some h
  have hmem : a ∈ past := List.mem_reverse.1 ((List.takeWhile_sublist _).mem ha)
  cases a with
  | cleared other => cases hvalue
  | delivered d =>
    rw [valueFor] at hvalue
    split at hvalue
    · rename_i hd
      cases hvalue
      rw [← hd.1, ← hd.2]
      exact hmem
    · cases hvalue

end Happening

/-! ### The queue and the history -/

namespace FrameQueue

/-- The value that waits for a key of a node. -/
def gathered (q : FrameQueue) (id key : String) : Option Json := (q.get? id).bind (·.get? key)

variable {q : FrameQueue}

theorem gathered_receive (q : FrameQueue) (d : Delivery) (id key : String) :
    (q.receive d).gathered id key =
      if id = d.id ∧ key = d.key then some d.value else q.gathered id key := by
  rw [gathered, receive, get?_add]
  by_cases hid : id = d.id
  · subst hid
    rw [if_pos rfl, Option.bind_some, Record.get?_insert, gathered]
    by_cases hkey : key = d.key
    · simp [hkey]
    · cases q.get? d.id <;> simp [hkey, Record.get?_empty]
  · rw [if_neg hid, if_neg fun h => hid h.1, gathered]

private theorem gathered_ensure (q : FrameQueue) (other id key : String) :
    (q.ensure other).gathered id key = q.gathered id key := by
  rw [gathered, gathered, get?_ensure]
  split
  · rename_i hid
    rw [hid]
    cases q.get? other <;> rfl
  · rfl

theorem gathered_ensureAll (q : FrameQueue) (ids : List String) (id key : String) :
    (ids.foldl ensure q).gathered id key = q.gathered id key := by
  induction ids generalizing q with
  | nil => rfl
  | cons other rest ih => rw [List.foldl_cons, ih, gathered_ensure]

/-- What waits for a key after deliveries is the last one made to it. -/
theorem gathered_receiveAll (q : FrameQueue) (ds : List Delivery) (id key : String) :
    (q.receiveAll ds).gathered id key =
      (((ds.filter fun d => d.id = id ∧ d.key = key).getLast?.map (·.value)) <|>
        q.gathered id key) := by
  induction ds generalizing q with
  | nil => rfl
  | cons d rest ih =>
    rw [show q.receiveAll (d :: rest) = (q.receive d).receiveAll rest from rfl, ih,
      gathered_receive]
    by_cases hd : d.id = id ∧ d.key = key
    · rw [if_pos ⟨hd.1.symm, hd.2.symm⟩, List.filter_cons_of_pos (by simpa using hd),
        List.getLast?_cons]
      cases (rest.filter fun d => d.id = id ∧ d.key = key).getLast? <;> rfl
    · rw [if_neg fun h => hd ⟨h.1.symm, h.2.symm⟩, List.filter_cons_of_neg (by simpa using hd)]

/-- What waits for the known nodes is what the history says. -/
def Tracks (p : Program) (q : FrameQueue) (past : List Happening) : Prop :=
  ∀ id, (p.node? id).isSome → ∀ key, q.gathered id key = Happening.latest id key past

/-- Deliveries are received as they are told. -/
theorem Tracks.receiveAll {p : Program} {past : List Happening} (h : q.Tracks p past)
    (ds : List Delivery) : (q.receiveAll ds).Tracks p (past ++ ds.map .delivered) := by
  induction ds generalizing q past with
  | nil =>
    rw [List.map_nil, List.append_nil]
    exact h
  | cons d rest ih =>
    rw [List.map_cons, List.append_cons]
    refine ih fun id hid key => ?_
    rw [gathered_receive, Happening.latest_delivered, h id hid]

end FrameQueue

namespace Firing

/-- The deliveries of a firing: along each edge from a declared output, the value that flows. -/
def deliveries (f : Firing) : List Delivery :=
  match f.results with
  | some results => Delivery.ofFiring f.entry.signature results f.node.next
  | none => []

/-- What a firing does to the values of nodes: its own are used up, those inside its callback
bodies are dropped, and its results are delivered. -/
def happenings (f : Firing) : List Happening :=
  .cleared f.id :: f.consumed.map .cleared ++ f.deliveries.map .delivered

/-- A firing of a node of the program that takes its arguments from the past: they have the names
that are declared, and each is the latest value delivered to its key or else the default. -/
structure Justified (host : Host) (p : Program) (past : List Happening) (f : Firing) : Prop where
  node : p.node? f.id = some f.node
  entry : host.catalog.get? f.node.function = some f.entry
  consumed : f.consumed = Callback.body p f.id (Callback.feedingEdges p f.id f.entry.signature)
  names : ∀ key, f.args.contains key = true ↔ key ∈ f.entry.signature.inputNames
  value : ∀ key ∈ f.entry.signature.inputNames,
    f.args.get? key = (Happening.latest f.id key past <|> f.node.defaults.get? key)

end Firing

/-- The arguments of a node that is ready: the declared inputs, and no others. -/
theorem Node.get?_arguments (node : Node) (signature : Signature) (frame : Frame) (key : String) :
    (node.arguments signature frame).get? key =
      if key ∈ signature.inputNames then frame.get? key <|> node.defaults.get? key else none :=
  Record.get?_ofList_filterMap ..

theorem Node.contains_arguments {node : Node} {signature : Signature} {frame : Frame}
    (h : node.isReady signature frame = true) (key : String) :
    (node.arguments signature frame).contains key = true ↔ key ∈ signature.inputNames := by
  rw [Record.contains, get?_arguments]
  by_cases hkey : key ∈ signature.inputNames
  · have hready := List.all_eq_true.1 h key hkey
    rw [Bool.or_eq_true, Record.contains, Record.contains] at hready
    rw [if_pos hkey]
    cases hframe : frame.get? key with
    | some value => simp [hkey]
    | none => simpa [hframe, hkey] using hready
  · simp [hkey]

/-- The bodies that are consumed are those behind the edges into callbacks. -/
theorem Callback.consumed_of_extract {p : Program} {site : String} {node : Node}
    {signature : Signature} {frames : FrameQueue} {extraction : Extraction}
    (hnode : p.node? site = some node)
    (h : extract p site signature frames = .ok extraction) :
    extraction.consumed = body p site (feedingEdges p site signature) := by
  rw [extract] at h
  split at h
  · rename_i hnone
    rcases hnone with hnone | ⟨-, hfeeding⟩
    · rw [hnode] at hnone
      cases hnone
    · cases h
      rw [List.isEmpty_iff.1 hfeeding]
      rfl
  · obtain ⟨found, -, hfound⟩ := Except.bind_eq_ok h
    cases hfound
    rfl

namespace Host

section Steps

variable {host : Host} {nested : Executor} {caller : String} {p : Program} {id : String}
  {frame : Frame} {frames rest frames' : FrameQueue} {outputs outputs' : Record Json}
  {s s' : Session} {past : List Happening}

/-- The popped frame of a known node holds its latest values. -/
theorem get?_popped (hpop : frames.pop? = some ((id, frame), rest))
    (htracks : frames.Tracks p past) (hid : (p.node? id).isSome) (key : String) :
    frame.get? key = Happening.latest id key past := by
  rw [← htracks id hid, FrameQueue.gathered, (FrameQueue.get?_of_pop? hpop).1]
  rfl

/-- Popping a frame clears its node. -/
theorem tracks_popped (hpop : frames.pop? = some ((id, frame), rest))
    (htracks : frames.Tracks p past) : rest.Tracks p (past ++ [.cleared id]) := by
  intro other hother key
  rw [FrameQueue.gathered, (FrameQueue.get?_of_pop? hpop).2, Happening.latest_cleared]
  split
  · rfl
  · exact htracks other hother key

/-- Each firing is justified by the history before it. -/
theorem Processed.justified {f : Firing} {result : Except Halt Progress × Session}
    (h : host.Processed nested caller p id frame rest outputs s (some f) result)
    (hpop : frames.pop? = some ((id, frame), rest)) (htracks : frames.Tracks p past) :
    f.Justified host p past := by
  cases h with
  | failed hnode hentry hready hextract _ _ | fired hnode hentry hready hextract _ _ _ =>
    refine ⟨hnode, hentry, Callback.consumed_of_extract hnode hextract,
      Node.contains_arguments hready, fun key hkey => ?_⟩
    show (Node.arguments ..).get? key = _
    rw [Node.get?_arguments, if_pos hkey,
      get?_popped hpop htracks (Option.isSome_iff_exists.2 ⟨_, hnode⟩)]

/-- A step keeps the queue and the history in agreement. -/
theorem Processed.tracks {firing : Option Firing}
    (h : host.Processed nested caller p id frame rest outputs s firing
      (.ok (.next frames' outputs'), s'))
    (hpop : frames.pop? = some ((id, frame), rest)) (htracks : frames.Tracks p past) :
    frames'.Tracks p (past ++ firing.toList.flatMap Firing.happenings) := by
  have hrest := tracks_popped hpop htracks
  generalize hresult : (Except.ok (Progress.next frames' outputs'), s') = result at h
  cases h with
  | unknown | unwired | failed => cases hresult
  | dropped hnode _ =>
    cases hresult
    intro other hother key
    -- The dropped frame belongs to no node, so nothing that counts is lost.
    have hne : other ≠ id := by
      rintro rfl
      rw [hnode] at hother
      cases hother
    rw [hrest other hother, Happening.latest_cleared, if_neg hne, Option.toList_none,
      List.flatMap_nil, List.append_nil]
  | deferred hnode _ _ _ =>
    cases hresult
    intro other hother key
    rw [FrameQueue.gathered, FrameQueue.get?_defer, Option.toList_none, List.flatMap_nil,
      List.append_nil]
    split
    · rename_i hid
      rw [hid] at hother ⊢
      exact get?_popped hpop htracks hother key
    · rename_i hid
      rw [← FrameQueue.gathered, hrest other hother, Happening.latest_cleared, if_neg hid]
  | @fired node entry extraction results s₁ s₂ s₃ hnode hentry hready hextract _ _ _ =>
    split at hresult
    · cases hresult
    · cases hresult
      have hremoved : (extraction.consumed.foldl FrameQueue.remove rest).Tracks p
          (past ++ [.cleared id] ++ extraction.consumed.map .cleared) := by
        intro other hother key
        rw [FrameQueue.gathered, FrameQueue.get?_foldl_remove, Happening.latest_clearedAll]
        split
        · rfl
        · exact hrest other hother key
      have hreceived := hremoved.receiveAll
        (Delivery.ofFiring entry.signature results node.next)
      rw [List.append_assoc, List.append_assoc] at hreceived
      rw [Option.toList_some, List.flatMap_singleton]
      exact hreceived

/-- Along an execution every firing is justified by the past and by the firings before it. -/
theorem Drained.justified {steps : Nat} {log : List Firing}
    {final : Except Halt (Record Json) × Session}
    (h : host.Drained nested caller p steps frames outputs s log final)
    (htracks : frames.Tracks p past) {before after : List Firing} {f : Firing}
    (hlog : log = before ++ f :: after) :
    f.Justified host p (past ++ before.flatMap Firing.happenings) := by
  induction h generalizing past before with
  | empty _ | exhausted _ =>
    cases before <;> cases hlog
  | @halted _ _ _ _ _ _ _ _ firing _ hpop hprocessed
  | @complete _ _ _ _ _ _ _ _ _ firing hpop hprocessed =>
    cases firing with
    | none => cases before <;> cases hlog
    | some g =>
      cases before with
      | nil =>
        cases hlog
        rw [List.flatMap_nil, List.append_nil]
        exact hprocessed.justified hpop htracks
      | cons g' before => cases before <;> cases hlog
  | @next _ _ _ _ _ _ _ _ _ _ firing log _ hpop hprocessed _ ih =>
    have hnext := hprocessed.tracks hpop htracks
    cases firing with
    | none =>
      rw [Option.toList_none, List.flatMap_nil, List.append_nil] at hnext
      exact ih hnext hlog
    | some g =>
      cases before with
      | nil =>
        cases hlog
        rw [List.flatMap_nil, List.append_nil]
        exact hprocessed.justified hpop htracks
      | cons g' before =>
        cases hlog
        have hjustified := ih hnext rfl
        rw [Option.toList_some, List.flatMap_singleton, List.append_assoc] at hjustified
        exact hjustified

end Steps

end Host

/-! ### Starts -/

namespace FrameQueue

/-- The values in the frames, as deliveries. -/
def deliveries (q : FrameQueue) : List Delivery :=
  q.frames.entries.flatMap fun (id, frame) => frame.entries.map fun (key, value) => ⟨id, key, value⟩

private theorem mem_deliveries {q : FrameQueue} {id key : String} {value : Json} :
    ⟨id, key, value⟩ ∈ q.deliveries ↔ q.gathered id key = some value := by
  rw [gathered, Option.bind_eq_some_iff, deliveries, List.mem_flatMap]
  constructor
  · rintro ⟨⟨other, frame⟩, hframe, hmem⟩
    obtain ⟨⟨k, v⟩, hvalue, heq⟩ := List.mem_map.1 hmem
    cases heq
    exact ⟨frame, Record.mem_entries.1 hframe, Record.mem_entries.1 hvalue⟩
  · rintro ⟨frame, hframe, hvalue⟩
    exact ⟨(id, frame), Record.mem_entries.2 hframe,
      List.mem_map.2 ⟨(key, value), Record.mem_entries.2 hvalue, rfl⟩⟩

end FrameQueue

private theorem Happening.latest_deliveries {id key : String} {ds : List Delivery}
    (h : latest id key (ds.map .delivered) = none) (value : Json) : ⟨id, key, value⟩ ∉ ds := by
  intro hmem
  have hall : (ds.map Happening.delivered).reverse.takeWhile (fun h => h ≠ .cleared id) =
      (ds.map .delivered).reverse := by
    rw [List.takeWhile_eq_self_iff]
    intro a ha
    obtain ⟨d, -, rfl⟩ := List.mem_map.1 (List.mem_reverse.1 ha)
    simp
  rw [latest, hall, List.findSome?_eq_none_iff] at h
  have hnone := h (.delivered ⟨id, key, value⟩) (List.mem_reverse.2 (List.mem_map.2 ⟨_, hmem, rfl⟩))
  simp [valueFor] at hnone

/-- The deliveries that stand for a queue tell its frames. -/
theorem FrameQueue.tracks_deliveries (p : Program) (q : FrameQueue) :
    q.Tracks p (q.deliveries.map .delivered) := by
  intro id _ key
  cases hlatest : Happening.latest id key (q.deliveries.map .delivered) with
  | some value =>
    obtain ⟨d, hd, heq⟩ := List.mem_map.1 (Happening.mem_of_latest hlatest)
    cases heq
    exact mem_deliveries.1 hd
  | none =>
    refine Option.eq_none_iff_forall_ne_some.2 fun value hvalue => ?_
    exact Happening.latest_deliveries hlatest value (mem_deliveries.2 hvalue)

/-- How an execution of a program starts, with the deliveries made before its first step: a run
delivers the inputs, and a call of a callback delivers the arguments to a copy of the frames that
wait inside the body. -/
inductive Program.Starts (p : Program) : FrameQueue → List Delivery → Prop where
  | run {inputs : Record Json} {frames : FrameQueue} : p.firstFrames inputs = .ok frames →
    Starts p frames (Delivery.ofBindings inputs p.input)
  | callback {c : Closure} {args : Record Json} {frames : FrameQueue} : c.program = p →
    c.frames args = .ok frames →
    Starts p frames (c.seed.deliveries ++ Delivery.ofBindings args p.input)

theorem Program.Starts.tracks {p : Program} {frames : FrameQueue} {start : List Delivery}
    (h : p.Starts frames start) : frames.Tracks p (start.map .delivered) := by
  cases h with
  | run h =>
    rw [(Program.firstFrames_eq_ok h).2]
    have hempty : FrameQueue.empty.Tracks p [] := fun id _ key => rfl
    intro id hid key
    rw [FrameQueue.gathered_ensureAll]
    exact hempty.receiveAll _ id hid key
  | callback hprogram h =>
    rw [(Closure.frames_eq_ok h).2, List.map_append, hprogram]
    exact (FrameQueue.tracks_deliveries p _).receiveAll _

/-! ### Executions -/

/-- The firing sends a value to a key of a node: along an edge from a declared output at which the
value flows. -/
def Firing.Sends (g : Firing) (id key : String) (value : Json) : Prop :=
  ∃ results, g.results = some results ∧ ∃ edge ∈ g.node.next, edge.target = id ∧ edge.toKey = key ∧
    g.entry.signature.hasOutput edge.fromKey = true ∧
    results.get? edge.fromKey = some (.value value)

theorem Flow.value?_eq_some {flow : Flow} {value : Json} :
    flow.value? = some value ↔ flow = .value value := by
  cases flow with
  | value v => simp [Flow.value?]
  | stop => simp [Flow.value?]

private theorem Edge.carried?_eq_some {signature : Signature} {results : Outputs} {edge : Edge}
    {value : Json} : edge.carried? signature results = some value ↔
      signature.hasOutput edge.fromKey = true ∧
        results.get? edge.fromKey = some (.value value) := by
  rw [Edge.carried?]
  split
  · rename_i hout
    rw [Option.bind_eq_some_iff]
    constructor
    · rintro ⟨flow, hflow, hvalue⟩
      cases Flow.value?_eq_some.1 hvalue
      exact ⟨hout, hflow⟩
    · rintro ⟨-, hflow⟩
      exact ⟨_, hflow, rfl⟩
  · rename_i hout
    exact ⟨(by simp), fun h => absurd h.1 hout⟩

private theorem Firing.mem_deliveries {g : Firing} {id key : String} {value : Json} :
    ⟨id, key, value⟩ ∈ g.deliveries ↔ g.Sends id key value := by
  rw [deliveries, Sends]
  cases g.results with
  | none => simp
  | some results =>
    simp only [Delivery.ofFiring, List.mem_filterMap, Option.map_eq_some_iff, Option.some.injEq,
      exists_eq_left', Edge.carried?_eq_some]
    constructor
    · rintro ⟨edge, hedge, v, ⟨hout, hflow⟩, heq⟩
      cases heq
      exact ⟨edge, hedge, rfl, rfl, hout, hflow⟩
    · rintro ⟨edge, hedge, rfl, rfl, hout, hflow⟩
      exact ⟨edge, hedge, value, ⟨hout, hflow⟩, rfl⟩

namespace Host

/-- The firings of an execution that follows nested calls to the given depth. -/
def executionFirings (host : Host) (depth : Nat) (caller : String) (p : Program)
    (frames : FrameQueue) (s : Session) : List Firing :=
  host.firings (host.execute depth) caller p (p.steps host.slack) frames .empty s

end Host

/-- An argument of a justified firing was delivered at the start, was sent by an earlier firing, or
is a default. -/
theorem Firing.Justified.origin {host : Host} {p : Program} {start : List Delivery}
    {before : List Firing} {f : Firing}
    (h : f.Justified host p (start.map .delivered ++ before.flatMap Firing.happenings))
    {key : String} {value : Json} (hvalue : f.args.get? key = some value) :
    ⟨f.id, key, value⟩ ∈ start ∨ (∃ g ∈ before, g.Sends f.id key value) ∨
      f.node.defaults.get? key = some value := by
  have hkey := (h.names key).1 (Record.contains_eq_true.2 ⟨value, hvalue⟩)
  rw [h.value key hkey] at hvalue
  cases hlatest : Happening.latest f.id key
    (start.map .delivered ++ before.flatMap Firing.happenings) with
  | none =>
    rw [hlatest] at hvalue
    exact .inr (.inr hvalue)
  | some latest =>
    rw [hlatest] at hvalue
    cases hvalue
    rcases List.mem_append.1 (Happening.mem_of_latest hlatest) with hstart | hbefore
    · obtain ⟨d, hd, heq⟩ := List.mem_map.1 hstart
      cases heq
      exact .inl hd
    · obtain ⟨g, hg, hhappening⟩ := List.mem_flatMap.1 hbefore
      refine .inr (.inl ⟨g, hg, Firing.mem_deliveries.1 ?_⟩)
      rcases List.mem_append.1 hhappening with hcleared | hdelivered
      · rcases List.mem_cons.1 hcleared with heq | hconsumed
        · cases heq
        · obtain ⟨other, -, heq⟩ := List.mem_map.1 hconsumed
          cases heq
      · obtain ⟨d, hd, heq⟩ := List.mem_map.1 hdelivered
        cases heq
        exact hd

namespace Host

/-- **Every firing is justified.** However an execution starts, each of its firings has exactly the
declared arguments; each is the latest value delivered since the node last fired or was dropped with
a callback body, and the default only when there is none. So each argument comes from the start,
from an earlier firing at whose output it flowed, or from a default, and a node never fires when
nothing of the kind reaches one of its inputs. -/
theorem firings_justified (host : Host) (depth : Nat) (caller : String) {p : Program}
    {frames : FrameQueue} {start : List Delivery} (hstart : p.Starts frames start) (s : Session) :
    host.Drained (host.execute depth) caller p (p.steps host.slack) frames .empty s
      (host.executionFirings depth caller p frames s)
      (host.execute (depth + 1) caller p frames s) ∧
    (∀ before f after, host.executionFirings depth caller p frames s = before ++ f :: after →
      f.Justified host p (start.map .delivered ++ before.flatMap Firing.happenings) ∧
      ∀ key value, f.args.get? key = some value →
        ⟨f.id, key, value⟩ ∈ start ∨ (∃ g ∈ before, g.Sends f.id key value) ∨
          f.node.defaults.get? key = some value) ∧
    ∀ id node entry key, p.node? id = some node → host.catalog.get? node.function = some entry →
      key ∈ entry.signature.inputNames → node.defaults.get? key = none →
      (∀ value, ⟨id, key, value⟩ ∉ start) →
      (∀ g ∈ host.executionFirings depth caller p frames s, ∀ value, ¬ g.Sends id key value) →
      ∀ f ∈ host.executionFirings depth caller p frames s, f.id ≠ id := by
  have hdrained : host.Drained (host.execute depth) caller p (p.steps host.slack) frames .empty s
      (host.executionFirings depth caller p frames s)
      (host.execute (depth + 1) caller p frames s) := drain_drained _ frames .empty s
  have hjustified : ∀ before f after,
      host.executionFirings depth caller p frames s = before ++ f :: after →
      f.Justified host p (start.map .delivered ++ before.flatMap Firing.happenings) :=
    fun before f after hlog => hdrained.justified hstart.tracks hlog
  refine ⟨hdrained, fun before f after hlog => ⟨hjustified before f after hlog,
    fun key value hvalue => (hjustified before f after hlog).origin hvalue⟩, ?_⟩
  intro id node entry key hnode hentry hkey hdefault hnostart hnosend f hf hid
  obtain ⟨before, after, hlog⟩ := List.append_of_mem hf
  have hf' := hjustified before f after hlog
  subst hid
  cases hnode.symm.trans hf'.node
  cases hentry.symm.trans hf'.entry
  obtain ⟨value, hvalue⟩ := Record.contains_eq_true.1 ((hf'.names key).2 hkey)
  rcases hf'.origin hvalue with hd | ⟨g, hg, hsends⟩ | hd
  · exact hnostart value hd
  · exact hnosend g (hlog ▸ List.mem_append_left _ hg) value hsends
  · rw [hdefault] at hd
    cases hd

/-- A catalog of branches. -/
def branches : Host where
  catalog := ⟨.ofList ([Library.ctrlIf, Library.ctrlSplit].map fun f =>
    (f.name, .native f.signature f.runner))⟩
  slack := 10
  observer := fun _ => none

/-- A program that sends its data down one of two branches. -/
def branching : Program where
  input := [⟨"flag", ⟨"split", "condition"⟩, .bool⟩]
  output := [⟨"then", ⟨"left", "data"⟩, .string⟩, ⟨"else", ⟨"right", "data"⟩, .string⟩]
  nodes := .ofList [
    ("split", ⟨"ctrl.split", [⟨"left", "true", "condition"⟩, ⟨"right", "false", "condition"⟩],
      .ofList [("data", .bool true)]⟩),
    ("left", ⟨"ctrl.if", [], .ofList [("true", .string "on"), ("false", .string "off")]⟩),
    ("right", ⟨"ctrl.if", [], .ofList [("true", .string "on"), ("false", .string "off")]⟩)]

/-- The branch that is stopped does not fire. -/
theorem firings_justified_branching :
    ∃ frames, branching.firstFrames (.ofList [("flag", .bool true)]) = .ok frames ∧
      ∀ f ∈ branches.executionFirings 0 "main" branching frames ⟨none, #[], #[], default⟩,
        f.id ≠ "right" := by
  have hframes : branching.firstFrames (.ofList [("flag", .bool true)]) =
      .ok (FrameQueue.empty.add "split" "condition" (.bool true)) := by decide +kernel
  refine ⟨_, hframes, ?_⟩
  refine (branches.firings_justified 0 "main" (.run hframes) ⟨none, #[], #[], default⟩).2.2 "right"
    _ (.native Library.ctrlIf.signature Library.ctrlIf.runner) "condition" rfl rfl
    (by decide +kernel) (by decide +kernel) ?_ ?_
  · intro value hvalue
    simp [Delivery.ofBindings, branching] at hvalue
  · have hquiet : ∀ g ∈ branches.executionFirings 0 "main" branching
        (FrameQueue.empty.add "split" "condition" (.bool true)) ⟨none, #[], #[], default⟩,
        ∀ d ∈ g.deliveries, ¬ (d.id = "right" ∧ d.key = "condition") := by decide +kernel
    intro g hg value hsends
    exact hquiet g hg _ (Firing.mem_deliveries.2 hsends) ⟨rfl, rfl⟩

end Host

end Dataflow
