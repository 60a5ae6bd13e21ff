/-
The queue of frames is a line.

A queue keeps its order and its frames apart. Read as one list, each waiting node with its frame, it
is a plain line: whoever is new joins at the end, the first is served, and a node that is already
waiting keeps its place. Whatever was done to a queue before, its order and its frames go together,
so all that can be asked of it can be read off the line.

* `Line.alter` — change a frame where it stands, or put a new one at the end;
* `FrameQueue.Operation.onLine` — what each operation is on the line;
* `FrameQueue.Sound.toList_after` — on a sound queue, it is just that;
* `FrameQueue.afterAll_shows` — every sequence of operations.
-/
import Mathlib
import Dataflow.Proofs.FrameQueue
namespace Dataflow

/-! ### Lines -/

/-- Waiting nodes with their frames, the first one first. -/
abbrev Line := List (String × Frame)

namespace Line

variable {l : Line} {id : String}

/-- The nodes of a line. -/
def names (l : Line) : List String := l.map (·.1)

@[simp]
theorem names_nil : names [] = [] := rfl

@[simp]
theorem names_cons (entry : String × Frame) (rest : Line) :
    names (entry :: rest) = entry.1 :: names rest := rfl

/-- Change the frame of a node where it stands, or an empty one at the end of the line. -/
def alter (id : String) (change : Frame → Frame) : Line → Line
  | [] => [(id, change .empty)]
  | entry :: rest =>
    if entry.1 = id then (id, change entry.2) :: rest else entry :: alter id change rest

private theorem names_alter (id : String) (change : Frame → Frame) (l : Line) :
    names (alter id change l) = if id ∈ l.names then l.names else l.names ++ [id] := by
  induction l with
  | nil => simp [alter]
  | cons entry rest ih =>
    rw [alter]
    by_cases h : entry.1 = id
    · simp [h]
    · have hne : ¬ id = entry.1 := fun e => h e.symm
      by_cases hrest : id ∈ names rest <;> simp [h, hne, hrest, ih]

private theorem lookup_alter (id other : String) (change : Frame → Frame) (l : Line) :
    Entries.lookup other (alter id change l) =
      if other = id then some (change ((Entries.lookup id l).getD .empty))
      else Entries.lookup other l := by
  induction l with
  | nil => rfl
  | cons entry rest ih =>
    rw [alter]
    by_cases h : entry.1 = id
    · -- The node stands here, so the rest of the line is not looked at for it.
      simp only [h, if_true, Entries.lookup]
      by_cases hother : other = id <;> simp [hother]
    · have hne : ¬ id = entry.1 := fun e => h e.symm
      simp only [h, hne, if_false, Entries.lookup, ih]
      by_cases hother : other = id
      · simp [hother, hne]
      · simp [hother]

/-- A line without repetitions can be read off its nodes and their frames. -/
theorem filterMap_names (hd : l.names.Nodup) :
    (l.names.filterMap fun id => (Entries.lookup id l).map fun frame => (id, frame)) = l := by
  induction l with
  | nil => rfl
  | cons entry rest ih =>
    rw [names_cons, List.nodup_cons] at hd
    have hrest : ∀ id ∈ names rest,
        ((Entries.lookup id (entry :: rest)).map fun frame => (id, frame)) =
          (Entries.lookup id rest).map fun frame => (id, frame) := by
      intro id hid
      have hne : ¬ id = entry.1 := fun e => hd.1 (e ▸ hid)
      rw [Entries.lookup, if_neg hne]
    rw [names_cons, List.filterMap_cons, Entries.lookup_head, List.filterMap_congr hrest, ih hd.2]
    rfl

/-- A node that does not wait joins at the end. -/
theorem alter_of_not_mem (h : id ∉ l.names) (change : Frame → Frame) :
    alter id change l = l ++ [(id, change .empty)] := by
  induction l with
  | nil => rfl
  | cons entry rest ih =>
    rw [names_cons, List.mem_cons, not_or] at h
    rw [alter, if_neg (Ne.symm h.1), ih h.2]
    rfl

/-- A frame that is changed leaves all others where they are. -/
theorem filter_alter (id : String) (change : Frame → Frame) (l : Line) :
    (alter id change l).filter (fun e => e.1 ≠ id) = l.filter fun e => e.1 ≠ id := by
  induction l with
  | nil => simp [alter]
  | cons entry rest ih =>
    rw [alter]
    by_cases h : entry.1 = id
    · simp [h]
    · simp only [h, if_false, List.filter_cons, ih]

end Line

/-! ### Operations -/

namespace FrameQueue

/-- What can be done to a queue. -/
inductive Operation where
  | add (id key : String) (value : Json)
  | ensure (id : String)
  | pop
  | defer (id : String) (frame : Frame)
  | remove (id : String)
  /-- The queue is replaced by its part for the given nodes. -/
  | restrict (ids : List String)

/-- The queue after an operation. -/
def after (q : FrameQueue) : Operation → FrameQueue
  | .add id key value => q.add id key value
  | .ensure id => q.ensure id
  | .pop => (q.pop?.map (·.2)).getD q
  | .defer id frame => q.defer id frame
  | .remove id => q.remove id
  | .restrict ids => q.restrict ids

/-- The queue after a sequence of operations. -/
def afterAll (q : FrameQueue) (operations : List Operation) : FrameQueue :=
  operations.foldl after q

/-- What an operation does to the line of a queue. -/
def Operation.onLine (l : Line) : Operation → Line
  | .add id key value => l.alter id fun frame => frame.insert key value
  | .ensure id => l.alter id fun frame => frame
  | .pop => l.tail
  | .defer id frame => l.alter id fun _ => frame
  | .remove id => l.filter fun e => e.1 ≠ id
  | .restrict ids => l.filter fun e => e.1 ∈ ids

/-- Whether an operation on a line is about a node. -/
def Operation.touches (l : Line) (id : String) : Operation → Bool
  | .add other _ _ | .ensure other | .defer other _ | .remove other => id = other
  | .pop => l.head?.map (·.1) = some id
  | .restrict ids => id ∉ ids

/-- An operation leaves the nodes it is not about where they are, with the frames that they have. -/
theorem Operation.filter_onLine (operation : Operation) (l : Line) :
    (operation.onLine l).filter (fun e => !operation.touches l e.1) =
      l.filter fun e => !operation.touches l e.1 := by
  have hne : ∀ id, (fun e : String × Frame => !decide (e.1 = id)) = fun e => decide (e.1 ≠ id) := by
    intro id
    funext e
    simp
  cases operation with
  | add id _ _ | ensure id | defer id _ =>
    simp only [touches, onLine, hne]
    exact Line.filter_alter ..
  | pop =>
    rcases l with _ | ⟨first, rest⟩
    · rfl
    · simp [touches, onLine]
  | remove id => simp [touches, onLine, List.filter_filter]
  | restrict ids => simp [touches, onLine, List.filter_filter]

/-! ### Sound queues -/

variable {q rest : FrameQueue} {id : String} {frame : Frame}

private theorem Sound.lookup_toList (hq : q.Sound) (id : String) :
    Entries.lookup id q.toList = q.get? id := by
  have hd : (q.toList.map (·.1)).Nodup := hq.map_toList ▸ hq.nodup
  refine Option.ext fun frame => ?_
  rw [← hq.mem_toList]
  exact ⟨Entries.mem_of_lookup, Entries.lookup_of_mem hd⟩

/-- The line of a sound queue is known from its nodes and their frames. -/
theorem Sound.toList_eq (hq : q.Sound) {l : Line} (hnames : q.order = l.names)
    (h : ∀ id, q.get? id = Entries.lookup id l) : q.toList = l := by
  rw [toList, hnames]
  simp only [h]
  exact Line.filterMap_names (hnames ▸ hq.nodup)

theorem Sound.mem_names (hq : q.Sound) : id ∈ Line.names q.toList ↔ (q.get? id).isSome := by
  rw [Line.names, hq.map_toList, hq.mem_order, Option.isSome_iff_exists]

private theorem Sound.toList_alter (hq : q.Sound) (id : String) (change : Frame → Frame) :
    (q.alter id change).toList = Line.alter id change q.toList := by
  refine (hq.alter id change).toList_eq ?_ fun other => ?_
  · rw [order_alter, Line.names_alter]
    simp only [hq.mem_names]
    rw [Line.names, hq.map_toList]
  · rw [get?_alter, Line.lookup_alter, hq.lookup_toList, hq.lookup_toList]

/-- Putting a frame back is changing it, whatever stood there. -/
theorem defer_eq_alter (q : FrameQueue) (id : String) (frame : Frame) :
    q.defer id frame = q.alter id fun _ => frame := by
  rw [defer, alter, contains, Record.contains]
  show (if (q.get? id).isSome then _ else _) = _
  cases q.get? id <;> rfl

/-- What is taken from a sound queue is the head of its line, and the tail is left. -/
theorem Sound.toList_pop (hq : q.Sound) (h : q.pop? = some ((id, frame), rest)) :
    q.toList = (id, frame) :: rest.toList := by
  obtain ⟨horder, hframe, hrest⟩ := pop?_eq_some hq h
  refine hq.toList_eq ?_ fun other => ?_
  · rw [horder, Line.names, List.map_cons, (hq.pop h).map_toList]
  · rw [Entries.lookup, (hq.pop h).lookup_toList, hrest]
    by_cases hother : other = id
    · simp [hother, hframe]
    · simp [hother]

private theorem Sound.toList_remove (hq : q.Sound) (id : String) :
    (q.remove id).toList = q.toList.filter fun e => e.1 ≠ id := by
  refine (hq.remove id).toList_eq ?_ fun other => ?_
  · have horder : (q.remove id).order = q.order.filter fun other => other ≠ id := by
      rw [FrameQueue.remove]
      split
      · rfl
      · -- Without a frame the node is not in line, so nothing has to go.
        rename_i hcontains
        have hnone : q.get? id = none :=
          Record.contains_eq_false.1 (by simpa [contains] using hcontains)
        refine (List.filter_eq_self.2 fun other hother => ?_).symm
        have hne : other ≠ id := by
          rintro rfl
          exact hq.not_mem hnone hother
        simpa using hne
    rw [horder, ← hq.map_toList, Line.names, List.filter_map]
    rfl
  · have hfilter := Entries.lookup_filter (fun name => decide (name ≠ id)) other q.toList
    rw [hfilter, get?_remove, hq.lookup_toList]
    by_cases hother : other = id <;> simp [hother]

theorem toList_restrict (q : FrameQueue) (ids : List String) :
    (q.restrict ids).toList = q.toList.filter fun e => e.1 ∈ ids := by
  show (q.order.filter _).filterMap _ = (q.order.filterMap _).filter _
  rw [List.filterMap_filter, List.filter_filterMap]
  refine List.filterMap_congr fun id _ => ?_
  rw [get?_restrict]
  by_cases hid : id ∈ ids
  · cases hget : q.get? id with
    | none => simp
    | some frame => simp [hid, contains, Record.contains_eq_true.2 ⟨frame, hget⟩, Option.filter]
  · cases q.get? id <;> simp [hid, Option.filter]

theorem Sound.after (hq : q.Sound) (operation : Operation) : (q.after operation).Sound := by
  cases operation with
  | add id key value => exact hq.add id key value
  | ensure id => exact hq.ensure id
  | pop =>
    rw [FrameQueue.after]
    cases h : q.pop? with
    | none => exact hq
    | some popped => exact hq.pop h
  | defer id frame => exact hq.defer id frame
  | remove id => exact hq.remove id
  | restrict ids => exact hq.restrict ids

theorem Sound.afterAll (hq : q.Sound) (operations : List Operation) :
    (q.afterAll operations).Sound := by
  induction operations generalizing q with
  | nil => exact hq
  | cons operation rest ih => exact ih (hq.after operation)

/-- **An operation on a sound queue is the operation on its line.** -/
theorem Sound.toList_after (hq : q.Sound) (operation : Operation) :
    (q.after operation).toList = operation.onLine q.toList := by
  cases operation with
  | add id key value => exact hq.toList_alter ..
  | ensure id => exact hq.toList_alter ..
  | pop =>
    rw [FrameQueue.after, Operation.onLine]
    cases h : q.pop? with
    | none => simp [toList, pop?_eq_none hq h]
    | some popped => simp [hq.toList_pop h]
  | defer id frame =>
    rw [FrameQueue.after, defer_eq_alter]
    exact hq.toList_alter ..
  | remove id => exact hq.toList_remove id
  | restrict ids => exact q.toList_restrict ids

/-- So is a sequence of operations. -/
theorem Sound.toList_afterAll (hq : q.Sound) (operations : List Operation) :
    (q.afterAll operations).toList = operations.foldl Operation.onLine q.toList := by
  induction operations generalizing q with
  | nil => rfl
  | cons operation rest ih =>
    rw [List.foldl_cons, ← hq.toList_after]
    exact ih (hq.after operation)

/-! ### Reading a queue -/

/-- All that can be asked of a queue is read off the line. -/
structure Shows (q : FrameQueue) (l : Line) : Prop where
  toList : q.toList = l
  order : q.order = l.names
  nodup : l.names.Nodup
  get? : ∀ id, q.get? id = Entries.lookup id l
  contains : ∀ id, q.contains id = true ↔ id ∈ l.names
  pending : q.pending = l.names
  size : q.size = l.length
  isEmpty : q.isEmpty = l.isEmpty
  /-- The first of the line is taken, if there is one. -/
  pop? : q.pop?.map (·.1) = l.head?

theorem Sound.shows (hq : q.Sound) : q.Shows q.toList := by
  have horder : q.order = Line.names q.toList := hq.map_toList.symm
  have hcontains : ∀ id, q.contains id = true ↔ id ∈ Line.names q.toList := fun id =>
    hq.mem_names.symm
  -- The frames are listed under distinct names, and these are the names of the line.
  have hsize : q.frames.size = q.toList.length := by
    have hperm : q.frames.names.Perm (Line.names q.toList) := by
      refine (List.perm_ext_iff_of_nodup ?_ ?_).2 fun id => ?_
      · exact q.frames.ordered.nodup
      · exact horder ▸ hq.nodup
      · rw [Record.mem_names, ← hcontains]
        rfl
    simpa [Record.names, Record.size, Line.names] using hperm.length_eq
  refine ⟨rfl, horder, horder ▸ hq.nodup, fun id => (hq.lookup_toList id).symm, hcontains, ?_,
    hsize, ?_, ?_⟩
  · rw [hq.pending_eq, horder]
  · rw [FrameQueue.isEmpty, Record.isEmpty, Bool.eq_iff_iff, List.isEmpty_iff, List.isEmpty_iff,
      ← List.length_eq_zero_iff, ← List.length_eq_zero_iff, ← hsize]
    rfl
  · cases h : q.pop? with
    | none => simp [hq.toList_of_pop?_eq_none h]
    | some popped => simp [hq.toList_pop h]

/-- **The queue of frames is a line.** After any sequence of operations on the empty queue, order
and frames list the same nodes, each once, and the queue shows the line on which the same operations
were made; so does whatever is done next, and nodes that it is not about keep their places and their
frames. A node that is taken and put back goes to the end. -/
theorem afterAll_shows (operations : List Operation) :
    let q := empty.afterAll operations
    q.Shows (operations.foldl Operation.onLine []) ∧
      (∀ operation : Operation, (q.after operation).Shows (operation.onLine q.toList) ∧
        (q.after operation).toList.filter (fun e => !operation.touches q.toList e.1) =
          q.toList.filter fun e => !operation.touches q.toList e.1) ∧
      ∀ id frame rest, q.pop? = some ((id, frame), rest) →
        ∀ frame', (rest.defer id frame').toList = rest.toList ++ [(id, frame')] := by
  intro q
  have hq : q.Sound := Sound.empty.afterAll operations
  refine ⟨?_, fun operation => ⟨?_, ?_⟩, fun id frame rest hpop frame' => ?_⟩
  · have hshows := hq.shows
    rwa [show q.toList = _ from Sound.empty.toList_afterAll operations] at hshows
  · rw [← hq.toList_after]
    exact (hq.after operation).shows
  · rw [hq.toList_after]
    exact operation.filter_onLine q.toList
  · have hrest := hq.pop hpop
    have hgone : id ∉ Line.names rest.toList := by
      rw [hrest.mem_names, (pop?_eq_some hq hpop).2.2]
      simp
    rw [defer_eq_alter, hrest.toList_alter]
    exact Line.alter_of_not_mem hgone _

end FrameQueue

end Dataflow
