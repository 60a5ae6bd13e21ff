/-
The queue of frames as a map with a line.

In a sound queue the line lists every node that has a frame, once. Every operation keeps a queue
sound, so the first frame is the frame of the first node in line, and nothing in the line is
skipped.

* `FrameQueue.Sound` — line and frames tell the same;
* `FrameQueue.get?_add`, `get?_defer`, `get?_remove`, `get?_restrict` — the frames after a change;
* `FrameQueue.pop?_eq_some`, `pop?_eq_none` — what is taken from the queue;
* `FrameQueue.Sound.ext` — sound queues that list the same frames are equal.
-/
import Mathlib
import Dataflow.FrameQueue
import Dataflow.Proofs.Record
namespace Dataflow

namespace FrameQueue

variable {q q' : FrameQueue} {id other key : String} {frame : Frame} {value : Json}

/-- Each node with a frame stands in line once. -/
structure Sound (q : FrameQueue) : Prop where
  nodup : q.order.Nodup
  mem_order : ∀ id, id ∈ q.order ↔ ∃ frame, q.get? id = some frame

/-! ### Frames after a change -/

@[simp]
theorem get?_empty (id : String) : empty.get? id = none := rfl

theorem get?_alter (q : FrameQueue) (id other : String) (change : Frame → Frame) :
    (q.alter id change).get? other =
      if other = id then some (change ((q.get? id).getD .empty)) else q.get? other := by
  rw [alter]
  cases h : q.get? id with
  | some frame => exact Record.get?_insert ..
  | none => exact Record.get?_insert ..

theorem get?_add (q : FrameQueue) (id key : String) (value : Json) (other : String) :
    (q.add id key value).get? other =
      if other = id then some (((q.get? id).getD .empty).insert key value) else q.get? other :=
  get?_alter ..

theorem get?_ensure (q : FrameQueue) (id other : String) :
    (q.ensure id).get? other =
      if other = id then some ((q.get? id).getD .empty) else q.get? other :=
  get?_alter ..

theorem get?_defer (q : FrameQueue) (id other : String) (frame : Frame) :
    (q.defer id frame).get? other = if other = id then some frame else q.get? other := by
  rw [defer]
  split <;> exact Record.get?_insert ..

theorem get?_remove (q : FrameQueue) (id other : String) :
    (q.remove id).get? other = if other = id then none else q.get? other := by
  rw [remove]
  split
  · exact Record.get?_erase ..
  · rename_i h
    by_cases hid : other = id
    · rw [if_pos hid, hid]
      exact Record.contains_eq_false.1 (by simpa [contains] using h)
    · rw [if_neg hid]

theorem get?_foldl_remove (ids : List String) (q : FrameQueue) (other : String) :
    (ids.foldl remove q).get? other = if other ∈ ids then none else q.get? other := by
  induction ids generalizing q with
  | nil => simp
  | cons id rest ih =>
    rw [List.foldl_cons, ih, get?_remove]
    by_cases h : other = id <;> simp [h]

theorem get?_restrict (q : FrameQueue) (ids : List String) (other : String) :
    (q.restrict ids).get? other = if other ∈ ids then q.get? other else none := by
  rw [get?, restrict, Record.get?_filter]
  simp only [List.contains_iff_mem]
  rfl

/-! ### Taking the first frame -/

/-- The first node of a line whose nodes all have frames is its head. -/
theorem firstWaiting_cons {frames : Record Frame} {rest : List String}
    (h : frames.get? id = some frame) :
    firstWaiting frames (id :: rest) = some ((id, frame), rest) := by
  rw [firstWaiting, h]

private theorem firstWaiting_eq_some {frames : Record Frame} {order rest : List String}
    (h : firstWaiting frames order = some ((id, frame), rest)) : frames.get? id = some frame := by
  induction order with
  | nil => cases h
  | cons first order ih =>
    cases hfirst : frames.get? first with
    | none =>
      rw [firstWaiting, hfirst] at h
      exact ih h
    | some held =>
      rw [firstWaiting_cons hfirst] at h
      cases h
      exact hfirst

/-- What is taken from a queue is the frame of a node, and the others stay. -/
theorem get?_of_pop? (h : q.pop? = some ((id, frame), q')) :
    q.get? id = some frame ∧
      ∀ other, q'.get? other = if other = id then none else q.get? other := by
  rw [pop?] at h
  split at h
  · cases h
  · rename_i head rest hfirst
    cases h
    exact ⟨firstWaiting_eq_some hfirst, fun other => Record.get?_erase ..⟩

/-- What is taken from a sound queue is the head of the line, with its frame. -/
theorem pop?_eq_some (hq : q.Sound) (h : q.pop? = some ((id, frame), q')) :
    q.order = id :: q'.order ∧ q.get? id = some frame ∧
      ∀ other, q'.get? other = if other = id then none else q.get? other := by
  cases horder : q.order with
  | nil =>
    rw [pop?, horder] at h
    cases h
  | cons first rest =>
    obtain ⟨held, hheld⟩ := (hq.mem_order first).1 (horder ▸ List.mem_cons_self ..)
    have hpop : q.pop? = some ((first, held), ⟨rest, q.frames.erase first⟩) := by
      rw [pop?, horder, firstWaiting_cons hheld]
    rw [hpop] at h
    cases h
    exact ⟨rfl, hheld, fun other => Record.get?_erase ..⟩

/-- Nothing is taken from a sound queue only when no node has a frame. -/
theorem pop?_eq_none (hq : q.Sound) (h : q.pop? = none) : q.order = [] := by
  cases horder : q.order with
  | nil => rfl
  | cons first rest =>
    obtain ⟨held, hheld⟩ := (hq.mem_order first).1 (horder ▸ List.mem_cons_self ..)
    rw [pop?, horder, firstWaiting_cons hheld] at h
    cases h

/-! ### Soundness is kept -/

theorem Sound.empty : FrameQueue.empty.Sound :=
  ⟨List.nodup_nil, fun id => by simp [FrameQueue.empty, FrameQueue.get?, Record.get?_empty]⟩

theorem Sound.not_mem (hq : q.Sound) (h : q.get? id = none) : id ∉ q.order := by
  intro hmem
  obtain ⟨frame, hframe⟩ := (hq.mem_order id).1 hmem
  rw [h] at hframe
  cases hframe

/-- A node put in line at the end, when it was not there. -/
theorem nodup_concat {ids : List String} (hd : ids.Nodup) (h : id ∉ ids) :
    (ids ++ [id]).Nodup :=
  List.nodup_append.2 ⟨hd, by simp, fun a ha b hb e => h (by
    rw [List.mem_singleton.1 hb] at e
    exact e ▸ ha)⟩

theorem order_alter (q : FrameQueue) (id : String) (change : Frame → Frame) :
    (q.alter id change).order = if (q.get? id).isSome then q.order else q.order ++ [id] := by
  rw [alter]
  cases q.get? id <;> rfl

theorem Sound.alter (hq : q.Sound) (id : String) (change : Frame → Frame) :
    (q.alter id change).Sound := by
  refine ⟨?_, fun other => ?_⟩
  · rw [order_alter]
    cases h : q.get? id with
    | some frame => exact hq.nodup
    | none => exact nodup_concat hq.nodup (hq.not_mem h)
  · rw [order_alter, get?_alter]
    by_cases hother : other = id
    · subst hother
      cases h : q.get? other with
      | some frame => simp [hq.mem_order, h]
      | none => simp
    · cases h : q.get? id with
      | some frame => simp [hq.mem_order, hother]
      | none => simp [hq.mem_order, hother]

theorem Sound.add (hq : q.Sound) (id key : String) (value : Json) : (q.add id key value).Sound :=
  hq.alter ..

theorem Sound.ensure (hq : q.Sound) (id : String) : (q.ensure id).Sound := hq.alter ..

theorem Sound.pop (hq : q.Sound) (h : q.pop? = some ((id, frame), q')) : q'.Sound := by
  obtain ⟨horder, hframe, hget⟩ := pop?_eq_some hq h
  have hd := hq.nodup
  rw [horder, List.nodup_cons] at hd
  refine ⟨hd.2, fun other => ?_⟩
  have hmem := hq.mem_order other
  rw [horder, List.mem_cons] at hmem
  rw [hget]
  by_cases hother : other = id
  · subst hother
    simpa using hd.1
  · simpa [hother] using hmem

/-- A frame that is put back when its node has none goes to the end of the line. -/
theorem order_defer (h : q.get? id = none) (frame : Frame) :
    (q.defer id frame).order = q.order ++ [id] := by
  rw [defer, if_neg]
  rw [contains, Record.contains_eq_false.2 h]
  exact Bool.false_ne_true

/-- A frame that is taken and put back is still there, -/
theorem get?_popped_deferred (hq : q.Sound) (hpop : q.pop? = some ((id, frame), q'))
    (other : String) : (q'.defer id frame).get? other = q.get? other := by
  obtain ⟨-, hframe, hrest⟩ := pop?_eq_some hq hpop
  rw [get?_defer, hrest]
  by_cases hother : other = id
  · rw [if_pos hother, hother, hframe]
  · rw [if_neg hother, if_neg hother]

/-- at the end of the line. -/
theorem order_popped_deferred (hq : q.Sound) (hpop : q.pop? = some ((id, frame), q')) :
    (q'.defer id frame).order = q'.order ++ [id] := by
  obtain ⟨-, -, hrest⟩ := pop?_eq_some hq hpop
  exact order_defer (by rw [hrest, if_pos rfl]) frame

theorem Sound.defer (hq : q.Sound) (id : String) (frame : Frame) : (q.defer id frame).Sound := by
  cases h : q.get? id with
  | none =>
    refine ⟨?_, fun other => ?_⟩
    · rw [order_defer h]
      exact nodup_concat hq.nodup (hq.not_mem h)
    · rw [order_defer h, get?_defer]
      by_cases hother : other = id <;> simp [hq.mem_order, hother]
  | some held =>
    have hcontains : q.contains id = true := Record.contains_eq_true.2 ⟨held, h⟩
    have horder : (q.defer id frame).order = q.order := by rw [FrameQueue.defer, if_pos hcontains]
    refine ⟨horder ▸ hq.nodup, fun other => ?_⟩
    rw [horder, hq.mem_order, get?_defer]
    by_cases hother : other = id
    · simp [hother, h]
    · simp [hother]

theorem Sound.remove (hq : q.Sound) (id : String) : (q.remove id).Sound := by
  by_cases hcontains : q.contains id = true
  · have horder : (q.remove id).order = q.order.filter fun other => other ≠ id := by
      rw [FrameQueue.remove, if_pos hcontains]
    refine ⟨horder ▸ hq.nodup.filter _, fun other => ?_⟩
    rw [horder, List.mem_filter, hq.mem_order, get?_remove]
    by_cases hother : other = id <;> simp [hother]
  · rw [FrameQueue.remove, if_neg hcontains]
    exact hq

theorem Sound.foldl_remove (hq : q.Sound) (ids : List String) :
    (ids.foldl FrameQueue.remove q).Sound := by
  induction ids generalizing q with
  | nil => exact hq
  | cons id rest ih => exact ih (hq.remove id)

theorem Sound.restrict (hq : q.Sound) (ids : List String) : (q.restrict ids).Sound := by
  refine ⟨hq.nodup.filter _, fun other => ?_⟩
  rw [get?_restrict, FrameQueue.restrict, List.mem_filter, hq.mem_order]
  by_cases hother : other ∈ ids
  · simp only [hother, List.contains_iff_mem, Bool.and_eq_true, true_and, if_true]
    exact ⟨fun h => h.1, fun h => ⟨h, Record.contains_eq_true.2 h⟩⟩
  · simp [hother]

/-! ### The listed frames -/

/-- The nodes that are listed with their frames are the line. -/
theorem Sound.map_toList (hq : q.Sound) : q.toList.map (·.1) = q.order := by
  have hall : ∀ id ∈ q.order, ∃ frame, q.get? id = some frame := fun id => (hq.mem_order id).1
  rw [toList]
  generalize q.order = ids at hall
  induction ids with
  | nil => rfl
  | cons id rest ih =>
    obtain ⟨frame, hframe⟩ := hall id (List.mem_cons_self ..)
    rw [List.filterMap_cons, hframe]
    simp only [Option.map_some, List.map_cons]
    rw [ih fun other hother => hall other (List.mem_cons_of_mem _ hother)]

theorem Sound.mem_toList (hq : q.Sound) : (id, frame) ∈ q.toList ↔ q.get? id = some frame := by
  rw [toList, List.mem_filterMap]
  constructor
  · rintro ⟨other, -, h⟩
    obtain ⟨held, hheld, heq⟩ := Option.map_eq_some_iff.1 h
    cases heq
    exact hheld
  · intro h
    exact ⟨id, (hq.mem_order id).2 ⟨frame, h⟩, by rw [h]; rfl⟩

theorem Sound.pending_eq (hq : q.Sound) : q.pending = q.order := by
  refine List.filter_eq_self.2 fun id hid => ?_
  obtain ⟨frame, hframe⟩ := (hq.mem_order id).1 hid
  exact Record.contains_eq_true.2 ⟨frame, hframe⟩

/-- With the frame that is popped, those behind it are the whole queue. -/
theorem Sound.pending_popped (hq : q.Sound) (h : q.pop? = some ((id, frame), q')) :
    id :: q'.pending = q.toList.map (·.1) := by
  rw [(hq.pop h).pending_eq, hq.map_toList, (pop?_eq_some hq h).1]

theorem Sound.toList_of_pop?_eq_none (hq : q.Sound) (h : q.pop? = none) : q.toList = [] := by
  rw [toList, pop?_eq_none hq h]
  rfl

/-- Sound queues that list the same frames are equal. -/
theorem Sound.ext (hq : q.Sound) (hq' : q'.Sound) (h : q.toList = q'.toList) : q = q' := by
  have horder : q.order = q'.order := by rw [← hq.map_toList, h, hq'.map_toList]
  have hframes : q.frames = q'.frames := by
    refine Record.ext_get? fun id => Option.ext fun frame => ?_
    have := @Sound.mem_toList q id frame hq
    rw [h, hq'.mem_toList] at this
    exact this.symm
  cases q
  cases q'
  cases horder
  cases hframes
  rfl

end FrameQueue

end Dataflow
