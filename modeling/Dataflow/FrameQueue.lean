/-
Frames and their queue.

A frame gathers the values delivered to a node that has not fired yet. The
queue holds at most one frame a node: a delivery to a waiting node goes into its
frame and leaves its place in line alone, and a new frame joins at the end.
-/
import Dataflow.Json.Basic
namespace Dataflow

/-- The values gathered for a node, by key. -/
abbrev Frame := Record Json

/-- The waiting frames: the line of node ids, and the frame of each. -/
structure FrameQueue where
  order : List String
  frames : Record Frame
  deriving DecidableEq

namespace FrameQueue

/-- The queue without frames. -/
def empty : FrameQueue := ⟨[], .empty⟩

/-- The frame of a node. -/
def get? (q : FrameQueue) (id : String) : Option Frame := q.frames.get? id

/-- Whether a node has a frame. -/
def contains (q : FrameQueue) (id : String) : Bool := q.frames.contains id

/-- Give a node the frame that `change` makes of its old one, or of an empty frame at the end
of the line. -/
def alter (q : FrameQueue) (id : String) (change : Frame → Frame) : FrameQueue :=
  match q.get? id with
  | some frame => ⟨q.order, q.frames.insert id (change frame)⟩
  | none => ⟨q.order ++ [id], q.frames.insert id (change .empty)⟩

/-- Deliver a value to a key of a node. -/
def add (q : FrameQueue) (id key : String) (value : Json) : FrameQueue :=
  q.alter id fun frame => frame.insert key value

/-- See to it that a node has a frame. -/
def ensure (q : FrameQueue) (id : String) : FrameQueue := q.alter id fun frame => frame

/-- The first node of the line that has a frame, and the line behind it. -/
def firstWaiting (frames : Record Frame) :
    List String → Option ((String × Frame) × List String)
  | [] => none
  | id :: rest =>
    match frames.get? id with
    | some frame => some ((id, frame), rest)
    | none => firstWaiting frames rest

/-- Take the first frame. -/
def pop? (q : FrameQueue) : Option ((String × Frame) × FrameQueue) :=
  match firstWaiting q.frames q.order with
  | none => none
  | some (head, rest) => some (head, ⟨rest, q.frames.erase head.1⟩)

/-- Put a frame back: in its place when the node is waiting, else at the end. -/
def defer (q : FrameQueue) (id : String) (frame : Frame) : FrameQueue :=
  if q.contains id then ⟨q.order, q.frames.insert id frame⟩
  else ⟨q.order ++ [id], q.frames.insert id frame⟩

/-- Drop the frame of a node. -/
def remove (q : FrameQueue) (id : String) : FrameQueue :=
  if q.contains id then ⟨q.order.filter fun other => other ≠ id, q.frames.erase id⟩ else q

/-- The frames of the given nodes, in line as before. -/
def restrict (q : FrameQueue) (ids : List String) : FrameQueue :=
  ⟨q.order.filter fun id => ids.contains id && q.contains id, q.frames.filter ids.contains⟩

/-- The waiting nodes in line. -/
def pending (q : FrameQueue) : List String := q.order.filter q.contains

/-- The waiting nodes in line with their frames. -/
def toList (q : FrameQueue) : List (String × Frame) :=
  q.order.filterMap fun id => (q.get? id).map fun frame => (id, frame)

/-- The number of waiting nodes. -/
def size (q : FrameQueue) : Nat := q.frames.size

/-- Whether no node waits. -/
def isEmpty (q : FrameQueue) : Bool := q.frames.isEmpty

end FrameQueue

end Dataflow
