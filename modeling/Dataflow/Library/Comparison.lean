/-
Comparisons of doubles.
-/
import Dataflow.Library.Arguments
namespace Dataflow

namespace Library

/-- A comparison of two numbers. -/
def comparison (name : String) (op : Float → Float → Bool) : NativeFunction where
  name := name
  signature := .plain [⟨"a", .num⟩, ⟨"b", .num⟩] [⟨"out", .bool⟩]
  runner := plainRunner fun args => do
    let a ← number args "a"
    let b ← number args "b"
    return single "out" (.bool (op a b))

/-- The comparisons. -/
def comparisons : List NativeFunction := [
  comparison "math.eq" fun a b => a == b,
  comparison "math.neq" fun a b => a != b,
  comparison "math.less" fun a b => a < b,
  comparison "math.greater" fun a b => b < a,
  comparison "math.lessEq" fun a b => a ≤ b,
  comparison "math.greaterEq" fun a b => b ≤ a]

end Library

end Dataflow
