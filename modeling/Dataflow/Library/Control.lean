/-
Values and branches.

`ctrl.if` picks one of two values. `ctrl.split` sends its data down one of two
branches and stops the other.
-/
import Dataflow.Library.Arguments
namespace Dataflow

namespace Library

/-- A number as computed. -/
def valueNum : NativeFunction where
  name := "value.num"
  signature := .plain [⟨"value", .num⟩] [⟨"out", .num⟩]
  runner := plainRunner fun args => do
    let x ← number args "value"
    return single "out" (computed x)

/-- One of two values. -/
def ctrlIf : NativeFunction where
  name := "ctrl.if"
  signature := .plain
    [⟨"condition", .bool⟩, ⟨"true", .auto "T"⟩, ⟨"false", .auto "F"⟩]
    [⟨"data", .oneOf (.auto "T") (.auto "F")⟩]
  runner := plainRunner fun args => do
    let condition ← argument args "condition"
    let data ← argument args (if truthy condition then "true" else "false")
    return single "data" data

/-- The branch that is taken and the one that is stopped. -/
def branches (condition : Json) : String × String :=
  if truthy condition then ("true", "false") else ("false", "true")

/-- One of two branches. -/
def ctrlSplit : NativeFunction where
  name := "ctrl.split"
  signature := .plain
    [⟨"condition", ValueType.bool.named "C"⟩, ⟨"data", .auto "D"⟩]
    [⟨"true", (ValueType.oneOf (.auto "D") .stop).named "C"⟩,
      ⟨"false", (ValueType.oneOf .stop (.auto "D")).named "C"⟩]
  runner := fun args _ => do
    let data ← Script.ofExcept (argument args "data")
    let condition ← Script.ofExcept (argument args "condition")
    let (taken, stopped) := branches condition
    .remark .trace s!"ctrl.split taking '{taken}'"
      (.done ((Record.empty.insert taken (.value data)).insert stopped .stop))

/-- The value and branch functions. -/
def control : List NativeFunction := [valueNum, ctrlIf, ctrlSplit]

end Library

end Dataflow
