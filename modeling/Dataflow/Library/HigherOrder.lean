/-
Array functions with a callback.

Each calls its callback `cb` for the output `callback`, item after item, and stops at the first
failure.
-/
import Dataflow.Library.Arguments
import Dataflow.Library.MergeSort
namespace Dataflow

namespace Library

/-- Call the callback. -/
def consult (args : List (String × Json)) : Script Json :=
  Script.askFor "cb" (.ofList args) "callback"

/-- Call the callback on an item. -/
def consultItem (item : Json) : Script Json := consult [("item", item)]

/-- The answers for all items. -/
def mapItems : List Json → Script (List Json)
  | [] => return []
  | item :: rest => do
    let answer ← consultItem item
    let answers ← mapItems rest
    return answer :: answers

/-- The items with a true answer. -/
def filterItems : List Json → Script (List Json)
  | [] => return []
  | item :: rest => do
    let answer ← consultItem item
    let kept ← filterItems rest
    return if truthy answer then item :: kept else kept

/-- The first item with a true answer, with its offset from `start`. -/
def findItem (start : Nat) : List Json → Script (Option (Nat × Json))
  | [] => return none
  | item :: rest => do
    let answer ← consultItem item
    if truthy answer then return some (start, item) else findItem (start + 1) rest

/-- The items folded from the left. -/
def foldItems (acc : Json) : List Json → Script Json
  | [] => return acc
  | item :: rest => do
    let acc ← consult [("prev", acc), ("item", item)]
    foldItems acc rest

/-- Whether the callback puts the first item behind the second. -/
def isGreater (a b : Json) : Script Bool := do
  match ← consult [("itemA", a), ("itemB", b)] with
  | .number n => return 0.0 < n.toFloat
  | _ => .fail (.invalidArgument "callback" "num")

/-- A function of an array and a callback. -/
def withCallback (name : String) (output : Param) (input : List Param) (answer : ValueType)
    (f : List Json → Script Json) : NativeFunction where
  name := name
  signature := {
    input := [⟨"arr", itemArray⟩]
    output := [output]
    callbacks := Record.empty.insert "cb" ⟨input, [⟨"callback", answer⟩]⟩ }
  runner := fun args _ => do
    let items ← Script.ofExcept (array args "arr")
    let value ← f items
    return single output.name value

/-- The parameter of a callback on items. -/
def itemParam : List Param := [⟨"item", .auto "I"⟩]

/-- The array functions with a callback. -/
def higherOrder : List NativeFunction := [
  withCallback "array.map" ⟨"arr", .arrayOf (.auto "O")⟩ itemParam (.auto "O") fun items => do
    let answers ← mapItems items
    return .array answers,
  withCallback "array.filter" ⟨"arr", itemArray⟩ itemParam .bool fun items => do
    let kept ← filterItems items
    return .array kept,
  withCallback "array.find" ⟨"result", .oneOf (.auto "I") .nil⟩ itemParam .bool fun items => do
    let found ← findItem 0 items
    return match found with
      | some (_, item) => item
      | none => .null,
  withCallback "array.findIndex" ⟨"index", .oneOf .num .nil⟩ itemParam .bool fun items => do
    let found ← findItem 0 items
    return match found with
      | some (index, _) => .ofNat index
      | none => .null,
  withCallback "array.reduce" ⟨"out", .auto "I"⟩ [⟨"prev", .auto "I"⟩, ⟨"item", .auto "I"⟩]
    (.auto "O") fun items =>
      match items with
      | [] => .fail (.executionFailed "reduce of an empty array")
      | first :: rest => foldItems first rest,
  withCallback "array.sort" ⟨"arr", itemArray⟩ [⟨"itemA", .auto "I"⟩, ⟨"itemB", .auto "I"⟩] .num
    fun items => do
      let sorted ← mergeSort isGreater items
      return .array sorted]

end Library

end Dataflow
