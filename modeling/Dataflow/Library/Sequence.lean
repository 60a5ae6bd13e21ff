/-
Positions and pieces of arrays.

A position is rounded toward zero. `clamp` forces it between zero and the
length, so every piece exists.
-/
import Dataflow.Library.Arguments
namespace Dataflow

namespace Library

/-- An item or nil. -/
def itemOrNil : ValueType := .oneOf (.auto "I") .nil

/-- A position as an offset from the start that is at most `length`. -/
def clamp (position : Float) (length : Nat) : Nat :=
  if position.isNaN || position ≤ 0.0 then 0
  else Nat.min (Integral.truncate position).toNat length

/-- The item at an offset from the start; offsets that are negative or no integer have none. -/
def itemAt (items : List Json) (index : Float) : Json :=
  let item := if 0.0 ≤ index && Integral.isIntegral index then
      items[(Integral.truncate index).toNat]?
    else none
  item.getD .null

/-- The item at an offset from the start or, when it is negative, from the end. -/
def itemNear (items : List Json) (index : Float) : Json :=
  let offset := Integral.truncate index
  let resolved := if offset < 0 then items.length + offset else offset
  let item := if 0 ≤ resolved then items[resolved.toNat]? else none
  item.getD .null

/-- The items from one position up to another. -/
def slice (items : List Json) (start stop : Float) : List Json :=
  let start := clamp start items.length
  let stop := clamp stop items.length
  if start < stop then (items.take stop).drop start else []

/-- The first items. -/
def sliceStart (items : List Json) (length : Float) : List Json :=
  items.take (clamp length items.length)

/-- The last items. -/
def sliceEnd (items : List Json) (length : Float) : List Json :=
  items.drop (items.length - clamp length items.length)

/-- A function of an array and a number. -/
def indexed (name key : String) (output : Param) (f : List Json → Float → Json) :
    NativeFunction where
  name := name
  signature := .plain [⟨"arr", itemArray⟩, ⟨key, .num⟩] [output]
  runner := plainRunner fun args => do
    let items ← array args "arr"
    let x ← number args key
    return single output.name (f items x)

/-- The items from one position up to another. -/
def arraySlice : NativeFunction where
  name := "array.slice"
  signature := .plain [⟨"arr", itemArray⟩, ⟨"from", .num⟩, ⟨"to", .num⟩] [⟨"subArray", itemArray⟩]
  runner := plainRunner fun args => do
    let items ← array args "arr"
    let start ← number args "from"
    let stop ← number args "to"
    return single "subArray" (.array (slice items start stop))

/-- The items in opposite order. -/
def arrayReverse : NativeFunction where
  name := "array.reverse"
  signature := .plain [⟨"arr", itemArray⟩] [⟨"arr", itemArray⟩]
  runner := plainRunner fun args => do
    let items ← array args "arr"
    return single "arr" (.array items.reverse)

/-- The functions on positions and pieces. -/
def sequences : List NativeFunction := [
  indexed "array.at" "index" ⟨"item", itemOrNil⟩ itemAt,
  indexed "array.at2" "index" ⟨"item", itemOrNil⟩ itemNear,
  arraySlice,
  indexed "array.sliceStart" "len" ⟨"subArray", itemArray⟩
    fun items n => .array (sliceStart items n),
  indexed "array.sliceEnd" "len" ⟨"subArray", itemArray⟩
    fun items n => .array (sliceEnd items n),
  arrayReverse]

end Library

end Dataflow
