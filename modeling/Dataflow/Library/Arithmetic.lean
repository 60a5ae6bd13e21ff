/-
Arithmetic on doubles.
-/
import Dataflow.Library.Arguments
namespace Dataflow

namespace Library

/-- A function of two numbers. -/
def binary (name : String) (op : Float → Float → Float) : NativeFunction where
  name := name
  signature := .plain [⟨"a", .num⟩, ⟨"b", .num⟩] [⟨"result", .num⟩]
  runner := plainRunner fun args => do
    let a ← number args "a"
    let b ← number args "b"
    return single "result" (computed (op a b))

/-- A function of one number. -/
def unary (name output : String) (op : Float → Float) : NativeFunction where
  name := name
  signature := .plain [⟨"a", .num⟩] [⟨output, .num⟩]
  runner := plainRunner fun args => do
    let a ← number args "a"
    return single output (computed (op a))

/-- The larger of two numbers. -/
def larger (a b : Float) : Float := if a < b then b else a

/-- The smaller of two numbers. -/
def smaller (a b : Float) : Float := if b < a then b else a

/-- The number rounded toward zero. -/
def towardZero (x : Float) : Float := if x < 0.0 then x.ceil else x.floor

/-- The nearest integer; a half goes up. -/
def roundHalfUp (x : Float) : Float :=
  if (x - towardZero x).abs == 0.5 then x.ceil else x.round

/-- A number from zero up to one. -/
def random : NativeFunction where
  name := "math.random"
  signature := .plain [] [⟨"result", .num⟩]
  runner := fun _ _ => .random fun x => .done (single "result" (computed x))

/-- The arithmetic functions. -/
def arithmetic : List NativeFunction := [
  binary "math.add" (· + ·),
  binary "math.multiply" (· * ·),
  binary "math.subtract" (· - ·),
  binary "math.divide" (· / ·),
  binary "math.power" Float.pow,
  binary "math.log" fun a b => b.log / a.log,
  binary "math.max" larger,
  binary "math.min" smaller,
  unary "math.lg" "result" Float.log10,
  unary "math.log2" "result" Float.log2,
  unary "math.ln" "result" Float.log,
  unary "math.exp" "result" Float.exp,
  unary "math.floor" "out" Float.floor,
  unary "math.ceil" "out" Float.ceil,
  unary "math.round" "out" roundHalfUp,
  random]

end Library

end Dataflow
