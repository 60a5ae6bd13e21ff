/-
The whole part of a double.

Everything is read off the bit pattern, with exact integer arithmetic.
-/
import Dataflow.Decimal.Shortest
namespace Dataflow

namespace Dyadic

/-- The size without its fractional part. -/
def whole (d : Dyadic) : Nat :=
  d.mantissa * Nat.pow 2 d.exponent.toNat / Nat.pow 2 (-d.exponent).toNat

/-- Whether the size has no fractional part. -/
def isWhole (d : Dyadic) : Bool :=
  d.mantissa * Nat.pow 2 d.exponent.toNat % Nat.pow 2 (-d.exponent).toNat = 0

end Dyadic

namespace Integral

/-- The whole part of a finite double, rounded toward zero. -/
def truncate (x : Float) : Int :=
  let size : Int := (Dyadic.ofBits x.toBits).whole
  if x < 0.0 then -size else size

/-- Whether a finite double has no fractional part. -/
def isIntegral (x : Float) : Bool := x.isFinite && (Dyadic.ofBits x.toBits).isWhole

/-- The integer that a double is, when it is one and lies strictly between `-2 ^ 53` and
`2 ^ 53`. -/
def integer? (x : Float) : Option Int :=
  let n := truncate x
  if isIntegral x ∧ n.natAbs < Nat.pow 2 53 then some n else none

end Integral

end Dataflow
