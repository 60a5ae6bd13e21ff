/-
The numbers of JSON.

A number is an integer or a double, and the two never mix: `1` and `1.0` are
different numbers with different texts. An integer is written with its digits.
A double is written with the fewest digits that read back, positionally from
`1e-5` up to `1e16` and with an exponent elsewhere, and always shows a point or
an exponent.

A literal without point and exponent that fits 64 bits is an integer, every other literal
a double. The double is computed in two rounded steps: the first digits, as many
as fit 64 bits, become a double, which is then scaled by a power of ten.
-/
import Dataflow.Decimal.Shortest
namespace Dataflow

/-- A double that is neither infinite nor undefined. -/
structure Double where
  toFloat : Float
  finite : toFloat.isFinite = true
  deriving DecidableEq

/-- A number of JSON. -/
inductive Number where
  | integer (n : Int)
  | double (x : Double)
  deriving DecidableEq

namespace Double

/-- A finite value as a double. -/
def ofFloat? (x : Float) : Option Double :=
  if h : x.isFinite = true then some ⟨x, h⟩ else none

/-- Whether the sign bit is set. -/
def negative (x : Double) : Bool := Nat.pow 2 63 ≤ x.toFloat.toBits.toNat

/-! ### Text -/

/-- How the digits of a double are laid out. -/
structure Layout where
  /-- The least exponent written positionally. -/
  least : Int
  /-- The first exponent that is too large to be written positionally. -/
  bound : Int

/-- Positional from `1e-5` up to `1e16`. -/
def layout : Layout := ⟨-5, 16⟩

/-- Digits with a point after the first `whole` of them. -/
def pointed (digits : List Char) (whole : Nat) : List Char :=
  digits.take whole ++ '.' :: digits.drop whole

/-- A decimal that is not zero, without its sign. -/
def layOut (format : Layout) (d : Decimal) : List Char :=
  let digits := Nat.toDigits 10 d.digits
  let exponent := d.exponent + digits.length - 1
  if format.least ≤ exponent ∧ exponent < format.bound then
    if exponent < 0 then
      '0' :: '.' :: (List.replicate (-exponent - 1).toNat '0' ++ digits)
    else if 0 ≤ d.exponent then
      digits ++ (List.replicate d.exponent.toNat '0' ++ ['.', '0'])
    else pointed digits (exponent.toNat + 1)
  else
    let lead := if digits.length = 1 then digits else pointed digits 1
    lead ++ 'e' :: (if exponent < 0 then '-' else '+') :: Nat.toDigits 10 exponent.natAbs

/-- The text of a double. -/
def text (x : Double) : List Char :=
  let d := Dyadic.ofBits x.toFloat.toBits
  let size := if d.mantissa = 0 then ['0', '.', '0'] else layOut layout d.shortest
  if x.negative then '-' :: size else size

end Double

namespace Number

/-- The text of a number. -/
def text : Number → List Char
  | .integer (.ofNat n) => Nat.toDigits 10 n
  | .integer (.negSucc n) => '-' :: Nat.toDigits 10 (n + 1)
  | .double x => x.text

/-- The number as a double. -/
def toFloat : Number → Float
  | .integer n => Float.ofInt n
  | .double x => x.toFloat

/-! ### Literals -/

/-- A number literal, taken apart. -/
structure Literal where
  negative : Bool
  /-- The digits before the point. -/
  whole : List Char
  /-- The digits after the point, if there is a point. -/
  fraction : Option (List Char)
  /-- Whether the exponent is negative and its digits, if there is an exponent. -/
  exponent : Option (Bool × List Char)

/-- The value of a decimal digit. -/
def digit (c : Char) : Nat := c.toNat - '0'.toNat

/-- The leading digits that fit 64 bits on top of `significand`, and the digits left over. -/
def accumulate (significand : Nat) : List Char → Nat × List Char
  | [] => (significand, [])
  | c :: rest =>
    if significand * 10 + digit c < UInt64.size then accumulate (significand * 10 + digit c) rest
    else (significand, c :: rest)

/-- The exponent of ten as a 32-bit value, and `none` when its digits exceed that. -/
def exponent32 (digits : List Char) : Option Nat :=
  let n := digits.foldl (fun acc c => acc * 10 + digit c) 0
  if n < Nat.pow 2 31 then some n else none

/-- The powers of ten that a scaling step can use, `1e0` to `1e308`. -/
def powerOfTen (n : Nat) : Float := Float.ofScientific 1 false n

/-- Scale `x` by `10 ^ exponent`. A result that overflows is refused. A division goes in steps of
`1e308`, of which `steps` are tried. -/
def scale : Nat → Float → Int → Option Double
  | 0, x, _ => Double.ofFloat? x
  | steps + 1, x, exponent =>
    if exponent.natAbs ≤ 308 then
      Double.ofFloat?
        (if 0 ≤ exponent then x * powerOfTen exponent.toNat
        else x / powerOfTen exponent.natAbs)
    else if x == 0.0 then Double.ofFloat? x
    else if 0 ≤ exponent then none
    else scale steps (x / powerOfTen 308) (exponent + 308)

/-- The sign of a literal put on its size. -/
def signed (negative : Bool) (x : Double) : Option Double :=
  if negative then Double.ofFloat? (-x.toFloat) else some x

/-- The double of a literal. -/
def Literal.double? (l : Literal) : Option Double := do
  let (lead, dropped) := accumulate 0 l.whole
  let (significand, places) : Nat × Int :=
    match l.fraction with
    | none => (lead, dropped.length)
    | some digits =>
      let (all, rest) := accumulate lead digits
      (all, (dropped.length : Int) - (digits.length - rest.length))
  let start := significand.toUInt64.toFloat
  let size ←
    match l.exponent with
    | none => scale 4 start places
    | some (below, digits) =>
      match exponent32 digits with
      | none => if significand = 0 ∨ below then Double.ofFloat? 0.0 else none
      | some n => scale 4 start (if below then places - n else places + n)
  signed l.negative size

/-- The number of a literal; `none` when it is too large for a double. -/
def Literal.number? (l : Literal) : Option Number :=
  match l.fraction, l.exponent with
  | none, none =>
    let n := l.whole.foldl (fun acc c => acc * 10 + digit c) 0
    if l.negative then
      if 0 < n ∧ n ≤ Nat.pow 2 63 then some (.integer (-n)) else l.double?.map .double
    else if n < UInt64.size then some (.integer n)
    else l.double?.map .double
  | _, _ => l.double?.map .double

end Number

end Dataflow
