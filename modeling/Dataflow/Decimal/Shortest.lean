/-
The shortest decimal of a finite double.

A finite double is `mantissa * 2 ^ exponent` up to its sign. The reals that
round to it form an interval around it, and among the decimals in that interval
those with the fewest digits come first and, of these, the one nearest to the
value; of two that are equally near, the even one. Everything is exact
arithmetic on natural numbers.

* `Dyadic.ofBits` — the parts of a bit pattern;
* `Dyadic.shortest` — the digits and the power of ten.
-/
namespace Dataflow

/-- A decimal `digits * 10 ^ exponent`. -/
structure Decimal where
  digits : Nat
  exponent : Int
  deriving DecidableEq, Repr

/-- The size of a finite double: `mantissa * 2 ^ exponent`. -/
structure Dyadic where
  mantissa : Nat
  exponent : Int
  /-- Whether the next smaller double is only half a step away. -/
  narrowBelow : Bool
  deriving DecidableEq, Repr

namespace Dyadic

/-- The biased exponent of a bit pattern. -/
def biasedExponent (bits : UInt64) : Nat := bits.toNat / Nat.pow 2 52 % Nat.pow 2 11

/-- The stored fraction of a bit pattern. -/
def fraction (bits : UInt64) : Nat := bits.toNat % Nat.pow 2 52

/-- The parts of a bit pattern, its sign left out. -/
def ofBits (bits : UInt64) : Dyadic :=
  if biasedExponent bits = 0 then ⟨fraction bits, -1074, false⟩
  else
    ⟨fraction bits + Nat.pow 2 52, (biasedExponent bits : Int) - 1075,
      fraction bits = 0 && 1 < biasedExponent bits⟩

/-- The number of decimal digits of `n`, one for zero. -/
def digitCount (n : Nat) : Nat := (Nat.toDigits 10 n).length

/-- The place of the first digit: the least `e` with `d.mantissa * 2 ^ d.exponent < 10 ^ e`,
for a mantissa that is not zero. -/
def place (d : Dyadic) : Int :=
  let top := d.mantissa * Nat.pow 2 d.exponent.toNat
  let bottom := Nat.pow 2 (-d.exponent).toNat
  let guess := (digitCount top : Int) - digitCount bottom
  if top * Nat.pow 10 (-guess).toNat < bottom * Nat.pow 10 guess.toNat then guess else guess + 1

/-- The weight of one unit of the grid `10 ^ k`, when a quarter step of `d` weighs `quarter d k`. -/
def unit (d : Dyadic) (k : Int) : Nat :=
  Nat.pow 10 k.toNat * Nat.pow 2 (2 - d.exponent).toNat

/-- The weight of a quarter step of `d`, when one unit of the grid `10 ^ k` weighs `unit d k`. -/
def quarter (d : Dyadic) (k : Int) : Nat :=
  Nat.pow 10 (-k).toNat * Nat.pow 2 (d.exponent - 2).toNat

/-- Whether `n * 10 ^ k` rounds to `d`: the ends of the interval belong to even mantissas. -/
def absorbs (d : Dyadic) (k : Int) (n : Nat) : Bool :=
  let low := (4 * d.mantissa - if d.narrowBelow then 1 else 2) * quarter d k
  let high := (4 * d.mantissa + 2) * quarter d k
  let point := n * unit d k
  if d.mantissa % 2 = 0 then low ≤ point && point ≤ high else low < point && point < high

/-- Whether `value` lies nearer to `below * step` than to the next multiple of `step`; halfway
between them the even multiple is nearer. -/
def isNearer (step value below : Nat) : Bool :=
  let down := value - below * step
  let up := (below + 1) * step - value
  down < up || (down = up && below % 2 = 0)

/-- The multiple of `10 ^ k` that rounds to `d` and is nearest to it, if there is one. -/
def onGrid (d : Dyadic) (k : Int) : Option Nat :=
  let value := 4 * d.mantissa * quarter d k
  let below := value / unit d k
  match absorbs d k below, absorbs d k (below + 1) with
  | true, true => if isNearer (unit d k) value below then some below else some (below + 1)
  | true, false => some below
  | false, true => some (below + 1)
  | false, false => none

/-- Drop the zeros at the end of `n`, at most `fuel` of them. -/
def dropZeros : Nat → Nat → Int → Decimal
  | 0, n, k => ⟨n, k⟩
  | fuel + 1, n, k => if n % 10 = 0 then dropZeros fuel (n / 10) (k + 1) else ⟨n, k⟩

/-- The shortest decimal that rounds to `d`, for a mantissa that is not zero. Seventeen digits
always suffice. -/
def shortest (d : Dyadic) : Decimal :=
  let first := (List.range 17).findSome? fun (i : Nat) =>
    let k := d.place - (i + 1)
    (d.onGrid k).map fun n => dropZeros 18 n k
  first.getD ⟨4 * d.mantissa * quarter d (d.place - 17) / unit d (d.place - 17), d.place - 17⟩

end Dyadic

end Dataflow
