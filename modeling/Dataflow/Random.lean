/-
The random numbers of a run.

Where they come from is left open: a run is handed a stream of numbers from zero up to one, and
every draw takes the next of them.
-/
namespace Dataflow

/-- A number from zero up to one. -/
structure Draw where
  value : Float
  nonneg : 0.0 ≤ value
  lt_one : value < 1.0

namespace Draw

instance : Inhabited Draw := ⟨0.0, by decide, by decide⟩

/-- A number as a draw; what lies outside the bounds counts as zero. -/
def ofFloat (x : Float) : Draw :=
  if h : 0.0 ≤ x ∧ x < 1.0 then ⟨x, h.1, h.2⟩ else default

end Draw

/-- A source of random numbers: any stream of draws, and how many have been taken. -/
structure RandomSource where
  draws : Nat → Draw
  taken : Nat
  deriving Inhabited

namespace RandomSource

/-- A stream from which nothing has been taken. -/
def ofStream (draws : Nat → Draw) : RandomSource := ⟨draws, 0⟩

/-- Take the next draw. -/
def next (source : RandomSource) : Float × RandomSource :=
  ((source.draws source.taken).value, { source with taken := source.taken + 1 })

end RandomSource

end Dataflow
