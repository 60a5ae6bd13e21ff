/-
Merge sort with a comparator that may have effects.

The list is cut in the middle, the halves are sorted one after the other and then merged. The
merge takes from the right half only when the comparator says that the left item is greater, so
items that compare as equal keep their order.
-/
namespace Dataflow

namespace Library

variable {m : Type → Type} [Monad m] {α : Type}

/-- Merge two lists; `fuel` is at least the sum of their lengths. -/
def mergeWith (greater : α → α → m Bool) : (fuel : Nat) → List α → List α → m (List α)
  | 0, left, right => return left ++ right
  | _ + 1, [], right => return right
  | _ + 1, left, [] => return left
  | fuel + 1, a :: left, b :: right => do
    if ← greater a b then
      let rest ← mergeWith greater fuel (a :: left) right
      return b :: rest
    else
      let rest ← mergeWith greater fuel left (b :: right)
      return a :: rest

/-- Sort a list; `fuel` is at least its length. -/
def sortWithin (greater : α → α → m Bool) : (fuel : Nat) → List α → m (List α)
  | 0, items => return items
  | fuel + 1, items =>
    if items.length ≤ 1 then return items
    else do
      let middle := items.length / 2
      let left ← sortWithin greater fuel (items.take middle)
      let right ← sortWithin greater fuel (items.drop middle)
      mergeWith greater (left.length + right.length) left right

/-- Sort a list. -/
def mergeSort (greater : α → α → m Bool) (items : List α) : m (List α) :=
  sortWithin greater items.length items

end Library

end Dataflow
