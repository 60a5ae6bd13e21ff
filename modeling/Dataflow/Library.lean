/-
The standard library of functions.
-/
import Dataflow.Library.Arithmetic
import Dataflow.Library.Comparison
import Dataflow.Library.Control
import Dataflow.Library.HigherOrder
import Dataflow.Library.Sequence
import Dataflow.Library.Text
namespace Dataflow

namespace Library

/-- All functions of the library. -/
def functions : List NativeFunction :=
  control ++ arithmetic ++ comparisons ++ texts ++ sequences ++ higherOrder

/-- The function with the given name. -/
def function? (name : String) : Option NativeFunction :=
  functions.find? fun f => f.name = name

/-- The catalog of the library. -/
def catalog : Catalog :=
  functions.foldl (fun c f => c.register f.name (.native f.signature f.runner)) .empty

/-- The catalog of the library without `math.random`. -/
def settled : Catalog := ⟨catalog.entries.erase random.name⟩

/-- The catalog of the library, with a note that it is ready. -/
def setUp : Noted Catalog := do
  Noted.note (.catalogReady catalog.size)
  return catalog

end Library

end Dataflow
