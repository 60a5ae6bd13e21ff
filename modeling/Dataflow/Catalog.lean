/-
The catalog: the functions that nodes can call, by name.

A function is native, with a runner of its own, or a program that is run when it
is called.
-/
import Dataflow.Program
import Dataflow.Script
namespace Dataflow

/-- What a function name stands for. -/
inductive Entry where
  | native (signature : Signature) (runner : Runner)
  | program (signature : Signature) (program : Program)

/-- The signature of a function. -/
def Entry.signature : Entry → Signature
  | .native signature _ | .program signature _ => signature

/-- Whether a function is a program. -/
def Entry.isProgram : Entry → Bool
  | .native .. => false
  | .program .. => true

/-- A program as a function. -/
def Entry.ofProgram (p : Program) : Entry := .program p.signature p

/-- The functions that nodes can call. -/
structure Catalog where
  entries : Record Entry

namespace Catalog

/-- The catalog without functions. -/
def empty : Catalog := ⟨.empty⟩

/-- The function with the given name. -/
def get? (c : Catalog) (name : String) : Option Entry := c.entries.get? name

/-- Whether there is a function with the given name. -/
def contains (c : Catalog) (name : String) : Bool := c.entries.contains name

/-- The signature of the function with the given name. -/
def signature? (c : Catalog) (name : String) : Option Signature :=
  (c.get? name).map Entry.signature

/-- Put a function under a name. -/
def register (c : Catalog) (name : String) (entry : Entry) : Catalog :=
  ⟨c.entries.insert name entry⟩

/-- Put all functions of another catalog into this one. -/
def merge (c other : Catalog) : Catalog := ⟨c.entries.merge other.entries⟩

/-- The function names in order. -/
def names (c : Catalog) : List String := c.entries.names

/-- The number of functions. -/
def size (c : Catalog) : Nat := c.entries.size

/-- The functions with their signatures, in order of their names. -/
def all (c : Catalog) : List (String × Signature) :=
  c.entries.entries.map fun (name, entry) => (name, entry.signature)

/-- The functions whose signatures have collisions, in order of their names. -/
def inconsistencies (c : Catalog) : List (String × List Signature.Collision) :=
  (c.all.map fun (name, signature) => (name, signature.collisions)).filter
    fun (_, collisions) => !collisions.isEmpty

end Catalog

end Dataflow
