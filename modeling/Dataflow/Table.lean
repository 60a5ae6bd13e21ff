/-
Tables: finite maps that remember the order of insertion.

Writing a name that is present replaces its value where it stands; a new name
goes to the end.

Main facts:
* `Table.get?_put` — writing a name changes the answer at that name only;
* `Table.names_put` — a present name keeps its place and a new one goes to the end.
-/
import Dataflow.Record
namespace Dataflow

/-- A finite map from names to values, in order of insertion. -/
structure Table (α : Type) where
  entries : List (String × α)
  distinct : (entries.map (·.1)).Nodup
  deriving DecidableEq

namespace Table

variable {α : Type}

/-- The value under `name` replaced, or the entry put at the end. -/
def putEntry (name : String) (value : α) : List (String × α) → List (String × α)
  | [] => [(name, value)]
  | entry :: rest =>
    if entry.1 = name then (name, value) :: rest else entry :: putEntry name value rest

theorem names_putEntry (name : String) (value : α) (entries : List (String × α)) :
    (putEntry name value entries).map (·.1) =
      if name ∈ entries.map (·.1) then entries.map (·.1) else entries.map (·.1) ++ [name] := by
  induction entries with
  | nil => rfl
  | cons entry rest ih =>
    rw [putEntry]
    by_cases h : entry.1 = name
    · simp [h]
    · have h' : ¬ name = entry.1 := fun e => h e.symm
      simp only [h, if_false, List.map_cons, ih, List.mem_cons, h', false_or]
      split <;> rfl

theorem lookup_putEntry (name other : String) (value : α) (entries : List (String × α)) :
    Entries.lookup other (putEntry name value entries) =
      if other = name then some value else Entries.lookup other entries := by
  induction entries with
  | nil => rfl
  | cons entry rest ih =>
    rw [putEntry]
    by_cases h : entry.1 = name
    · rw [if_pos h, Entries.lookup, Entries.lookup, h]
      split <;> rfl
    · rw [if_neg h, Entries.lookup, Entries.lookup, ih]
      by_cases h' : other = entry.1
      · rw [if_pos h', if_neg fun e => h (h'.symm.trans e), if_pos h']
      · rw [if_neg h', if_neg h']

/-- The table without entries. -/
def empty : Table α := ⟨[], List.nodup_nil⟩

instance : Inhabited (Table α) := ⟨empty⟩

/-- The value under `name`. -/
def get? (t : Table α) (name : String) : Option α := Entries.lookup name t.entries

/-- Whether there is a value under `name`. -/
def contains (t : Table α) (name : String) : Bool := (t.get? name).isSome

/-- The names in order of insertion. -/
def names (t : Table α) : List String := t.entries.map (·.1)

/-- The number of entries. -/
def size (t : Table α) : Nat := t.entries.length

/-- The table with `value` under `name`. -/
def put (t : Table α) (name : String) (value : α) : Table α :=
  ⟨putEntry name value t.entries, by
    rw [names_putEntry]
    split
    · exact t.distinct
    · rename_i h
      refine List.nodup_append.2 ⟨t.distinct, by simp, fun a ha b hb => ?_⟩
      rw [List.mem_singleton.1 hb]
      exact fun e => h (e ▸ ha)⟩

/-- The table of a list of entries, written one after the other. -/
def ofList (entries : List (String × α)) : Table α :=
  entries.foldl (fun t e => t.put e.1 e.2) empty

/-- The table with `f` applied to each value. -/
def update (t : Table α) (f : String → α → α) : Table α :=
  ⟨t.entries.map fun e => (e.1, f e.1 e.2), by
    have h := t.distinct
    rwa [List.map_map]⟩

@[simp]
theorem get?_empty (name : String) : (empty : Table α).get? name = none := rfl

theorem get?_put (t : Table α) (name other : String) (value : α) :
    (t.put name value).get? other = if other = name then some value else t.get? other :=
  lookup_putEntry name other value t.entries

theorem names_put (t : Table α) (name : String) (value : α) :
    (t.put name value).names = if name ∈ t.names then t.names else t.names ++ [name] :=
  names_putEntry name value t.entries

end Table

end Dataflow
