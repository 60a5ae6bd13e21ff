/-
Drafts: JSON texts with their defects left in place.

A draft is what a text says up to its first defect. Whoever reads a shape out of
a draft walks it from left to right, so of a misspelt text and a value of the
wrong shape the one that stands first is reported. Parts that no shape asks for
are skipped, and skipping is more lenient than reading: it accepts numbers
too large for a double, unpaired surrogates and any depth of nesting.

* `Draft.value` — reads a draft as a JSON value in normal form;
* `Draft.skip` — passes over a draft;
* `Draft.limit` — buries what is nested deeper than readers go;
* `Json.draft` — the draft of a written value.
-/
import Dataflow.Json.Basic
namespace Dataflow

/-- What keeps a text from being read. -/
inductive Fault where
  /-- The text is not JSON. -/
  | malformed
  /-- The text ends too early. -/
  | truncated
  /-- The text is JSON so far, but not of the shape asked for. -/
  | misfit
  deriving DecidableEq, Repr

/-- The name of a fault in answers. -/
def Fault.name : Fault → String
  | .malformed => "syntax"
  | .truncated => "eof"
  | .misfit => "data"

/-- A place where the text stops making sense. A reader and a skipping reader may see
different faults there. -/
structure Break where
  read : Fault
  skipped : Fault
  deriving DecidableEq

/-- The same fault for readers and skippers. -/
def Break.both (fault : Fault) : Break := ⟨fault, fault⟩

/-- A JSON text up to its first defect. -/
inductive Draft where
  | null
  | bool (b : Bool)
  /-- A number, or a literal too large to be one. -/
  | number (n : Option Number)
  /-- A text, or one with an unpaired surrogate. -/
  | string (s : Option String)
  /-- Items, and the break that stands where the closing bracket should. -/
  | array (items : List Draft) (ending : Option Break)
  /-- Members, and the break that stands where the closing brace should. -/
  | object (members : List (Option String × Draft)) (ending : Option Break)
  /-- An array or object that is nested too deeply to be read. -/
  | buried (inner : Draft)
  | broken (b : Break)
  deriving Inhabited

namespace Draft

/-! ### Depth -/

mutual

/-- Bury every array and object below more than `level` others. -/
def limit : Nat → Draft → Draft
  | 0, .array items ending => .buried (.array items ending)
  | 0, .object members ending => .buried (.object members ending)
  | level + 1, .array items ending => .array (limitItems level items) ending
  | level + 1, .object members ending => .object (limitMembers level members) ending
  | _, draft => draft

/-- The items of an array, limited. -/
def limitItems (level : Nat) : List Draft → List Draft
  | [] => []
  | item :: rest => limit level item :: limitItems level rest

/-- The members of an object, limited. -/
def limitMembers (level : Nat) : List (Option String × Draft) → List (Option String × Draft)
  | [] => []
  | (key, value) :: rest => (key, limit level value) :: limitMembers level rest

end

/-- How many arrays and objects may stand inside one another. -/
def maxDepth : Nat := 127

/-! ### Skipping -/

/-- Go on only where the closing bracket or brace stands. -/
def closing (pick : Break → Fault) : Option Break → Except Fault Unit
  | none => .ok ()
  | some b => .error (pick b)

mutual

/-- Pass over a draft. -/
def skip : Draft → Except Fault Unit
  | .array items ending => do
    skipItems items
    closing Break.skipped ending
  | .object members ending => do
    skipMembers members
    closing Break.skipped ending
  | .buried inner => skip inner
  | .broken b => .error b.skipped
  | _ => .ok ()

/-- Pass over the items of an array. -/
def skipItems : List Draft → Except Fault Unit
  | [] => .ok ()
  | item :: rest => do
    skip item
    skipItems rest

/-- Pass over the members of an object. -/
def skipMembers : List (Option String × Draft) → Except Fault Unit
  | [] => .ok ()
  | (_, value) :: rest => do
    skip value
    skipMembers rest

end

/-! ### Reading values -/

mutual

/-- Read a draft as a value in normal form. -/
def value : Draft → Except Fault Json
  | .null => .ok .null
  | .bool b => .ok (.bool b)
  | .number (some n) => .ok (.number n)
  | .string (some s) => .ok (.string s)
  | .number none | .string none | .buried _ => .error .malformed
  | .array items ending => do
    let items ← valueItems items
    closing Break.read ending
    return .array items
  | .object members ending => do
    let members ← valueMembers members .empty
    closing Break.read ending
    return .ofRecord members
  | .broken b => .error b.read

/-- Read the items of an array. -/
def valueItems : List Draft → Except Fault (List Json)
  | [] => .ok []
  | item :: rest => do
    let item ← value item
    let rest ← valueItems rest
    return item :: rest

/-- Read the members of an object over the record `acc`. -/
def valueMembers : List (Option String × Draft) → Record Json → Except Fault (Record Json)
  | [], acc => .ok acc
  | (none, _) :: _, _ => .error .malformed
  | (some key, member) :: rest, acc => do
    let member ← value member
    valueMembers rest (acc.insert key member)

end

/-! ### Reading parts -/

/-- The fault that a reader who wants something else reports. -/
def unfit : Draft → Fault
  | .number none | .string none => .malformed
  | .broken b => b.read
  | _ => .misfit

/-- Read a text. -/
def asString : Draft → Except Fault String
  | .string (some s) => .ok s
  | draft => .error draft.unfit

/-- Read a truth value. -/
def asBool : Draft → Except Fault Bool
  | .bool b => .ok b
  | draft => .error draft.unfit

/-- Read a size: an integer that fits 64 bits. -/
def asSize : Draft → Except Fault UInt64
  | .number (some (.integer n)) =>
    if 0 ≤ n ∧ n < UInt64.size then .ok (UInt64.ofNat n.toNat) else .error .misfit
  | draft => .error draft.unfit

/-- Read `null` as nothing and everything else with `read`. -/
def optional {α : Type} (read : Draft → Except Fault α) : Draft → Except Fault (Option α)
  | .null => .ok none
  | draft => do
    let a ← read draft
    return some a

/-- Read each item of an array. -/
def items {α : Type} (read : Draft → Except Fault α) : Draft → Except Fault (List α)
  | .array items ending => do
    let items ← items.mapM read
    closing Break.read ending
    return items
  | .buried (.array _ _) => .error .malformed
  | draft => .error draft.unfit

/-- Read the value of each member, in the order of the text. -/
def members {α : Type} (read : Draft → Except Fault α) :
    Draft → Except Fault (List (String × α))
  | .object members ending => do
    let members ← members.mapM fun (key, member) =>
      match key with
      | none => .error .malformed
      | some key => do
        let member ← read member
        return (key, member)
    closing Break.read ending
    return members
  | .buried (.object _ _) => .error .malformed
  | draft => .error draft.unfit

/-- Read the members of an object into a record. -/
def record {α : Type} (read : Draft → Except Fault α) (draft : Draft) :
    Except Fault (Record α) := do
  let members ← draft.members read
  return .ofList members

end Draft

namespace Json

mutual

/-- The draft of a written value. -/
def draft : Json → Draft
  | .null => .null
  | .bool b => .bool b
  | .number n => .number (some n)
  | .string s => .string (some s)
  | .array items => .array (draftItems items) none
  | .object members => .object (draftMembers members) none

/-- The drafts of the items of an array. -/
def draftItems : List Json → List Draft
  | [] => []
  | item :: rest => draft item :: draftItems rest

/-- The drafts of the members of an object. -/
def draftMembers : List (String × Json) → List (Option String × Draft)
  | [] => []
  | (key, value) :: rest => (some key, draft value) :: draftMembers rest

end

/-- Read a value back through a reader of drafts, as if from its text. -/
def read {α : Type} (reader : Draft → Except Fault α) (value : Json) : Except Fault α :=
  reader (value.draft.limit Draft.maxDepth)

end Json

end Dataflow
