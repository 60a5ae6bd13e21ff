/-
The written form of types.

A type is an object with its tag under `type`, its parts under `subType` and its
symbolic name under `name`. Unlike other structures it is never written as an
array, and neither are its parts. A plain type has no parts, or `null`. Other members are
ignored. The tag may also be the only key of an object, above an empty value.

The object of a type is read as a whole before its tag and parts are looked at;
only a symbolic name that is not a text is noticed at once.
-/
import Dataflow.Json.Draft
import Dataflow.ValueType
namespace Dataflow

namespace ValueType

/-! ### Writing -/

/-- The member for a symbolic name. -/
def nameMember : Option String → List (String × Json)
  | none => []
  | some n => [("name", .string n)]

/-- A type as a value; `object` puts members together. -/
def written (object : List (String × Json) → Json) : ValueType → Json
  | .plain kind n => object (("type", .string kind.tag) :: nameMember n)
  | .array item n =>
    object (("type", .string "array") :: ("subType", object [("item", written object item)]) ::
      nameMember n)
  | .object value n =>
    object (("type", .string "object") :: ("subType", object [("value", written object value)]) ::
      nameMember n)
  | .either left right n =>
    object (("type", .string "or") ::
      ("subType", object [("left", written object left), ("right", written object right)]) ::
      nameMember n)

/-- The written form of a type. -/
def toJson (t : ValueType) : Json := t.written .object

/-! ### Reading -/

/-- The tags of types. -/
inductive Tag where
  | plain (kind : Plain)
  | array
  | object
  | either

/-- The tag with the given text. -/
def Tag.ofString? (s : String) : Option Tag :=
  if s = "array" then some .array
  else if s = "object" then some .object
  else if s = "or" then some .either
  else (Plain.all.find? fun kind => kind.tag = s).map .plain

/-- Read a tag: a text, or an object whose only key is the text and whose value is empty. -/
def Tag.ofDraft? : Draft → Option Tag
  | .string (some s) => ofString? s
  | .object [(some s, .null)] _ | .object [(some s, .object [] _)] _ => ofString? s
  | _ => none

/-- What a list of members has under one key. -/
inductive Slot (α : Type) where
  | absent
  | once (a : α)
  | repeated

/-- One more value under the key. -/
def Slot.add {α : Type} (a : α) : Slot α → Slot α
  | .absent => .once a
  | _ => .repeated

/-- The parts of a type, as far as they can be read without its tag. -/
inductive Parts where
  | null
  | fields (item value left right : Slot (Option ValueType))
  | other

/-- The members of a type. -/
structure Members where
  tag : Slot (Option Tag)
  parts : Slot Parts
  name : Slot (Option (Option String))

/-- The symbolic name that a type has. -/
def Members.name? (m : Members) : Option (Option String) :=
  match m.name with
  | .absent => some none
  | .once n => n
  | .repeated => none

/-- The type with the given members, if they fit its tag. -/
def Members.assemble (m : Members) : Option ValueType := do
  let n ← m.name?
  match m.tag, m.parts with
  | .once (some (.plain kind)), .absent | .once (some (.plain kind)), .once .null =>
    some (.plain kind n)
  | .once (some .array), .once (.fields (.once (some item)) _ _ _) => some (.array item n)
  | .once (some .object), .once (.fields _ (.once (some value)) _ _) => some (.object value n)
  | .once (some .either), .once (.fields _ _ (.once (some left)) (.once (some right))) =>
    some (.either left right n)
  | _, _ => none

/-- A symbolic name that is a text or `null`. -/
def nameOf : Draft → Option (Option String)
  | .null => some none
  | .string (some s) => some (some s)
  | _ => none

mutual

/-- The type that a sound draft describes. -/
def ofDraft? : Draft → Option ValueType
  | .object members _ => (collect members ⟨.absent, .absent, .absent⟩).assemble
  | _ => none

/-- Collect the members of a type. -/
def collect : List (Option String × Draft) → Members → Members
  | [], acc => acc
  | (key, draft) :: rest, acc =>
    if key = some "type" then
      collect rest { acc with tag := acc.tag.add (Tag.ofDraft? draft) }
    else if key = some "subType" then
      collect rest { acc with parts := acc.parts.add (partsOf draft) }
    else if key = some "name" then collect rest { acc with name := acc.name.add (nameOf draft) }
    else collect rest acc

/-- The parts that a sound draft describes. -/
def partsOf : Draft → Parts
  | .null => .null
  | .object members _ => collectParts members .absent .absent .absent .absent
  | _ => .other

/-- Collect the parts of a type. -/
def collectParts : List (Option String × Draft) →
    (item value left right : Slot (Option ValueType)) → Parts
  | [], item, value, left, right => .fields item value left right
  | (key, draft) :: rest, item, value, left, right =>
    if key = some "item" then collectParts rest (item.add (ofDraft? draft)) value left right
    else if key = some "value" then collectParts rest item (value.add (ofDraft? draft)) left right
    else if key = some "left" then collectParts rest item value (left.add (ofDraft? draft)) right
    else if key = some "right" then collectParts rest item value left (right.add (ofDraft? draft))
    else collectParts rest item value left right

end

/-- Go through the members of a type from left to right. -/
def checkMembers : List (Option String × Draft) → (named : Bool) → Except Fault Unit
  | [], _ => .ok ()
  | (none, _) :: _, _ => .error .malformed
  | (some key, draft) :: rest, named =>
    if key = "name" then
      if named then .error .misfit
      else do
        let _ ← draft.optional Draft.asString
        checkMembers rest true
    else do
      let _ ← draft.value
      checkMembers rest named

/-- Read a type. -/
def read : Draft → Except Fault ValueType
  | .object members ending => do
    checkMembers members false
    Draft.closing Break.read ending
    match ofDraft? (.object members ending) with
    | some t => .ok t
    | none => .error .misfit
  | .buried (.object _ _) => .error .malformed
  | draft => .error draft.unfit

end ValueType

end Dataflow
