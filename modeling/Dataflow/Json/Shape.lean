/-
Shapes: structures written as JSON objects.

A structure is written as an object of its fields in any order, with further
members ignored, or as an array of its fields in their declared order, where
trailing fields with a default may be left off. A known field that comes twice,
a required field that is missing and a field of the wrong kind are misfits; an
array with more items than fields is malformed.
-/
import Dataflow.Json.Draft
namespace Dataflow

/-- A field of a structure that is read into the form `σ`. -/
structure Field (σ : Type) where
  name : String
  /-- Whether the form already has this field. -/
  filled : σ → Bool
  /-- Read the field's value into the form. -/
  fill : Draft → σ → Except Fault σ

/-- A field that `get` finds in the form and `set` puts there. -/
def Field.slot {σ α : Type} (name : String) (get : σ → Option α) (set : σ → Option α → σ)
    (read : Draft → Except Fault α) : Field σ where
  name := name
  filled form := (get form).isSome
  fill draft form := do
    let a ← read draft
    return set form (some a)

/-- The shape of a structure `α` that is read through the form `σ`. -/
structure Shape (σ α : Type) where
  /-- The fields in declared order. -/
  fields : List (Field σ)
  /-- The form before anything is read. -/
  blank : σ
  /-- The structure, unless a required field is missing. -/
  finish : σ → Option α

namespace Shape

variable {σ α : Type}

/-- Fill the form from the members of an object. -/
def fillMembers (fields : List (Field σ)) :
    List (Option String × Draft) → σ → Except Fault σ
  | [], form => .ok form
  | (none, _) :: _, _ => .error .malformed
  | (some key, value) :: rest, form =>
    match fields.find? fun field => field.name = key with
    | none => do
      value.skip
      fillMembers fields rest form
    | some field =>
      if field.filled form then .error .misfit
      else do
        let form ← field.fill value form
        fillMembers fields rest form

/-- Fill the form from the items of an array. -/
def fillItems : List (Field σ) → List Draft → σ → Except Fault σ
  | _, [], form => .ok form
  | [], _ :: _, _ => .error .malformed
  | field :: fields, item :: rest, form => do
    let form ← field.fill item form
    fillItems fields rest form

/-- The structure of a form in which all that was written is filled in. -/
def conclude (shape : Shape σ α) (form : σ) : Except Fault α :=
  match shape.finish form with
  | some a => .ok a
  | none => .error .misfit

/-- Read a structure. -/
def read (shape : Shape σ α) : Draft → Except Fault α
  | .object members ending => do
    let form ← fillMembers shape.fields members shape.blank
    Draft.closing Break.read ending
    shape.conclude form
  | .array items ending => do
    let form ← fillItems shape.fields items shape.blank
    Draft.closing Break.read ending
    shape.conclude form
  | .buried _ => .error .malformed
  | draft => .error draft.unfit

end Shape

end Dataflow
