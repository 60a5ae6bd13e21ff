/-
Reading what was written.

The draft of a written value has no defects, so readers only find what they ask for. A value that is
nested no deeper than readers go has nothing buried in it either.

* `Json.limit_draft` — a shallow value is read as it stands;
* `Json.value_draft` — a value is read as its normal form;
* `Draft.items_draft`, `Draft.members_draft`, `Draft.record_draft` — lists, members and records are
  read back when their parts are;
* `Shape.fillMembers_slot`, `Shape.read_object` — a structure is read back field by field;
* `Json.read_of_draft`, `Json.readText_of_draft` — a value and its text are read as its draft is.
-/
import Mathlib
import Dataflow.Json.Shape
import Dataflow.Proofs.Json.Parser
import Dataflow.Proofs.Record
namespace Dataflow

/-! ### Drafts of written values -/

namespace Json

mutual

/-- Nothing is buried in a value that is not nested too deeply. -/
theorem limit_draft : (v : Json) → {n : Nat} → v.depth ≤ n → v.draft.limit n = v.draft
  | .null, n, _ | .bool _, n, _ | .number _, n, _ | .string _, n, _ => by
    cases n <;> rfl
  | .array items, n, h => by
    rw [depth] at h
    obtain ⟨level, rfl⟩ : ∃ level, n = level + 1 := ⟨n - 1, by omega⟩
    rw [draft, Draft.limit, limitItems_draft items (by omega)]
  | .object members, n, h => by
    rw [depth] at h
    obtain ⟨level, rfl⟩ : ∃ level, n = level + 1 := ⟨n - 1, by omega⟩
    rw [draft, Draft.limit, limitMembers_draft members (by omega)]

private theorem limitItems_draft : (items : List Json) → {n : Nat} → depthItems items ≤ n →
    Draft.limitItems n (draftItems items) = draftItems items
  | [], _, _ => rfl
  | item :: rest, n, h => by
    rw [depthItems] at h
    rw [draftItems, Draft.limitItems, limit_draft item (by omega), limitItems_draft rest (by omega)]

private theorem limitMembers_draft : (members : List (String × Json)) → {n : Nat} →
    depthMembers members ≤ n → Draft.limitMembers n (draftMembers members) = draftMembers members
  | [], _, _ => rfl
  | (_, value) :: rest, n, h => by
    rw [depthMembers] at h
    rw [draftMembers, Draft.limitMembers, limit_draft value (by omega),
      limitMembers_draft rest (by omega)]

end

mutual

/-- A value is read as its normal form. -/
theorem value_draft : (v : Json) → v.draft.value = .ok v.normal
  | .null | .bool _ | .number _ | .string _ => rfl
  | .array items => by
    rw [draft, Draft.value, valueItems_draft items, normal]
    rfl
  | .object members => by
    rw [draft, Draft.value, valueMembers_draft members .empty, normal]
    rfl

private theorem valueItems_draft : (items : List Json) →
    Draft.valueItems (draftItems items) = .ok (normalItems items)
  | [] => rfl
  | item :: rest => by
    rw [draftItems, Draft.valueItems, value_draft item, valueItems_draft rest]
    rfl

private theorem valueMembers_draft : (members : List (String × Json)) → (acc : Record Json) →
    Draft.valueMembers (draftMembers members) acc = .ok (normalMembers members acc)
  | [], _ => rfl
  | (_, value) :: rest, acc => by
    rw [draftMembers, Draft.valueMembers, value_draft value]
    exact valueMembers_draft rest _

end

/-! ### Normal forms -/

/-- Values in normal form are written as they are. -/
theorem normalMembers_eq_foldl {members : List (String × Json)}
    (h : ∀ e ∈ members, e.2.normal = e.2) (acc : Record Json) :
    normalMembers members acc = members.foldl (fun r e => r.insert e.1 e.2) acc := by
  induction members generalizing acc with
  | nil => rfl
  | cons member rest ih =>
    rw [normalMembers, h member (List.mem_cons_self ..), List.foldl_cons,
      ih fun e he => h e (List.mem_cons_of_mem _ he)]

mutual

/-- A normal form is its own normal form. -/
theorem normal_normal : (v : Json) → v.normal.normal = v.normal
  | .null | .bool _ | .number _ | .string _ => rfl
  | .array items => by rw [normal, normal, normalItems_normalItems items]
  | .object members => by
    -- the members of the normal form are sorted already, and their values are normal by induction
    have hvalues := normal_of_mem_normalMembers members .empty fun e he => nomatch he
    rw [normal, ofRecord, normal, normalMembers_eq_foldl hvalues]
    exact congrArg ofRecord (Record.ofList_entries _)

private theorem normalItems_normalItems : (items : List Json) →
    normalItems (normalItems items) = normalItems items
  | [] => rfl
  | item :: rest => by
    rw [normalItems, normalItems, normal_normal item, normalItems_normalItems rest]

private theorem normal_of_mem_normalMembers :
    (members : List (String × Json)) → (acc : Record Json) →
    (∀ e ∈ acc.entries, e.2.normal = e.2) →
    ∀ e ∈ (normalMembers members acc).entries, e.2.normal = e.2
  | [], _, hacc => hacc
  | (key, value) :: rest, acc, hacc => by
    refine normal_of_mem_normalMembers rest _ fun e he => ?_
    rw [Record.mem_entries, Record.get?_insert] at he
    split at he
    · rw [← Option.some.inj he]
      exact normal_normal value
    · exact hacc e (Record.mem_entries.2 he)

end

/-! ### Lists, members and records -/

private theorem draftItems_eq_map (items : List Json) : draftItems items = items.map draft := by
  induction items with
  | nil => rfl
  | cons item rest ih => rw [draftItems, List.map_cons, ih]

private theorem draftMembers_eq_map (members : List (String × Json)) :
    draftMembers members = members.map fun m => (some m.1, m.2.draft) := by
  induction members with
  | nil => rfl
  | cons member rest ih => rw [draftMembers, List.map_cons, ih]

end Json

/-- Where every step succeeds, so does the whole list. -/
theorem Except.mapM_eq_ok {ε α β : Type} {read : β → Except ε α} {xs : List β} {ys : List α}
    (h : List.Forall₂ (fun x y => read x = .ok y) xs ys) : xs.mapM read = .ok ys := by
  induction h with
  | nil => rfl
  | cons hx _ ih =>
    rw [List.mapM_cons, hx, ih]
    rfl

namespace Draft

variable {α : Type} {read : Draft → Except Fault α}

/-- A list is read back when its items are. -/
theorem items_draft {write : α → Json} (h : ∀ x, read (write x).draft = .ok x) (xs : List α) :
    Draft.items read (Json.array (xs.map write)).draft = .ok xs := by
  have hitems : xs.mapM (read ∘ Json.draft ∘ write) = .ok xs :=
    Except.mapM_eq_ok (List.forall₂_same.2 fun x _ => h x)
  rw [Json.draft, Json.draftItems_eq_map, Draft.items, List.map_map, List.mapM_map, hitems]
  rfl

/-- Members are read, in their order, when their values are. -/
theorem members_draft {members : List (String × Json)} {entries : List (String × α)}
    (h : List.Forall₂ (fun m e => m.1 = e.1 ∧ read m.2.draft = .ok e.2) members entries) :
    Draft.members read (Json.object members).draft = .ok entries := by
  rw [Json.draft, Json.draftMembers_eq_map, Draft.members, List.mapM_map,
    Except.mapM_eq_ok (h.imp fun m e hm => ?_)]
  · rfl
  · simp only [Function.comp_apply, hm.1, hm.2]
    rfl

/-- A record is read back when its values are, in whichever order they stand. -/
theorem record_draft {β : Type} (write : β → Json) {f : β → α} {r : Record β}
    {entries : List (String × β)} (hperm : entries.Perm r.entries)
    (h : ∀ b, read (write b).draft = .ok (f b)) :
    Draft.record read (Json.object (entries.map fun e => (e.1, write e.2))).draft =
      .ok (r.map fun _ b => f b) := by
  have hmembers : List.Forall₂ (fun m e => m.1 = e.1 ∧ read m.2.draft = .ok e.2)
      (entries.map fun e => (e.1, write e.2)) (entries.map fun e => (e.1, f e.2)) := by
    rw [List.forall₂_map_left_iff, List.forall₂_map_right_iff, List.forall₂_same]
    exact fun e _ => ⟨rfl, h e.2⟩
  rw [Draft.record, members_draft hmembers]
  exact congrArg Except.ok (Record.ofList_of_perm (hperm.map _))

end Draft

/-! ### Structures -/

namespace Shape

variable {σ α β : Type}

/-- A member that has a slot of its own goes there, if the slot is empty. -/
theorem fillMembers_slot {fields : List (Field σ)} {key : String} {get : σ → Option β}
    {set : σ → Option β → σ} {read : Draft → Except Fault β} {value : Json} {b : β}
    (rest : List (String × Json)) {form : σ}
    (hfind : (fields.find? fun field => field.name = key) = some (.slot key get set read))
    (hempty : get form = none) (hread : read value.draft = .ok b) :
    fillMembers fields (Json.draftMembers ((key, value) :: rest)) form =
      fillMembers fields (Json.draftMembers rest) (set form (some b)) := by
  have hfilled : (Field.slot key get set read).filled form = false := by
    show (get form).isSome = false
    rw [hempty]
    rfl
  have hfill : (Field.slot key get set read).fill value.draft form = .ok (set form (some b)) := by
    show (read value.draft >>= fun b => pure (set form (some b))) = _
    rw [hread]
    rfl
  rw [Json.draftMembers, fillMembers, hfind]
  simp only [hfilled, hfill]
  rfl

/-- A structure is read from an object whose members fill its form. -/
theorem read_object {shape : Shape σ α} {members : List (String × Json)} {form : σ} {a : α}
    (hfill : fillMembers shape.fields (Json.draftMembers members) shape.blank = .ok form)
    (hfinish : shape.finish form = some a) : shape.read (Json.object members).draft = .ok a := by
  rw [Json.draft, read, hfill]
  show shape.conclude form = .ok a
  rw [conclude, hfinish]

end Shape

/-! ### Trees and texts -/

namespace Json

variable {α : Type} {reader : Draft → Except Fault α} {v : Json} {a : α}

/-- A shallow value is read as its draft is. -/
theorem read_of_draft (hdepth : v.depth ≤ Draft.maxDepth) (h : reader v.draft = .ok a) :
    v.read reader = .ok a := by
  rw [read, limit_draft v hdepth, h]

/-- So is its text, if its numbers read back. -/
theorem readText_of_draft (hnumbers : ∀ n ∈ v.numbers, n.ReadsBack)
    (hdepth : v.depth ≤ Draft.maxDepth) (h : reader v.draft = .ok a) :
    Draft.readText reader v.text = .ok a := by
  rw [Draft.readText, parse_text hnumbers]
  simp only [limit_draft v hdepth, h]
  rfl

end Json

end Dataflow
