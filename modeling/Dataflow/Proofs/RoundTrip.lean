/-
Documents are read back as they were written.

Types, signatures, programs and settings each have a written form, in which some members are left
out and others stand in a fixed order. Reading takes members in any order and puts defaults where
one is missing. Here writing is followed by reading: what comes back is what was written, with the
nodes of a program in their order. The values among the defaults of a program come back in normal
form, in which values flow anyway.

* `ValueType.read_draft` — types, with their names at every level;
* `Param.read_draft`, `CallbackSignature.read_draft`, `Signature.read_draft` — signatures;
* `Edge.read_draft`, `Node.WrittenAs.read_draft`, `Binding.read_draft`,
  `Program.WrittenAs.read_draft` — programs, with the defaults of a node in any order;
* `Config.read_draft` — settings;
* `Json.read_documents` — all documents that are nested no deeper than readers go, as trees and as
  texts.
-/
import Mathlib
import Dataflow.Config
import Dataflow.Program.Wire
import Dataflow.Proofs.Json.Draft
namespace Dataflow

/-! ### Types -/

namespace ValueType

private theorem Tag.ofString?_tag (kind : Plain) : Tag.ofString? kind.tag = some (.plain kind) := by
  cases kind <;> rfl

/-- What the members of a written type have under `name`. -/
def nameSlot : Option String → Slot (Option (Option String))
  | none => .absent
  | some n => .once (some (some n))

private theorem collect_nameMember (tag : Slot (Option Tag)) (parts : Slot Parts)
    (n : Option String) :
    collect (Json.draftMembers (nameMember n)) ⟨tag, parts, .absent⟩ =
      ⟨tag, parts, nameSlot n⟩ := by
  cases n with
  | none => rw [nameMember, Json.draftMembers, collect, nameSlot]
  | some n =>
    rw [nameMember, Json.draftMembers, Json.draftMembers, collect]
    simp only [Option.some.injEq, String.reduceEq, if_false, if_true]
    rw [collect]
    rfl

/-- A written plain type is put together from its tag and its name. -/
theorem ofDraft?_plain {text : String} {tag : Tag} (htag : Tag.ofString? text = some tag)
    (n : Option String) :
    ofDraft? (Json.object (("type", .string text) :: nameMember n)).draft =
      Members.assemble ⟨.once (some tag), .absent, nameSlot n⟩ := by
  rw [Json.draft, ofDraft?, Json.draftMembers, collect, if_pos rfl, Json.draft, Tag.ofDraft?, htag]
  exact congrArg Members.assemble (collect_nameMember _ _ n)

/-- A written type with parts is put together from its tag, its parts and its name. -/
theorem ofDraft?_parts {text : String} {tag : Tag} {parts : Json} {read : Parts}
    (htag : Tag.ofString? text = some tag) (hparts : partsOf parts.draft = read)
    (n : Option String) :
    ofDraft? (Json.object (("type", .string text) :: ("subType", parts) :: nameMember n)).draft =
      Members.assemble ⟨.once (some tag), .once read, nameSlot n⟩ := by
  rw [Json.draft, ofDraft?, Json.draftMembers, collect, if_pos rfl, Json.draft, Tag.ofDraft?, htag,
    Json.draftMembers, collect]
  simp only [Option.some.injEq, String.reduceEq, if_false, if_true, hparts]
  exact congrArg Members.assemble (collect_nameMember _ _ n)

/-- A written type describes itself. -/
theorem ofDraft?_draft (t : ValueType) : ofDraft? t.toJson.draft = some t := by
  -- parts describe themselves by induction; what is left is to put a name or none to the whole
  induction t with
  | plain kind n =>
    refine (ofDraft?_plain (Tag.ofString?_tag kind) n).trans ?_
    cases n <;> rfl
  | array item n ih =>
    have hparts : partsOf (Json.object [("item", item.toJson)]).draft =
        .fields (.once (some item)) .absent .absent .absent := by
      simp only [Json.draft, Json.draftMembers, partsOf, collectParts, if_true, ih]
      rfl
    refine (ofDraft?_parts rfl hparts n).trans ?_
    cases n <;> rfl
  | object value n ih =>
    have hparts : partsOf (Json.object [("value", value.toJson)]).draft =
        .fields .absent (.once (some value)) .absent .absent := by
      simp only [Json.draft, Json.draftMembers, partsOf, collectParts, Option.some.injEq,
        String.reduceEq, if_false, if_true, ih]
      rfl
    refine (ofDraft?_parts rfl hparts n).trans ?_
    cases n <;> rfl
  | either left right n ihl ihr =>
    have hparts : partsOf (Json.object [("left", left.toJson), ("right", right.toJson)]).draft =
        .fields .absent .absent (.once (some left)) (.once (some right)) := by
      simp only [Json.draft, Json.draftMembers, partsOf, collectParts, Option.some.injEq,
        String.reduceEq, if_false, if_true, ihl, ihr]
      rfl
    refine (ofDraft?_parts rfl hparts n).trans ?_
    cases n <;> rfl

/-- A member that is not the name only has to be a value. -/
theorem checkMembers_cons {key : String} (hkey : key ≠ "name") (value : Json)
    (rest : List (String × Json)) (named : Bool) :
    checkMembers (Json.draftMembers ((key, value) :: rest)) named =
      checkMembers (Json.draftMembers rest) named := by
  rw [Json.draftMembers, checkMembers, if_neg hkey, Json.value_draft]
  rfl

private theorem checkMembers_nameMember (n : Option String) :
    checkMembers (Json.draftMembers (nameMember n)) false = .ok () := by
  cases n <;> rfl

/-- A written type is an object without faults. -/
theorem exists_members (t : ValueType) : ∃ members, t.toJson = .object members ∧
    checkMembers (Json.draftMembers members) false = .ok () := by
  have htype : "type" ≠ "name" := by decide
  have hparts : "subType" ≠ "name" := by decide
  cases t with
  | plain kind n =>
    refine ⟨_, rfl, ?_⟩
    rw [checkMembers_cons htype]
    exact checkMembers_nameMember n
  | array _ n | object _ n | either _ _ n =>
    refine ⟨_, rfl, ?_⟩
    rw [checkMembers_cons htype, checkMembers_cons hparts]
    exact checkMembers_nameMember n

/-- A type is read back with all its names. -/
theorem read_draft (t : ValueType) : read t.toJson.draft = .ok t := by
  have hself := ofDraft?_draft t
  obtain ⟨members, hmembers, hcheck⟩ := exists_members t
  rw [hmembers, Json.draft] at hself ⊢
  -- the check for faults comes first, and only then is the type put together
  rw [read, hcheck]
  simp only [hself]
  rfl

end ValueType

/-! ### Signatures -/

theorem Param.read_draft (p : Param) : shape.read p.toJson.draft = .ok p := by
  have hfill : Shape.fillMembers shape.fields (Json.draftMembers
      [("name", .string p.name), ("type", p.type.toJson)]) {} = .ok ⟨p.name, p.type⟩ := by
    refine Eq.trans (Shape.fillMembers_slot _ rfl rfl rfl) ?_
    refine Eq.trans (Shape.fillMembers_slot _ rfl rfl p.type.read_draft) ?_
    rfl
  exact Shape.read_object hfill rfl

private theorem Param.readList_draft (params : List Param) :
    readList (listToJson params).draft = .ok params :=
  Draft.items_draft read_draft params

theorem CallbackSignature.read_draft (cb : CallbackSignature) :
    shape.read cb.toJson.draft = .ok cb := by
  have hfill : Shape.fillMembers shape.fields (Json.draftMembers
      [("input", Param.listToJson cb.input), ("output", Param.listToJson cb.output)]) {} =
        .ok ⟨cb.input, cb.output⟩ := by
    refine Eq.trans (Shape.fillMembers_slot _ rfl rfl (Param.readList_draft _)) ?_
    refine Eq.trans (Shape.fillMembers_slot _ rfl rfl (Param.readList_draft _)) ?_
    rfl
  exact Shape.read_object hfill rfl

namespace Signature

/-- The callbacks are read back, and none are found where none were written. -/
theorem fillMembers_callbacks (input output : List Param) (callbacks : Record CallbackSignature) :
    ∃ found, Shape.fillMembers shape.fields (Json.draftMembers (callbacksMember callbacks))
        ⟨input, output, none⟩ = .ok ⟨input, output, found⟩ ∧ found.getD .empty = callbacks := by
  rw [callbacksMember]
  split
  · rename_i hempty
    exact ⟨none, rfl, (Record.isEmpty_iff.1 hempty).symm⟩
  · have hrecord := Draft.record_draft (f := id) CallbackSignature.toJson (.refl callbacks.entries)
      CallbackSignature.read_draft
    rw [Record.map_eq_self fun e _ => rfl] at hrecord
    exact ⟨some callbacks, Eq.trans (Shape.fillMembers_slot _ rfl rfl hrecord) rfl, rfl⟩

theorem read_draft (s : Signature) : read s.toJson.draft = .ok s := by
  obtain ⟨found, hfound, hcallbacks⟩ := fillMembers_callbacks s.input s.output s.callbacks
  have hfill : Shape.fillMembers shape.fields (Json.draftMembers
      (("input", Param.listToJson s.input) :: ("output", Param.listToJson s.output) ::
        callbacksMember s.callbacks)) {} = .ok ⟨s.input, s.output, found⟩ := by
    refine Eq.trans (Shape.fillMembers_slot _ rfl rfl (Param.readList_draft _)) ?_
    refine Eq.trans (Shape.fillMembers_slot _ rfl rfl (Param.readList_draft _)) ?_
    exact hfound
  refine Shape.read_object hfill ?_
  show some (Signature.mk s.input s.output (found.getD .empty)) = some s
  rw [hcallbacks]

end Signature

/-! ### Programs -/

theorem Edge.read_draft (e : Edge) : shape.read (e.written .object).draft = .ok e := by
  have hfill : Shape.fillMembers shape.fields (Json.draftMembers [("id", .string e.target),
      ("fromKey", .string e.fromKey), ("toKey", .string e.toKey)]) {} =
        .ok ⟨e.target, e.fromKey, e.toKey⟩ := by
    refine Eq.trans (Shape.fillMembers_slot _ rfl rfl rfl) ?_
    refine Eq.trans (Shape.fillMembers_slot _ rfl rfl rfl) ?_
    refine Eq.trans (Shape.fillMembers_slot _ rfl rfl rfl) ?_
    rfl
  exact Shape.read_object hfill rfl

namespace Node

/-- The node with its default values in normal form. -/
def normal (n : Node) : Node := { n with defaults := n.defaults.map fun _ value => value.normal }

/-- The member for the defaults, which stand in the given order. -/
def defaultsInOrder (defaults : List (String × Json)) : List (String × Json) :=
  if defaults.isEmpty then [] else [("defaultValues", .object defaults)]

/-- A written form of the node, with its defaults in any order. -/
def WrittenAs (n : Node) (v : Json) : Prop :=
  ∃ defaults : List (String × Json), defaults.Perm n.defaults.entries ∧
    v = .object (("functionName", .string n.function) ::
      ("next", .array (n.next.map (Edge.written .object))) :: defaultsInOrder defaults)

private theorem writtenAs_written (n : Node) : n.WrittenAs (n.written .object) :=
  ⟨n.defaults.entries, .refl _, rfl⟩

/-- The defaults are read back in normal form, and none are found where none were written. -/
theorem fillMembers_defaults (function : String) (next : List Edge) {defaults : Record Json}
    {members : List (String × Json)} (h : members.Perm defaults.entries) :
    ∃ found, Shape.fillMembers shape.fields (Json.draftMembers (defaultsInOrder members))
        ⟨function, next, none⟩ = .ok ⟨function, next, found⟩ ∧
      found.getD .empty = defaults.map fun _ value => value.normal := by
  rw [defaultsInOrder]
  split
  · rename_i hempty
    rw [List.isEmpty_iff.1 hempty] at h
    rw [Record.isEmpty_iff.1 (List.isEmpty_iff.2 h.nil_eq.symm)]
    exact ⟨none, rfl, rfl⟩
  · -- what is written is the record itself, and what is read is each value in normal form
    have hrecord := Draft.record_draft id h Json.value_draft
    simp only [id_eq, List.map_id'] at hrecord
    exact ⟨some _, Eq.trans (Shape.fillMembers_slot _ rfl rfl hrecord) rfl, rfl⟩

theorem WrittenAs.read_draft {n : Node} {v : Json} (h : n.WrittenAs v) :
    shape.read v.draft = .ok n.normal := by
  obtain ⟨defaults, hperm, rfl⟩ := h
  obtain ⟨found, hfound, hdefaults⟩ := fillMembers_defaults n.function n.next hperm
  have hnext := Draft.items_draft Edge.read_draft n.next
  have hfill : Shape.fillMembers shape.fields (Json.draftMembers
      (("functionName", .string n.function) ::
        ("next", .array (n.next.map (Edge.written .object))) :: defaultsInOrder defaults)) {} =
          .ok ⟨n.function, n.next, found⟩ := by
    refine Eq.trans (Shape.fillMembers_slot _ rfl rfl rfl) ?_
    refine Eq.trans (Shape.fillMembers_slot _ rfl rfl hnext) ?_
    exact hfound
  refine Shape.read_object hfill ?_
  show some (Node.mk n.function n.next (found.getD .empty)) = some n.normal
  rw [hdefaults]
  rfl

end Node

theorem Address.read_draft (a : Address) : shape.read (a.written .object).draft = .ok a := by
  have hfill : Shape.fillMembers shape.fields (Json.draftMembers
      [("id", .string a.id), ("key", .string a.key)]) {} = .ok ⟨a.id, a.key⟩ := by
    refine Eq.trans (Shape.fillMembers_slot _ rfl rfl rfl) ?_
    refine Eq.trans (Shape.fillMembers_slot _ rfl rfl rfl) ?_
    rfl
  exact Shape.read_object hfill rfl

theorem Binding.read_draft (b : Binding) : shape.read (b.written .object).draft = .ok b := by
  have hfill : Shape.fillMembers shape.fields (Json.draftMembers [("name", .string b.name),
      ("mapKey", b.address.written .object), ("type", b.type.written .object)]) {} =
        .ok ⟨b.name, b.address, b.type⟩ := by
    refine Eq.trans (Shape.fillMembers_slot _ rfl rfl rfl) ?_
    refine Eq.trans (Shape.fillMembers_slot _ rfl rfl b.address.read_draft) ?_
    refine Eq.trans (Shape.fillMembers_slot _ rfl rfl b.type.read_draft) ?_
    rfl
  exact Shape.read_object hfill rfl

private theorem Binding.readList_draft (bindings : List Binding) :
    Draft.items shape.read (Json.array (bindings.map (written .object))).draft = .ok bindings :=
  Draft.items_draft read_draft bindings

namespace Program

/-- The program with its default values in normal form. -/
def normal (p : Program) : Program := { p with nodes := p.nodes.update fun _ node => node.normal }

/-- All default values are in normal form. -/
def IsNormal (p : Program) : Prop :=
  ∀ e ∈ p.nodes.entries, ∀ d ∈ e.2.defaults.entries, d.2.normal = d.2

private theorem normal_eq_self {p : Program} (h : p.IsNormal) : p.normal = p := by
  have hnodes : p.nodes.update (fun _ node => node.normal) = p.nodes := by
    refine Table.update_eq_self fun e he => ?_
    rw [Node.normal, Record.map_eq_self (h e he)]
  rw [normal, hnodes]

private theorem isNormal_normal (p : Program) : p.normal.IsNormal := by
  intro e he d hd
  obtain ⟨e, -, rfl⟩ := List.mem_map.1 he
  obtain ⟨d, -, rfl⟩ := List.mem_map.1 hd
  exact d.2.normal_normal

private theorem ids_normal (p : Program) : p.normal.ids = p.ids := Table.names_update ..

/-- A written form of the program, with its nodes in their order and the defaults of each node in
any order. -/
def WrittenAs (p : Program) (v : Json) : Prop :=
  ∃ nodes : List (String × Json),
    List.Forall₂ (fun m e => m.1 = e.1 ∧ e.2.WrittenAs m.2) nodes p.nodes.entries ∧
    v = .object [
      ("input", .array (p.input.map (Binding.written .object))),
      ("output", .array (p.output.map (Binding.written .object))), ("data", .object nodes)]

private theorem writtenAs_toJson (p : Program) : p.WrittenAs p.toJson := by
  refine ⟨_, ?_, rfl⟩
  rw [List.forall₂_map_left_iff, List.forall₂_same]
  exact fun e _ => ⟨rfl, e.2.writtenAs_written⟩

/-- Nodes are read back in their order. -/
theorem readNodes_draft {members : List (String × Json)} {nodes : Table Node}
    (h : List.Forall₂ (fun m e => m.1 = e.1 ∧ e.2.WrittenAs m.2) members nodes.entries) :
    readNodes (Json.object members).draft = .ok (nodes.update fun _ node => node.normal) := by
  have hmembers : List.Forall₂ (fun m e => m.1 = e.1 ∧ Node.shape.read m.2.draft = .ok e.2)
      members (nodes.update fun _ node => node.normal).entries :=
    List.forall₂_map_right_iff.2 (h.imp fun m e hm => ⟨hm.1, hm.2.read_draft⟩)
  rw [readNodes, Draft.members_draft hmembers]
  exact congrArg Except.ok (Table.ofList_entries (nodes.update fun _ node => node.normal))

theorem WrittenAs.read_draft {p : Program} {v : Json} (h : p.WrittenAs v) :
    read v.draft = .ok p.normal := by
  obtain ⟨nodes, hnodes, rfl⟩ := h
  have hfill : Shape.fillMembers shape.fields (Json.draftMembers [
      ("input", .array (p.input.map (Binding.written .object))),
      ("output", .array (p.output.map (Binding.written .object))),
      ("data", .object nodes)]) {} = .ok ⟨p.input, p.output, p.normal.nodes⟩ := by
    refine Eq.trans (Shape.fillMembers_slot _ rfl rfl (Binding.readList_draft _)) ?_
    refine Eq.trans (Shape.fillMembers_slot _ rfl rfl (Binding.readList_draft _)) ?_
    refine Eq.trans (Shape.fillMembers_slot _ rfl rfl (readNodes_draft hnodes)) ?_
    rfl
  exact Shape.read_object hfill rfl

end Program

/-! ### Settings -/

private theorem Draft.asSize_draft (n : UInt64) : asSize (Json.ofNat n.toNat).draft = .ok n := by
  have hsize : (0 : Int) ≤ n.toNat ∧ (n.toNat : Int) < UInt64.size :=
    ⟨Int.natCast_nonneg _, Int.ofNat_lt.2 n.toNat_lt⟩
  rw [Json.ofNat, Json.draft, asSize, if_pos hsize, Int.toNat_natCast, UInt64.ofNat_toNat]

theorem CacheConfig.read_draft (c : CacheConfig) : read c.toJson.draft = .ok c := by
  have hfill : Shape.fillMembers shape.fields (Json.draftMembers [("max", .ofNat c.max.toNat),
      ("restrictToPrograms", .bool c.restrictToPrograms)]) {} =
        .ok ⟨c.max, c.restrictToPrograms⟩ := by
    refine Eq.trans (Shape.fillMembers_slot _ rfl rfl (Draft.asSize_draft _)) ?_
    refine Eq.trans (Shape.fillMembers_slot _ rfl rfl rfl) ?_
    rfl
  exact Shape.read_object hfill rfl

namespace Config

/-- The settings of a cache are read back, and `null` as no cache. -/
theorem readCache_draft (cache : Option CacheConfig) :
    Draft.optional CacheConfig.read (match cache with
      | none => Json.null
      | some cache => cache.toJson).draft = .ok cache := by
  cases cache with
  | none => rfl
  | some cache =>
    show (CacheConfig.read cache.toJson.draft >>= fun c => pure (some c)) = _
    rw [cache.read_draft]
    rfl

theorem read_draft (c : Config) : read c.toJson.draft = .ok c := by
  have hfill : Shape.fillMembers shape.fields (Json.draftMembers [
      ("cache", match c.cache with
        | none => .null
        | some cache => cache.toJson),
      ("budgetSlack", .ofNat c.budgetSlack.toNat), ("checkCatalog", .bool c.checkCatalog)]) {} =
        .ok ⟨some c.cache, some c.budgetSlack, some c.checkCatalog⟩ := by
    refine Eq.trans (Shape.fillMembers_slot _ rfl rfl (readCache_draft _)) ?_
    refine Eq.trans (Shape.fillMembers_slot _ rfl rfl (Draft.asSize_draft _)) ?_
    refine Eq.trans (Shape.fillMembers_slot _ rfl rfl rfl) ?_
    rfl
  exact Shape.read_object hfill rfl

private theorem depth_toJson (c : Config) : c.toJson.depth ≤ 2 := by
  obtain ⟨_ | cache, slack, check⟩ := c <;>
    simp [toJson, CacheConfig.toJson, Json.ofNat, Json.depth, Json.depthMembers]

end Config

/-! ### Numbers in documents -/

namespace Json

private theorem numbersItems_eq_nil {items : List Json} (h : ∀ item ∈ items, item.numbers = []) :
    numbersItems items = [] := by
  induction items with
  | nil => rfl
  | cons item rest ih =>
    rw [numbersItems, h item (List.mem_cons_self ..),
      ih fun other hother => h other (List.mem_cons_of_mem _ hother), List.append_nil]

private theorem numbersMembers_eq_nil {members : List (String × Json)}
    (h : ∀ member ∈ members, member.2.numbers = []) : numbersMembers members = [] := by
  induction members with
  | nil => rfl
  | cons member rest ih =>
    rw [numbersMembers, h member (List.mem_cons_self ..),
      ih fun other hother => h other (List.mem_cons_of_mem _ hother), List.append_nil]

end Json

private theorem ValueType.numbers_toJson (t : ValueType) : t.toJson.numbers = [] := by
  have hname : ∀ n, Json.numbersMembers (nameMember n) = [] := by
    intro n
    cases n <;> rfl
  rw [toJson]
  induction t with
  | plain kind n => simp [written, Json.numbers, Json.numbersMembers, hname]
  | array item n ih | object item n ih =>
    simp [written, Json.numbers, Json.numbersMembers, hname, ih]
  | either left right n ihl ihr =>
    simp [written, Json.numbers, Json.numbersMembers, hname, ihl, ihr]

private theorem Param.numbers_listToJson (params : List Param) :
    (listToJson params).numbers = [] := by
  refine Json.numbersItems_eq_nil fun item hitem => ?_
  obtain ⟨p, -, rfl⟩ := List.mem_map.1 hitem
  simp [toJson, Json.numbers, Json.numbersMembers, p.type.numbers_toJson]

private theorem Signature.numbers_toJson (s : Signature) : s.toJson.numbers = [] := by
  have hcallbacks : Json.numbersMembers (callbacksMember s.callbacks) = [] := by
    rw [callbacksMember]
    split
    · rfl
    · rw [Json.numbersMembers, Json.ofRecord, Json.numbers, Json.numbersMembers_eq_nil ?_]
      · rfl
      · intro member hmember
        obtain ⟨e, -, rfl⟩ := List.mem_map.1 hmember
        simp [CallbackSignature.toJson, Json.numbers, Json.numbersMembers,
          Param.numbers_listToJson]
  simp [toJson, Json.numbers, Json.numbersMembers, Param.numbers_listToJson, hcallbacks]

private theorem Number.readsBack_size (n : UInt64) : (integer n.toNat).ReadsBack := by
  have hlt := n.toNat_lt
  exact readsBack_integer (by omega) (by omega)

private theorem Config.readsBack_numbers (c : Config) : ∀ n ∈ c.toJson.numbers, n.ReadsBack := by
  obtain ⟨_ | cache, slack, check⟩ := c <;>
    simp [toJson, CacheConfig.toJson, Json.ofNat, Json.numbers, Json.numbersMembers,
      Number.readsBack_size]

/-! ### All documents -/

/-- **What is written is read back.** Reading a program, a type or a signature that is nested no
deeper than readers go gives it back, and so does reading settings, from the tree and from the text.
The defaults of a node may stand in any order. A program comes back with its nodes in their order
and its default values in normal form; one whose default values are in normal form comes back as it
was. The text of a program is read back if the numbers among its default values are. -/
theorem Json.read_documents :
    (∀ p : Program, p.WrittenAs p.toJson ∧
      (∀ v, p.WrittenAs v → v.depth ≤ Draft.maxDepth →
        v.read Program.read = .ok p.normal ∧
        ((∀ n ∈ v.numbers, n.ReadsBack) →
          Draft.readText Program.read v.text = .ok p.normal)) ∧
      p.normal.ids = p.ids ∧ p.normal.IsNormal ∧ (p.IsNormal → p.normal = p)) ∧
    (∀ t : ValueType, t.toJson.depth ≤ Draft.maxDepth →
      t.toJson.read ValueType.read = .ok t ∧ Draft.readText ValueType.read t.toJson.text = .ok t) ∧
    (∀ s : Signature, s.toJson.depth ≤ Draft.maxDepth →
      s.toJson.read Signature.read = .ok s ∧ Draft.readText Signature.read s.toJson.text = .ok s) ∧
    ∀ c : Config,
      c.toJson.read Config.read = .ok c ∧ Draft.readText Config.read c.toJson.text = .ok c := by
  refine ⟨fun p => ?_, fun t hdepth => ?_, fun s hdepth => ?_, fun c => ?_⟩
  · refine ⟨p.writtenAs_toJson, fun v hv hdepth => ?_, p.ids_normal, p.isNormal_normal,
      Program.normal_eq_self⟩
    exact ⟨read_of_draft hdepth hv.read_draft, (readText_of_draft · hdepth hv.read_draft)⟩
  · have hnumbers : ∀ n ∈ t.toJson.numbers, n.ReadsBack := by simp [t.numbers_toJson]
    exact ⟨read_of_draft hdepth t.read_draft, readText_of_draft hnumbers hdepth t.read_draft⟩
  · have hnumbers : ∀ n ∈ s.toJson.numbers, n.ReadsBack := by simp [s.numbers_toJson]
    exact ⟨read_of_draft hdepth s.read_draft, readText_of_draft hnumbers hdepth s.read_draft⟩
  · have hdepth : c.toJson.depth ≤ Draft.maxDepth := c.depth_toJson.trans (by decide)
    exact ⟨read_of_draft hdepth c.read_draft,
      readText_of_draft c.readsBack_numbers hdepth c.read_draft⟩

/-- A type with names at some levels and none at others. -/
def ValueType.pairs : ValueType :=
  (ValueType.arrayOf (.either (.object (.auto "T") none) .nil (some "pair"))).named "pairs"

/-- A signature with a callback. -/
def Signature.each : Signature :=
  ⟨[⟨"arr", .pairs⟩], [], .ofList [("body", ⟨[⟨"item", .auto "T"⟩], [⟨"keep", .bool⟩]⟩)]⟩

/-- Two nodes out of the order of their names, one with an edge and one with defaults. -/
def Program.sampler : Program where
  input := [⟨"in", ⟨"z", "arr"⟩, .pairs⟩]
  output := [⟨"out", ⟨"a", "data"⟩, .any⟩]
  nodes := .ofList [
    ("z", ⟨"array.len", [⟨"a", "len", "condition"⟩], .empty⟩),
    ("a", ⟨"ctrl.if", [], .ofList [("true", .sorted [("y", .null), ("x", .array [.ofNat 3])]),
      ("false", .string "no")]⟩)]

/-- A program with named types, nodes out of order and an object among its default values comes back
from its tree and from its text, as do a nested type and a signature with a callback. -/
theorem Json.read_documents_sampler :
    (Program.sampler.toJson.read Program.read = .ok .sampler ∧
      Draft.readText Program.read Program.sampler.toJson.text = .ok .sampler) ∧
    Draft.readText ValueType.read ValueType.pairs.toJson.text = .ok .pairs ∧
    Draft.readText Signature.read Signature.each.toJson.text = .ok .each := by
  obtain ⟨hprogram, htype, hsignature, -⟩ := read_documents
  obtain ⟨hwritten, hread, -, -, hself⟩ := hprogram .sampler
  obtain ⟨htree, htext⟩ := hread _ hwritten (by decide)
  have hnormal : Program.sampler.IsNormal := by
    unfold Program.IsNormal
    decide
  have hnumbers : ∀ n ∈ Program.sampler.toJson.numbers, n.ReadsBack := by
    rw [show Program.sampler.toJson.numbers = [.integer 3] by decide, List.forall_mem_singleton]
    exact Number.readsBack_integer (by decide) (by decide)
  rw [hself hnormal] at htree htext
  exact ⟨⟨htree, htext hnumbers⟩, (htype _ (by decide)).2, (hsignature _ (by decide)).2⟩

end Dataflow
