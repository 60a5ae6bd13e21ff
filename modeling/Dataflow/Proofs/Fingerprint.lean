/-
The fingerprint of a closure determines what it does.

A fingerprint lists all members in order of their keys, so the order of the nodes is lost and all
else can be read off it: similar programs and equal frames are left.

* `ValueType.written_injective`, `Node.written_injective`, `Binding.written_injective` — the parts;
* `Program.similar_of_written` — programs that are written alike;
* `Closure.similar_of_fingerprint` — closures with one fingerprint.
-/
import Mathlib
import Dataflow.Proofs.Simulation
namespace Dataflow

/-- The members of a sorted object can be looked up. -/
theorem Json.lookup_of_sorted {a b : List (String × Json)} (h : Json.sorted a = Json.sorted b)
    (name : String) : Entries.lookup name a.reverse = Entries.lookup name b.reverse := by
  have hentries : (Record.ofList a).entries = (Record.ofList b).entries := Json.object.inj h
  have hget : (Record.ofList a).get? name = (Record.ofList b).get? name := by
    rw [Record.get?, Record.get?, hentries]
  rwa [Record.get?_ofList_reverse, Record.get?_ofList_reverse] at hget

private theorem Json.ofRecord_injective {a b : Record Json}
    (h : Json.ofRecord a = Json.ofRecord b) :
    a = b :=
  Record.ext_entries (Json.object.inj h)

/-! ### Types -/

namespace ValueType

private theorem Plain.tag_injective {a b : Plain} (h : a.tag = b.tag) : a = b := by
  cases a <;> cases b <;> first | rfl | exact absurd h (by decide)

/-- The parts of a type, all members in order. -/
def parts? : ValueType → Option Json
  | .plain _ _ => none
  | .array item _ => some (.sorted [("item", item.written .sorted)])
  | .object value _ => some (.sorted [("value", value.written .sorted)])
  | .either left right _ =>
    some (.sorted [("left", left.written .sorted), ("right", right.written .sorted)])

/-- The members of a type can be looked up in its written form. -/
theorem lookup_written (t : ValueType) :
    ∃ members, t.written .sorted = .sorted members ∧
      Entries.lookup "type" members.reverse = some (.string t.tag) ∧
      Entries.lookup "subType" members.reverse = t.parts? ∧
      Entries.lookup "name" members.reverse = t.name.map .string := by
  cases t with
  | plain kind n | array item n | object value n | either left right n =>
    rw [written]
    cases n <;> exact ⟨_, rfl, rfl, rfl, rfl⟩

private theorem members_of_written {t u : ValueType} (h : t.written .sorted = u.written .sorted) :
    t.tag = u.tag ∧ t.parts? = u.parts? ∧ t.name = u.name := by
  obtain ⟨members, ht, htag, hparts, hname⟩ := t.lookup_written
  obtain ⟨members', hu, htag', hparts', hname'⟩ := u.lookup_written
  rw [ht, hu] at h
  rw [Json.lookup_of_sorted h, htag'] at htag
  rw [Json.lookup_of_sorted h, hparts'] at hparts
  rw [Json.lookup_of_sorted h, hname'] at hname
  have hinj : Function.Injective Json.string := fun _ _ => Json.string.inj
  exact ⟨(Json.string.inj (Option.some.inj htag)).symm, hparts.symm,
    (Option.map_injective hinj hname).symm⟩

/-- Types that are written alike are equal. -/
theorem written_injective {t u : ValueType} (h : t.written .sorted = u.written .sorted) :
    t = u := by
  induction t generalizing u with
  | plain kind n =>
    obtain ⟨htag, hparts, hname⟩ := members_of_written h
    cases u with
    | plain kind' n' => rw [Plain.tag_injective htag, show n = n' from hname]
    | array item n' | object value n' | either left right n' => cases hparts
  | array item n ih =>
    obtain ⟨htag, hparts, hname⟩ := members_of_written h
    cases u with
    | array item' n' =>
      have hitem := Json.lookup_of_sorted (Option.some.inj hparts) "item"
      rw [ih (Option.some.inj hitem), show n = n' from hname]
    | plain kind n' => cases hparts
    | object value n' | either left right n' => exact absurd htag (by simp [tag])
  | object value n ih =>
    obtain ⟨htag, hparts, hname⟩ := members_of_written h
    cases u with
    | object value' n' =>
      have hvalue := Json.lookup_of_sorted (Option.some.inj hparts) "value"
      rw [ih (Option.some.inj hvalue), show n = n' from hname]
    | plain kind n' => cases hparts
    | array item n' | either left right n' => exact absurd htag (by simp [tag])
  | either left right n ihl ihr =>
    obtain ⟨htag, hparts, hname⟩ := members_of_written h
    cases u with
    | either left' right' n' =>
      have hleft := Json.lookup_of_sorted (Option.some.inj hparts) "left"
      have hright := Json.lookup_of_sorted (Option.some.inj hparts) "right"
      rw [ihl (Option.some.inj hleft), ihr (Option.some.inj hright), show n = n' from hname]
    | plain kind n' => cases hparts
    | array item n' | object value n' => exact absurd htag (by simp [tag])

end ValueType

/-! ### Programs -/

theorem Address.written_injective {a b : Address} (h : a.written .sorted = b.written .sorted) :
    a = b := by
  have hid := Json.lookup_of_sorted h "id"
  have hkey := Json.lookup_of_sorted h "key"
  cases a
  cases b
  cases Json.string.inj (Option.some.inj hid)
  cases Json.string.inj (Option.some.inj hkey)
  rfl

theorem Binding.written_injective {b c : Binding} (h : b.written .sorted = c.written .sorted) :
    b = c := by
  have hname := Json.lookup_of_sorted h "name"
  have haddress := Json.lookup_of_sorted h "mapKey"
  have htype := Json.lookup_of_sorted h "type"
  cases b
  cases c
  cases Json.string.inj (Option.some.inj hname)
  cases Address.written_injective (Option.some.inj haddress)
  cases ValueType.written_injective (Option.some.inj htype)
  rfl

theorem Edge.written_injective {e f : Edge} (h : e.written .sorted = f.written .sorted) :
    e = f := by
  have htarget := Json.lookup_of_sorted h "id"
  have hfrom := Json.lookup_of_sorted h "fromKey"
  have hto := Json.lookup_of_sorted h "toKey"
  cases e
  cases f
  cases Json.string.inj (Option.some.inj htarget)
  cases Json.string.inj (Option.some.inj hfrom)
  cases Json.string.inj (Option.some.inj hto)
  rfl

/-- Lists whose items are written alike are equal. -/
theorem Json.array_map_injective {α : Type} {f : α → Json} (hf : ∀ {a b}, f a = f b → a = b)
    {l m : List α} (h : Json.array (l.map f) = Json.array (m.map f)) : l = m :=
  List.map_injective_iff.2 (fun _ _ => hf) (Json.array.inj h)

namespace Node

/-- The members of a node can be looked up in its written form. -/
theorem lookup_written (n : Node) :
    ∃ members, n.written .sorted = .sorted members ∧
      Entries.lookup "functionName" members.reverse = some (.string n.function) ∧
      Entries.lookup "next" members.reverse =
        some (.array (n.next.map (Edge.written .sorted))) ∧
      Entries.lookup "defaultValues" members.reverse =
        if n.defaults.isEmpty then none else some (.ofRecord n.defaults) := by
  rw [written, defaultsMember]
  cases n.defaults.isEmpty <;> exact ⟨_, rfl, rfl, rfl, rfl⟩

theorem written_injective {n m : Node} (h : n.written .sorted = m.written .sorted) : n = m := by
  obtain ⟨members, hn, hfunction, hnext, hdefaults⟩ := n.lookup_written
  obtain ⟨members', hm, hfunction', hnext', hdefaults'⟩ := m.lookup_written
  rw [hn, hm] at h
  rw [Json.lookup_of_sorted h, hfunction'] at hfunction
  rw [Json.lookup_of_sorted h, hnext'] at hnext
  rw [Json.lookup_of_sorted h, hdefaults'] at hdefaults
  have hrecord : m.defaults = n.defaults := by
    split at hdefaults <;> split at hdefaults
    · rw [Record.isEmpty_iff.1 ‹m.defaults.isEmpty = true›,
        Record.isEmpty_iff.1 ‹n.defaults.isEmpty = true›]
    · cases hdefaults
    · cases hdefaults
    · exact Json.ofRecord_injective (Option.some.inj hdefaults)
  cases n
  cases m
  cases Json.string.inj (Option.some.inj hfunction)
  cases Json.array_map_injective Edge.written_injective (Option.some.inj hnext)
  cases hrecord
  rfl

end Node

/-- Programs that are written alike, their nodes in order of their ids, are the same up to the order
of their nodes. -/
theorem Program.similar_of_written {p q : Program} (h : p.written .sorted = q.written .sorted) :
    p.Similar q := by
  have hinput := Json.lookup_of_sorted h "input"
  have houtput := Json.lookup_of_sorted h "output"
  have hnodes := Json.lookup_of_sorted h "data"
  refine ⟨Json.array_map_injective Binding.written_injective (Option.some.inj hinput),
    Json.array_map_injective Binding.written_injective (Option.some.inj houtput), fun id => ?_⟩
  have hlookup : ∀ r : Program, Entries.lookup id
      (r.nodes.entries.map fun e => (e.1, e.2.written .sorted)).reverse =
        (r.node? id).map (Node.written .sorted) := by
    intro r
    rw [Entries.lookup_reverse, Entries.lookup_map fun _ n => Node.written .sorted n]
    · rfl
    · rw [List.map_map]
      exact r.nodes.distinct
  have hid := Json.lookup_of_sorted (Option.some.inj hnodes) id
  rw [hlookup, hlookup] at hid
  exact Option.map_injective (fun _ _ => Node.written_injective) hid

/-! ### Closures -/

namespace Closure

/-- Closures of one name with the same fingerprint do the same. -/
theorem similar_of_fingerprint {c d : Closure} (hname : c.name = d.name) (hc : c.seed.Sound)
    (hd : d.seed.Sound) (h : c.fingerprint = d.fingerprint) : c.Similar d := by
  have hprogram := Json.lookup_of_sorted h "program"
  have hframes := Json.lookup_of_sorted h "frames"
  refine ⟨hname, Program.similar_of_written (Option.some.inj hprogram), hc.ext hd ?_⟩
  refine Json.array_map_injective ?_ (Option.some.inj hframes)
  rintro ⟨id, frame⟩ ⟨id', frame'⟩ hpair
  have hlist := Json.array.inj hpair
  rw [Json.string.inj (List.cons.inj hlist).1,
    Json.ofRecord_injective (List.cons.inj (List.cons.inj hlist).2).1]

/-- Closures with the same fingerprints under the same names do the same. -/
theorem allSimilar_of_fingerprints {a b : Record Closure} (ha : AllSound a) (hb : AllSound b)
    (h : (a.map fun _ closure => closure.fingerprint) =
      b.map fun _ closure => closure.fingerprint) : AllSimilar a b := by
  intro name
  have hget := congrArg (·.get? name) h
  simp only [Record.get?_map] at hget
  have hname := ha name
  have hname' := hb name
  generalize a.get? name = found at hget hname
  generalize b.get? name = found' at hget hname'
  cases found with
  | none =>
    cases found' with
    | none => exact .none
    | some d => cases hget
  | some c =>
    cases found' with
    | none => cases hget
    | some d =>
      obtain ⟨hc, hseed⟩ := hname c rfl
      obtain ⟨hd, hseed'⟩ := hname' d rfl
      exact .some (similar_of_fingerprint (hc.trans hd.symm) hseed hseed' (Option.some.inj hget))

end Closure

end Dataflow
