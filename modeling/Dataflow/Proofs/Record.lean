/-
What records answer after they are built or changed.

Records are compared through `get?` only, so every way of building one comes with a statement
about its answers:

* `Record.get?_ofList_reverse` — of a list, the last entry with a name counts;
* `Record.get?_ofList_filterMap` — a record computed name by name;
* `Record.names_eq_names` — records that answer the same names list the same names.
-/
import Mathlib
import Dataflow.Table
namespace Dataflow

/-- Of the names that were not seen before, each is kept where it comes first. -/
theorem eraseDups_filter_cons (seen : List String) (name : String) (rest : List String) :
    ((name :: rest).filter fun other => other ∉ seen).eraseDups =
      if name ∈ seen then (rest.filter fun other => other ∉ seen).eraseDups
      else name :: (rest.filter fun other => other ∉ name :: seen).eraseDups := by
  rw [List.filter_cons]
  by_cases hseen : name ∈ seen
  · rw [if_neg (by simpa using hseen), if_pos hseen]
  · rw [if_pos (by simpa using hseen), if_neg hseen, List.eraseDups_cons, List.filter_filter]
    congr 2
    refine List.filter_congr fun other _ => ?_
    by_cases h : other = name <;> simp [h]

namespace Entries

variable {α : Type}

private theorem lookup_append (name : String) (a b : List (String × α)) :
    lookup name (a ++ b) = (lookup name a <|> lookup name b) := by
  induction a with
  | nil => simp [lookup]
  | cons entry rest ih =>
    simp only [List.cons_append, lookup]
    by_cases h : name = entry.1
    · simp [h]
    · simp [h, ih]

/-- A name is answered when it stands among the names. -/
theorem isSome_lookup {name : String} {entries : List (String × α)} :
    (lookup name entries).isSome ↔ name ∈ entries.map (·.1) := by
  induction entries with
  | nil => simp [lookup]
  | cons entry rest ih =>
    simp only [lookup, List.map_cons, List.mem_cons]
    by_cases h : name = entry.1
    · simp [h]
    · simp only [h, if_false, ih, false_or]

theorem mem_of_lookup {name : String} {value : α} {entries : List (String × α)}
    (h : lookup name entries = some value) : (name, value) ∈ entries := by
  induction entries with
  | nil => cases h
  | cons entry rest ih =>
    rw [lookup] at h
    split at h
    · rename_i heq
      cases h
      exact heq ▸ List.mem_cons_self ..
    · exact List.mem_cons_of_mem _ (ih h)

/-- Among distinct names every entry is answered. -/
theorem lookup_of_mem {name : String} {value : α} {entries : List (String × α)}
    (hd : (entries.map (·.1)).Nodup) (h : (name, value) ∈ entries) :
    lookup name entries = some value := by
  induction entries with
  | nil => cases h
  | cons entry rest ih =>
    rw [List.map_cons, List.nodup_cons] at hd
    rw [lookup]
    rcases List.mem_cons.1 h with rfl | h
    · exact if_pos rfl
    · have hne : ¬ name = entry.1 := fun e =>
        hd.1 (e ▸ List.mem_map_of_mem h)
      rw [if_neg hne]
      exact ih hd.2 h

/-- Among distinct names the order does not matter. -/
theorem lookup_reverse (name : String) {entries : List (String × α)}
    (hd : (entries.map (·.1)).Nodup) : lookup name entries.reverse = lookup name entries := by
  have hd' : (entries.reverse.map (·.1)).Nodup := by
    rw [List.map_reverse]
    exact List.nodup_reverse.2 hd
  cases h : lookup name entries with
  | none =>
    by_contra hne
    obtain ⟨value, hvalue⟩ := Option.ne_none_iff_exists'.1 hne
    have := lookup_of_mem hd (List.mem_reverse.1 (mem_of_lookup hvalue))
    rw [h] at this
    cases this
  | some value => exact lookup_of_mem hd' (List.mem_reverse.2 (mem_of_lookup h))

/-- Ordered entries have distinct names. -/
theorem Ordered.nodup {entries : List (String × α)} (h : Ordered entries) :
    (entries.map (·.1)).Nodup := by
  refine List.pairwise_map.2 (h.imp fun {a b} hlt heq => ?_)
  rw [heq] at hlt
  exact String.lt_irrefl _ hlt

end Entries

namespace Record

variable {α β : Type}

theorem ext_entries {a b : Record α} (h : a.entries = b.entries) : a = b := by
  cases a
  cases b
  cases h
  rfl

theorem contains_eq_true {r : Record α} {name : String} :
    r.contains name = true ↔ ∃ value, r.get? name = some value :=
  Option.isSome_iff_exists

theorem contains_eq_false {r : Record α} {name : String} :
    r.contains name = false ↔ r.get? name = none := by
  rw [contains, Option.isSome_eq_false_iff, Option.isNone_iff_eq_none]

theorem mem_entries {r : Record α} {name : String} {value : α} :
    (name, value) ∈ r.entries ↔ r.get? name = some value :=
  ⟨Entries.lookup_of_mem r.ordered.nodup, Entries.mem_of_lookup⟩

theorem mem_names {r : Record α} {name : String} : name ∈ r.names ↔ r.contains name = true :=
  Entries.isSome_lookup.symm

theorem sorted_names (r : Record α) : r.names.Pairwise (· < ·) := List.pairwise_map.2 r.ordered

theorem isEmpty_iff {r : Record α} : r.isEmpty = true ↔ r = .empty := by
  constructor
  · intro h
    refine ext_get? fun name => ?_
    rw [get?, List.isEmpty_iff.1 h]
    rfl
  · rintro rfl
    rfl

/-- Writing a list of entries: the last one with a name counts. -/
theorem get?_foldl_insert (entries : List (String × α)) (r : Record α) (name : String) :
    (entries.foldl (fun r e => r.insert e.1 e.2) r).get? name =
      (Entries.lookup name entries.reverse <|> r.get? name) := by
  induction entries generalizing r with
  | nil => rfl
  | cons entry rest ih =>
    rw [List.foldl_cons, ih, get?_insert, List.reverse_cons, Entries.lookup_append]
    cases Entries.lookup name rest.reverse with
    | some value => rfl
    | none =>
      by_cases h : name = entry.1
      · simp [h, Entries.lookup]
      · simp [h, Entries.lookup]

theorem get?_ofList_reverse (entries : List (String × α)) (name : String) :
    (ofList entries).get? name = Entries.lookup name entries.reverse := by
  rw [ofList, get?_foldl_insert, get?_empty]
  simp

/-- The record of a list with distinct names holds all that is in the list. -/
theorem get?_ofList_of_mem {entries : List (String × α)} (hd : (entries.map (·.1)).Nodup)
    {name : String} {value : α} (h : (name, value) ∈ entries) :
    (ofList entries).get? name = some value := by
  rw [get?_ofList_reverse, Entries.lookup_reverse name hd]
  exact Entries.lookup_of_mem hd h

/-- A record is the record of its entries, in any order. -/
theorem ofList_of_perm {entries : List (String × α)} {r : Record α}
    (h : entries.Perm r.entries) : ofList entries = r := by
  have hd : (entries.map (·.1)).Nodup := (h.map _).nodup_iff.2 r.ordered.nodup
  refine ext_get? fun name => Option.ext fun value => ?_
  rw [get?_ofList_reverse, Entries.lookup_reverse name hd, ← mem_entries, ← h.mem_iff]
  exact ⟨Entries.mem_of_lookup, Entries.lookup_of_mem hd⟩

theorem ofList_entries (r : Record α) : ofList r.entries = r := ofList_of_perm (.refl _)

theorem map_eq_self {r : Record α} {f : String → α → α} (h : ∀ e ∈ r.entries, f e.1 e.2 = e.2) :
    r.map f = r := by
  refine ext_entries ((List.map_congr_left fun e he => ?_).trans (List.map_id _))
  exact Prod.ext rfl (h e he)

/-- The record of a list has all names of the list. -/
theorem contains_ofList {entries : List (String × α)} {name : String}
    (h : name ∈ entries.map (·.1)) : (ofList entries).contains name = true := by
  rw [contains, get?_ofList_reverse, Entries.isSome_lookup, List.map_reverse, List.mem_reverse]
  exact h

private theorem lookup_filterMap (f : String → Option α) (names : List String) (name : String) :
    Entries.lookup name (names.filterMap fun key => (f key).map fun value => (key, value)) =
      if name ∈ names then f name else none := by
  induction names with
  | nil => rfl
  | cons key rest ih =>
    rw [List.filterMap_cons]
    cases h : f key with
    | none =>
      simp only [Option.map_none, ih, List.mem_cons]
      by_cases hn : name = key
      · simp [hn, h]
      · simp [hn]
    | some value =>
      simp only [Option.map_some, Entries.lookup, ih, List.mem_cons]
      by_cases hn : name = key
      · simp [hn, h]
      · simp [hn]

/-- A record that is computed name by name, for the names that give a value. -/
theorem get?_ofList_filterMap (f : String → Option α) (names : List String) (name : String) :
    (ofList (names.filterMap fun key => (f key).map fun value => (key, value))).get? name =
      if name ∈ names then f name else none := by
  rw [get?_ofList_reverse, ← List.filterMap_reverse, lookup_filterMap]
  simp only [List.mem_reverse]

/-- Records that answer the same names list the same names. -/
theorem names_eq_names {a : Record α} {b : Record β}
    (h : ∀ name, a.contains name = b.contains name) : a.names = b.names := by
  have hmap : a.map (fun _ _ => ()) = b.map fun _ _ => () := by
    refine ext_get? fun name => ?_
    have := h name
    rw [contains, contains] at this
    rw [get?_map, get?_map]
    cases ha : a.get? name <;> cases hb : b.get? name <;> simp_all
  have hnames := congrArg names hmap
  rwa [names, names, map, map, List.map_map, List.map_map] at hnames

end Record

namespace Table

variable {α : Type}

theorem ext_entries {a b : Table α} (h : a.entries = b.entries) : a = b := by
  cases a
  cases b
  cases h
  rfl

theorem mem_entries {t : Table α} {name : String} {value : α} :
    (name, value) ∈ t.entries ↔ t.get? name = some value :=
  ⟨Entries.lookup_of_mem t.distinct, Entries.mem_of_lookup⟩

theorem mem_names {t : Table α} {name : String} :
    name ∈ t.names ↔ ∃ value, t.get? name = some value :=
  Entries.isSome_lookup.symm.trans Option.isSome_iff_exists

/-- Tables with the same answers have the same entries up to order. -/
theorem perm_of_get? {a b : Table α} (h : ∀ name, a.get? name = b.get? name) :
    a.entries.Perm b.entries := by
  refine (List.perm_ext_iff_of_nodup (List.Nodup.of_map _ a.distinct)
    (List.Nodup.of_map _ b.distinct)).2 fun entry => ?_
  obtain ⟨name, value⟩ := entry
  rw [mem_entries, mem_entries, h]

/-- Tables with the same names and the same answers are the same. -/
theorem ext_get? {a b : Table α} (hnames : a.names = b.names)
    (hget : ∀ name ∈ a.names, a.get? name = b.get? name) : a = b := by
  have hanswers (t : Table α) : t.entries.map some =
      t.names.map fun name => (t.get? name).map fun value => (name, value) := by
    rw [names, List.map_map]
    refine List.map_congr_left fun e he => ?_
    rw [Function.comp_apply, mem_entries.1 he]
    rfl
  refine ext_entries ((Option.some_injective _).list_map ?_)
  rw [hanswers, hanswers, ← hnames]
  exact List.map_congr_left fun name hname => by rw [hget name hname]

theorem get?_update (t : Table α) (f : String → α → α) (name : String) :
    (t.update f).get? name = (t.get? name).map (f name) :=
  Entries.lookup_map f name t.entries

theorem names_update (t : Table α) (f : String → α → α) : (t.update f).names = t.names := by
  rw [names, update, List.map_map]
  rfl

theorem update_eq_self {t : Table α} {f : String → α → α} (h : ∀ e ∈ t.entries, f e.1 e.2 = e.2) :
    t.update f = t := by
  refine ext_entries ((List.map_congr_left fun e he => ?_).trans (List.map_id _))
  exact Prod.ext rfl (h e he)

private theorem putEntry_of_not_mem {name : String} {entries : List (String × α)}
    (h : name ∉ entries.map (·.1)) (value : α) :
    putEntry name value entries = entries ++ [(name, value)] := by
  induction entries with
  | nil => rfl
  | cons entry rest ih =>
    rw [List.map_cons, List.mem_cons, not_or] at h
    rw [putEntry, if_neg fun heq => h.1 heq.symm, ih h.2, List.cons_append]

/-- New names are written behind the old ones. -/
theorem entries_foldl_put {rest : List (String × α)} {t : Table α}
    (h : ((t.entries ++ rest).map (·.1)).Nodup) :
    (rest.foldl (fun t e => t.put e.1 e.2) t).entries = t.entries ++ rest := by
  induction rest generalizing t with
  | nil => exact (List.append_nil _).symm
  | cons entry rest ih =>
    have hnew : entry.1 ∉ t.entries.map (·.1) := by
      rw [List.map_append, List.map_cons] at h
      exact fun hmem => (List.nodup_append.1 h).2.2 _ hmem _ (List.mem_cons_self ..) rfl
    have hput : (t.put entry.1 entry.2).entries = t.entries ++ [entry] :=
      putEntry_of_not_mem hnew entry.2
    rw [List.append_cons, ← hput] at h
    rw [List.foldl_cons, ih h, hput, ← List.append_cons]

/-- A table is the table of its entries, in their order. -/
theorem ofList_entries (t : Table α) : ofList t.entries = t :=
  ext_entries (entries_foldl_put (t := empty) t.distinct)

end Table

end Dataflow
