/-
Records: finite maps from names to values.

A record keeps its entries in increasing order of their names, so a record is
determined by what it answers: two records that agree on every name are equal.
Names are ordered by code point.

Main facts:
* `Record.get?_insert` — writing a name changes the answer at that name only;
* `Record.get?_erase` — erasing a name leaves every other answer alone;
* `Record.ext_get?` — records with the same answers are equal.
-/
namespace Dataflow

/-! ### Ordered entries -/

namespace Entries

variable {α β : Type}

/-- Entries in strictly increasing order of their names. -/
def Ordered (entries : List (String × α)) : Prop :=
  entries.Pairwise fun a b => a.1 < b.1

/-- The value under `name`. -/
def lookup (name : String) : List (String × α) → Option α
  | [] => none
  | entry :: rest => if name = entry.1 then some entry.2 else lookup name rest

/-- Put `value` under `name`, replacing what stood there. -/
def insert (name : String) (value : α) : List (String × α) → List (String × α)
  | [] => [(name, value)]
  | (other, held) :: rest =>
    if name < other then (name, value) :: (other, held) :: rest
    else if name = other then (name, value) :: rest
    else (other, held) :: insert name value rest

/-- The name of a written entry is the new name or an old one. -/
theorem mem_insert {name : String} {value : α} {entries : List (String × α)}
    {entry : String × α} (h : entry ∈ insert name value entries) :
    entry.1 = name ∨ entry ∈ entries := by
  induction entries with
  | nil =>
    left
    simp only [insert, List.mem_singleton] at h
    rw [h]
  | cons head rest ih =>
    obtain ⟨other, held⟩ := head
    simp only [insert] at h
    split at h
    · rcases List.mem_cons.1 h with rfl | h
      · exact .inl rfl
      · exact .inr h
    · split at h
      · rcases List.mem_cons.1 h with rfl | h
        · exact .inl rfl
        · exact .inr (List.mem_cons_of_mem _ h)
      · rcases List.mem_cons.1 h with rfl | h
        · exact .inr (List.mem_cons_self ..)
        · exact (ih h).imp_right (List.mem_cons_of_mem _)

/-- Writing keeps the order. -/
theorem Ordered.insert {entries : List (String × α)} (h : Ordered entries)
    (name : String) (value : α) : Ordered (Entries.insert name value entries) := by
  induction entries with
  | nil => simp [Entries.insert, Ordered]
  | cons head rest ih =>
    obtain ⟨other, held⟩ := head
    have hhead : ∀ e ∈ rest, other < e.1 := (List.pairwise_cons.1 h).1
    have hrest : Ordered rest := (List.pairwise_cons.1 h).2
    simp only [Entries.insert]
    split
    · rename_i hlt
      refine List.pairwise_cons.2 ⟨fun e he => ?_, h⟩
      rcases List.mem_cons.1 he with rfl | he
      · exact hlt
      · exact String.lt_trans hlt (hhead e he)
    · split
      · rename_i heq
        exact List.pairwise_cons.2 ⟨fun e he => by simpa [heq] using hhead e he, hrest⟩
      · rename_i hlt hne
        have hgt : other < name := by
          refine String.not_le.1 fun hle => ?_
          exact hne (String.le_antisymm hle (String.not_lt.1 hlt))
        refine List.pairwise_cons.2 ⟨fun e he => ?_, ih hrest⟩
        rcases mem_insert he with h' | h'
        · rw [h']
          exact hgt
        · exact hhead e h'

theorem lookup_insert (name other : String) (value : α) (entries : List (String × α)) :
    lookup other (insert name value entries) =
      if other = name then some value else lookup other entries := by
  induction entries with
  | nil => rfl
  | cons head rest ih =>
    obtain ⟨first, held⟩ := head
    simp only [insert]
    split
    · rfl
    · split
      · rename_i heq
        subst heq
        simp only [lookup]
        split <;> rfl
      · rename_i hne
        simp only [lookup, ih]
        split
        · rename_i heq
          rw [if_neg fun h => hne (h.symm.trans heq)]
        · rfl

theorem lookup_filter (keep : String → Bool) (name : String) (entries : List (String × α)) :
    lookup name (entries.filter fun e => keep e.1) =
      if keep name then lookup name entries else none := by
  induction entries with
  | nil => simp [lookup]
  | cons head rest ih =>
    obtain ⟨first, held⟩ := head
    by_cases hf : keep first = true
    · simp only [List.filter_cons, hf, if_true, lookup, ih]
      by_cases h : name = first
      · simp [h, hf]
      · simp [h]
    · rw [List.filter_cons, if_neg hf, ih]
      simp only [lookup]
      by_cases h : name = first
      · simp [h, hf]
      · simp [h]

theorem lookup_map (f : String → α → β) (name : String) (entries : List (String × α)) :
    lookup name (entries.map fun e => (e.1, f e.1 e.2)) = (lookup name entries).map (f name) := by
  induction entries with
  | nil => rfl
  | cons head rest ih =>
    obtain ⟨first, held⟩ := head
    simp only [List.map_cons, lookup, ih]
    by_cases h : name = first
    · simp [h]
    · simp [h]

/-- A name below every entry is not answered. -/
theorem lookup_eq_none {name : String} {entries : List (String × α)}
    (h : ∀ e ∈ entries, name < e.1) : lookup name entries = none := by
  induction entries with
  | nil => rfl
  | cons head rest ih =>
    have hne : ¬ name = head.1 := fun h' => by
      have := h head (List.mem_cons_self ..)
      rw [h'] at this
      exact String.lt_irrefl _ this
    rw [lookup, if_neg hne]
    exact ih fun e he => h e (List.mem_cons_of_mem _ he)

theorem lookup_head (entry : String × α) (rest : List (String × α)) :
    lookup entry.1 (entry :: rest) = some entry.2 := if_pos rfl

/-- Ordered entries are determined by their answers. -/
theorem ext_lookup {a b : List (String × α)} (ha : Ordered a) (hb : Ordered b)
    (h : ∀ name, lookup name a = lookup name b) : a = b := by
  induction a generalizing b with
  | nil =>
    cases b with
    | nil => rfl
    | cons head rest =>
      have := h head.1
      rw [lookup_head] at this
      cases this
  | cons x xs ih =>
    cases b with
    | nil =>
      have := h x.1
      rw [lookup_head] at this
      cases this
    | cons y ys =>
      obtain ⟨hx, hxs⟩ := List.pairwise_cons.1 ha
      obtain ⟨hy, hys⟩ := List.pairwise_cons.1 hb
      have hname : x.1 = y.1 := by
        refine String.le_antisymm (String.not_lt.1 fun hlt => ?_) (String.not_lt.1 fun hlt => ?_)
        · have hnone : lookup y.1 (x :: xs) = none := lookup_eq_none fun e he => by
            rcases List.mem_cons.1 he with rfl | he
            · exact hlt
            · exact String.lt_trans hlt (hx e he)
          have := h y.1
          rw [hnone, lookup_head] at this
          cases this
        · have hnone : lookup x.1 (y :: ys) = none := lookup_eq_none fun e he => by
            rcases List.mem_cons.1 he with rfl | he
            · exact hlt
            · exact String.lt_trans hlt (hy e he)
          have := h x.1
          rw [hnone, lookup_head] at this
          cases this
      have hvalue : x.2 = y.2 := by
        have := h x.1
        rw [lookup_head, hname, lookup_head] at this
        exact Option.some.inj this
      have hrest : xs = ys := by
        refine ih hxs hys fun name => ?_
        by_cases hn : name = x.1
        · rw [hn, lookup_eq_none hx, hname, lookup_eq_none hy]
        · have := h name
          rwa [lookup, lookup, if_neg hn, if_neg (hname ▸ hn)] at this
      rw [hrest, Prod.ext hname hvalue]

end Entries

/-! ### Records -/

/-- A finite map from names to values. -/
structure Record (α : Type) where
  /-- The entries, in increasing order of their names. -/
  entries : List (String × α)
  ordered : Entries.Ordered entries
  deriving DecidableEq

namespace Record

variable {α β : Type}

/-- The record without entries. -/
def empty : Record α := ⟨[], List.Pairwise.nil⟩

instance : EmptyCollection (Record α) := ⟨empty⟩

instance : Inhabited (Record α) := ⟨empty⟩

/-- What the record holds under `name`. -/
def get? (r : Record α) (name : String) : Option α := Entries.lookup name r.entries

/-- Whether the record holds something under `name`. -/
def contains (r : Record α) (name : String) : Bool := (r.get? name).isSome

/-- The record with `value` under `name`. -/
def insert (r : Record α) (name : String) (value : α) : Record α :=
  ⟨Entries.insert name value r.entries, r.ordered.insert name value⟩

/-- The entries whose names satisfy `keep`. -/
def filter (r : Record α) (keep : String → Bool) : Record α :=
  ⟨r.entries.filter fun e => keep e.1, List.Pairwise.filter _ r.ordered⟩

/-- The record without `name`. -/
def erase (r : Record α) (name : String) : Record α :=
  r.filter fun other => decide (other ≠ name)

/-- The record with `f` applied to each value. -/
def map (f : String → α → β) (r : Record α) : Record β :=
  ⟨r.entries.map fun e => (e.1, f e.1 e.2), by
    have h := r.ordered
    exact List.pairwise_map.2 h⟩

/-- The record of a list of entries; of two entries with one name the later wins. -/
def ofList (entries : List (String × α)) : Record α :=
  entries.foldl (fun r e => r.insert e.1 e.2) empty

/-- The record with all entries of `other` written over it. -/
def merge (r other : Record α) : Record α :=
  other.entries.foldl (fun acc e => acc.insert e.1 e.2) r

/-- The names, in increasing order. -/
def names (r : Record α) : List String := r.entries.map (·.1)

/-- The number of entries. -/
def size (r : Record α) : Nat := r.entries.length

/-- Whether there are no entries. -/
def isEmpty (r : Record α) : Bool := r.entries.isEmpty

@[simp]
theorem get?_empty (name : String) : (empty : Record α).get? name = none := rfl

theorem get?_insert (r : Record α) (name other : String) (value : α) :
    (r.insert name value).get? other = if other = name then some value else r.get? other :=
  Entries.lookup_insert name other value r.entries

@[simp]
theorem get?_insert_self (r : Record α) (name : String) (value : α) :
    (r.insert name value).get? name = some value := by
  simp [get?_insert]

theorem get?_filter (r : Record α) (keep : String → Bool) (name : String) :
    (r.filter keep).get? name = if keep name then r.get? name else none :=
  Entries.lookup_filter keep name r.entries

theorem get?_erase (r : Record α) (name other : String) :
    (r.erase name).get? other = if other = name then none else r.get? other := by
  rw [erase, get?_filter]
  by_cases h : other = name <;> simp [h]

@[simp]
theorem get?_map (f : String → α → β) (r : Record α) (name : String) :
    (r.map f).get? name = (r.get? name).map (f name) :=
  Entries.lookup_map f name r.entries

/-- Records with the same answers are equal. -/
theorem ext_get? {a b : Record α} (h : ∀ name, a.get? name = b.get? name) : a = b := by
  have : a.entries = b.entries := Entries.ext_lookup a.ordered b.ordered h
  cases a
  cases b
  cases this
  rfl

end Record

end Dataflow
