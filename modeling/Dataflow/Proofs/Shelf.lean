/-
The cache is a shelf of limited length.

A cache keeps its results and the order of their keys apart. Read as one list, each key with its
result, it is a shelf: a new result is put at the end, and when there is no room the first one is
taken away; a result for a key that is there takes the place of the old one. Whatever was done to a
cache before, order and entries go together, so what is found under a key can be told from the
history alone: it is what was kept there last, provided that the key has not been dropped since.

* `Shelf.keep` — keep a result on a shelf with room for `max` results;
* `MemoCache.Operation.onShelf` — what each operation is on the shelf;
* `MemoCache.Sound.toList_after` — on a sound cache, it is just that;
* `MemoCache.KeptSince` — what the history says is under a key;
* `MemoCache.shelf_afterAll` — every sequence of operations.
-/
import Mathlib
import Dataflow.Proofs.Eviction
import Dataflow.Proofs.MemoCache
namespace Dataflow

/-! ### Shelves -/

/-- Results with their keys, the oldest first. -/
abbrev Shelf := List (String × Outputs)

namespace Shelf

variable {l : Shelf} {max : Nat} {key : String}

/-- The keys of a shelf. -/
def keys (l : Shelf) : List String := l.map (·.1)

/-- Put a result in the place of the one that has its key, or at the end; if there is no room for
one more, the first result goes. -/
def keep (max : Nat) (key : String) (outputs : Outputs) (l : Shelf) : Shelf :=
  if key ∈ l.keys then l.map fun e => if e.1 = key then (key, outputs) else e
  else if l.length < max then l ++ [(key, outputs)]
  else (l ++ [(key, outputs)]).tail

/-- A key that is there keeps its place. -/
theorem keys_keep_of_mem (h : key ∈ l.keys) (outputs : Outputs) :
    (l.keep max key outputs).keys = l.keys := by
  rw [keep, if_pos h, keys, keys, List.map_map]
  refine List.map_congr_left fun e _ => ?_
  show (if e.1 = key then (key, outputs) else e).1 = e.1
  split
  · rename_i he
    exact he.symm
  · rfl

private theorem keep_of_not_mem (h : key ∉ l.keys) (hl : l.length ≤ max) (outputs : Outputs) :
    l.keep max key outputs = (l ++ [(key, outputs)]).drop (l.length + 1 - max) := by
  rw [keep, if_neg h]
  split
  · rename_i hroom
    rw [show l.length + 1 - max = 0 by omega, List.drop_zero]
  · rename_i hfull
    rw [show l.length + 1 - max = 1 by omega, List.drop_one]

/-- What is on the shelf afterwards is the new result, or was there under another key. -/
theorem mem_keep {outputs : Outputs} {e : String × Outputs} (h : e ∈ l.keep max key outputs) :
    e = (key, outputs) ∨ e.1 ≠ key ∧ e ∈ l := by
  by_cases hkey : key ∈ l.keys
  · rw [keep, if_pos hkey] at h
    obtain ⟨held, hheld, rfl⟩ := List.mem_map.1 h
    split
    · exact .inl rfl
    · rename_i hne
      exact .inr ⟨hne, hheld⟩
  · have hmem : e ∈ l ++ [(key, outputs)] := by
      rw [keep, if_neg hkey] at h
      split at h
      · exact h
      · exact List.mem_of_mem_tail h
    rcases List.mem_append.1 hmem with hheld | hnew
    · refine .inr ⟨fun heq => hkey ?_, hheld⟩
      exact heq ▸ List.mem_map.2 ⟨e, hheld, rfl⟩
    · exact .inl (List.mem_singleton.1 hnew)

/-- All keys but the first stay. -/
theorem tail_subset_keep (key : String) (outputs : Outputs) (l : Shelf) :
    l.keys.tail ⊆ (l.keep max key outputs).keys := by
  intro other hother
  by_cases hkey : key ∈ l.keys
  · rw [keys_keep_of_mem hkey]
    exact List.mem_of_mem_tail hother
  · rw [keep, if_neg hkey]
    split
    · rw [keys, List.map_append]
      exact List.mem_append_left _ (List.mem_of_mem_tail hother)
    · rcases l with _ | ⟨first, rest⟩
      · simp [keys] at hother
      · rw [List.cons_append, List.tail_cons, keys, List.map_append]
        exact List.mem_append_left _ hother

/-- So at most one is lost. -/
theorem length_lost_le (key : String) (outputs : Outputs) (l : Shelf) :
    (l.keys.filter fun other => other ∉ (l.keep max key outputs).keys).length ≤ 1 := by
  have htail : l.keys.tail ⊆ (l.keep max key outputs).keys := tail_subset_keep key outputs l
  generalize (l.keep max key outputs).keys = kept at htail
  cases hkeys : l.keys with
  | nil => simp
  | cons first rest =>
    rw [hkeys, List.tail_cons] at htail
    have hnone : rest.filter (fun other => decide (other ∉ kept)) = [] :=
      List.filter_eq_nil_iff.2 fun other hother => by simp [htail hother]
    rw [List.filter_cons, hnone]
    split <;> simp

end Shelf

/-! ### Operations -/

namespace MemoCache

/-- What can be done to a cache. -/
inductive Operation where
  | allow (function : String)
  | lookup (key : String)
  | insert (key : String) (outputs : Outputs)
  | clear

/-- The cache after an operation. -/
def after (c : MemoCache) : Operation → MemoCache
  | .allow function => c.allow function
  | .lookup key => (c.lookup key).2
  | .insert key outputs => c.insert key outputs
  | .clear => c.clear

/-- The cache after a sequence of operations. -/
def afterAll (c : MemoCache) (operations : List Operation) : MemoCache :=
  operations.foldl after c

/-- What an operation does to a shelf with room for `max` results. -/
def Operation.onShelf (max : Nat) (l : Shelf) : Operation → Shelf
  | .allow _ | .lookup _ => l
  | .insert key outputs => l.keep max key outputs
  | .clear => []

variable {c : MemoCache} {key : String} {outputs : Outputs}

theorem afterAll_concat (c : MemoCache) (operations : List Operation) (operation : Operation) :
    c.afterAll (operations ++ [operation]) = (c.afterAll operations).after operation := by
  rw [afterAll, List.foldl_append]
  rfl

/-- Looking a key up counts, and changes nothing else. -/
theorem lookup_eq (c : MemoCache) (key : String) :
    c.lookup key = (c.entries.get? key, if (c.entries.get? key).isSome
      then { c with hits := c.hits + 1 } else { c with misses := c.misses + 1 }) := by
  cases h : c.entries.get? key with
  | some outputs => exact lookup_of_some h
  | none => exact lookup_of_none h

/-! ### Sound caches -/

theorem Sound.ofConfig (config : CacheConfig) : (MemoCache.ofConfig config).Sound :=
  Sound.clear (MemoCache.ofConfig config)

/-- The counters and the allowed functions do not matter. -/
theorem Sound.of_eq (h : c.Sound) {c' : MemoCache} (hmax : c'.max = c.max)
    (horder : c'.order = c.order) (hentries : c'.entries = c.entries) : c'.Sound := by
  constructor
  · rw [horder, hentries]
    exact h.lists
  · rw [size, hentries, hmax]
    exact h.size_le

theorem Sound.after (h : c.Sound) (operation : Operation) : (c.after operation).Sound := by
  cases operation with
  | allow function => exact h.of_eq rfl rfl rfl
  | lookup key =>
    rw [MemoCache.after, lookup_eq]
    split <;> exact h.of_eq rfl rfl rfl
  | insert key outputs => exact h.insert key outputs
  | clear => exact .clear c

private theorem max_after (c : MemoCache) (operation : Operation) :
    (c.after operation).max = c.max := by
  cases operation with
  | allow function => rfl
  | lookup key =>
    rw [after, lookup_eq]
    split <;> rfl
  | insert key outputs => rfl
  | clear => rfl

/-- What is kept under a key after an insertion: the new result, or what was there, unless the key
was dropped. -/
theorem Sound.get?_insert (h : c.Sound) (key other : String) (outputs : Outputs) :
    (c.insert key outputs).entries.get? other =
      if other ∈ (c.insert key outputs).order then
        if other = key then some outputs else c.entries.get? other
      else none := by
  have hlists := (order_insert h key outputs).1
  split
  · rename_i hmem
    obtain ⟨found, hfound⟩ := Record.contains_eq_true.1 ((hlists.mem_iff other).1 hmem)
    have hbefore : (c.entries.insert key outputs).get? other = some found := get?_evict hfound
    rw [hfound, ← hbefore, Record.get?_insert]
  · rename_i hmem
    rw [hlists.mem_iff, Bool.not_eq_true] at hmem
    exact Record.contains_eq_false.1 hmem

/-- The list of a cache is known from its keys and their results. -/
theorem toList_eq {l : Shelf} (horder : c.order = l.keys)
    (hget : ∀ e ∈ l, c.entries.get? e.1 = some e.2) : c.toList = l := by
  rw [toList, horder, Shelf.keys, List.filterMap_map]
  have hself : ∀ e ∈ l, ((fun key => (c.entries.get? key).map fun outputs => (key, outputs)) ∘
      (·.1)) e = some e := by
    intro e he
    simp [hget e he]
  rw [List.filterMap_congr hself, List.filterMap_some]

private theorem Sound.keys_toList (h : c.Sound) : Shelf.keys c.toList = c.order := by
  have hall : ∀ key ∈ c.order, ∃ outputs, c.entries.get? key = some outputs := by
    intro key hkey
    exact Record.contains_eq_true.1 ((h.lists.mem_iff key).1 hkey)
  rw [toList]
  generalize c.order = keys at hall
  induction keys with
  | nil => rfl
  | cons key rest ih =>
    obtain ⟨outputs, houtputs⟩ := hall key (List.mem_cons_self ..)
    have hrest := ih fun other hother => hall other (List.mem_cons_of_mem _ hother)
    rw [Shelf.keys] at hrest
    rw [List.filterMap_cons, houtputs, Shelf.keys]
    simp [hrest]

theorem Sound.mem_toList (h : c.Sound) :
    (key, outputs) ∈ c.toList ↔ c.entries.get? key = some outputs := by
  rw [toList, List.mem_filterMap]
  constructor
  · rintro ⟨other, -, hother⟩
    obtain ⟨found, hfound, heq⟩ := Option.map_eq_some_iff.1 hother
    cases heq
    exact hfound
  · intro hget
    refine ⟨key, (h.lists.mem_iff key).2 (Record.contains_eq_true.2 ⟨outputs, hget⟩), ?_⟩
    simp [hget]

theorem Sound.length_toList (h : c.Sound) : c.toList.length = c.size := by
  have hkeys := congrArg List.length h.keys_toList
  rw [Shelf.keys, List.length_map] at hkeys
  rw [hkeys, size, h.lists.size_eq]

/-- **Keeping a result is keeping it on the shelf.** -/
theorem Sound.toList_insert (h : c.Sound) (key : String) (outputs : Outputs) :
    (c.insert key outputs).toList = Shelf.keep c.max.toNat key outputs c.toList := by
  obtain ⟨-, horder⟩ := order_insert h key outputs
  have hkeys := h.keys_toList
  have hlength : c.toList.length ≤ c.max.toNat := h.length_toList ▸ h.size_le
  have hcontains : c.entries.contains key = true ↔ key ∈ Shelf.keys c.toList := by
    rw [hkeys, h.lists.mem_iff]
  have hnew : (c.insert key outputs).order =
      (Shelf.keep c.max.toNat key outputs c.toList).keys := by
    rw [horder]
    by_cases hkey : key ∈ Shelf.keys c.toList
    · have hle : c.order.length - c.max.toNat = 0 := by
        rw [← hkeys, Shelf.keys, List.length_map]
        omega
      rw [if_pos (hcontains.2 hkey), Shelf.keys_keep_of_mem hkey, hkeys]
      simp [hle]
    · rw [if_neg (mt hcontains.1 hkey), Shelf.keep_of_not_mem hkey hlength, ← hkeys]
      simp [Shelf.keys]
  refine toList_eq hnew fun e he => ?_
  have hmem : e.1 ∈ (c.insert key outputs).order := by
    rw [hnew]
    exact List.mem_map.2 ⟨e, he, rfl⟩
  rw [h.get?_insert, if_pos hmem]
  rcases Shelf.mem_keep he with rfl | ⟨hne, hheld⟩
  · exact if_pos rfl
  · rw [if_neg hne]
    exact h.mem_toList.1 hheld

/-- **An operation on a sound cache is the operation on its shelf.** -/
theorem Sound.toList_after (h : c.Sound) (operation : Operation) :
    (c.after operation).toList = operation.onShelf c.max.toNat c.toList := by
  cases operation with
  | allow function => rfl
  | lookup key =>
    rw [MemoCache.after, lookup_eq]
    split <;> rfl
  | insert key outputs => exact h.toList_insert key outputs
  | clear => rfl

/-- So is a sequence of operations. -/
theorem Sound.toList_afterAll (h : c.Sound) (operations : List Operation) :
    (c.afterAll operations).Sound ∧ (c.afterAll operations).max = c.max ∧
      (c.afterAll operations).toList =
        operations.foldl (Operation.onShelf c.max.toNat) c.toList := by
  induction operations generalizing c with
  | nil => exact ⟨h, rfl, rfl⟩
  | cons operation rest ih =>
    obtain ⟨hsound, hmax, hlist⟩ := ih (h.after operation)
    rw [max_after] at hmax hlist
    rw [h.toList_after] at hlist
    exact ⟨hsound, hmax, hlist⟩

/-! ### What the history says -/

/-- The result was kept under the key, nothing was kept there afterwards, and since then the key has
been in the cache all the time. -/
def KeptSince (c : MemoCache) (operations : List Operation) (key : String) (outputs : Outputs) :
    Prop :=
  ∃ before later, operations = before ++ .insert key outputs :: later ∧
    (∀ other, .insert key other ∉ later) ∧
    ∀ done, done <+: later →
      (c.afterAll (before ++ .insert key outputs :: done)).entries.contains key = true

/-- One more operation: it has kept the result itself, or has kept nothing there. -/
theorem keptSince_concat {operations : List Operation} {operation : Operation} :
    c.KeptSince (operations ++ [operation]) key outputs ↔
      (c.afterAll (operations ++ [operation])).entries.contains key = true ∧
        (operation = .insert key outputs ∨
          (∀ other, operation ≠ .insert key other) ∧ c.KeptSince operations key outputs) := by
  constructor
  · rintro ⟨before, later, heq, hlater, hpresent⟩
    have hnow := hpresent later (List.prefix_refl later)
    rw [← heq] at hnow
    refine ⟨hnow, ?_⟩
    rcases List.eq_nil_or_concat later with rfl | ⟨done, last, rfl⟩
    · obtain ⟨-, hlast⟩ := List.append_inj' heq rfl
      exact .inl (List.singleton_inj.1 hlast)
    · rw [List.concat_eq_append] at heq hlater hpresent
      rw [← List.cons_append, ← List.append_assoc] at heq
      obtain ⟨hdone, hlast⟩ := List.append_inj' heq rfl
      rw [List.singleton_inj.1 hlast]
      refine .inr ⟨fun other hother => hlater other (by simp [hother]), before, done, hdone, ?_, ?_⟩
      · exact fun other hother => hlater other (List.mem_append_left _ hother)
      · exact fun part hpart => hpresent part (hpart.trans (List.prefix_append ..))
  · rintro ⟨hnow, rfl | ⟨hother, before, later, rfl, hlater, hpresent⟩⟩
    · refine ⟨operations, [], rfl, by simp, fun done hdone => ?_⟩
      rw [List.prefix_nil.1 hdone]
      exact hnow
    · refine ⟨before, later ++ [operation], by simp, fun other hmem => ?_, fun done hdone => ?_⟩
      · rcases List.mem_append.1 hmem with hmem | hmem
        · exact hlater other hmem
        · exact hother other (List.mem_singleton.1 hmem).symm
      · rcases List.prefix_concat_iff.1 hdone with rfl | hdone
        · rw [← List.cons_append, ← List.append_assoc]
          exact hnow
        · exact hpresent done hdone

/-- The operation has left the result under the key: it has kept it itself, or has found it. -/
def Operation.Leaves (operation : Operation) (c : MemoCache) (key : String) (outputs : Outputs) :
    Prop :=
  (c.after operation).entries.contains key = true ∧
    (operation = .insert key outputs ∨
      (∀ other, operation ≠ .insert key other) ∧ c.entries.get? key = some outputs)

/-- An operation that changes no entry leaves what it finds. -/
theorem get?_after_of_entries_eq {operation : Operation}
    (hentries : (c.after operation).entries = c.entries)
    (hother : ∀ other, operation ≠ .insert key other) :
    (c.after operation).entries.get? key = some outputs ↔ operation.Leaves c key outputs := by
  rw [Operation.Leaves, hentries]
  constructor
  · intro hget
    exact ⟨Record.contains_eq_true.2 ⟨outputs, hget⟩, .inr ⟨hother, hget⟩⟩
  · rintro ⟨-, heq | ⟨-, hget⟩⟩
    · exact absurd heq (hother outputs)
    · exact hget

private theorem Sound.get?_after (h : c.Sound) (operation : Operation) :
    (c.after operation).entries.get? key = some outputs ↔ operation.Leaves c key outputs := by
  cases operation with
  | allow function => exact get?_after_of_entries_eq rfl (by simp)
  | lookup other =>
    refine get?_after_of_entries_eq ?_ (by simp)
    rw [MemoCache.after, lookup_eq]
    split <;> rfl
  | clear =>
    have hnone : (c.after .clear).entries.get? key = none := rfl
    simp [Operation.Leaves, Record.contains, hnone]
  | insert other kept =>
    have hlists := (order_insert h other kept).1
    rw [Operation.Leaves, MemoCache.after, ← hlists.mem_iff, h.get?_insert]
    by_cases hmem : key ∈ (c.insert other kept).order
    · by_cases hkey : key = other
      · subst hkey
        simp [hmem]
      · simp [hmem, hkey, Ne.symm hkey]
    · simp [hmem]

/-- **What is found under a key is what was kept there last**, if the key has been in the cache ever
since. -/
theorem get?_afterAll (config : CacheConfig) (operations : List Operation) (key : String)
    (outputs : Outputs) :
    ((ofConfig config).afterAll operations).entries.get? key = some outputs ↔
      (ofConfig config).KeptSince operations key outputs := by
  induction operations using List.reverseRecOn with
  | nil => simp [KeptSince, afterAll, ofConfig]
  | append_singleton operations operation ih =>
    have hsound := ((Sound.ofConfig config).toList_afterAll operations).1
    rw [keptSince_concat, afterAll_concat, hsound.get?_after, Operation.Leaves, ih]

/-! ### Reading a cache -/

/-- All that can be asked of the entries of a cache is read off the shelf. -/
structure Shows (c : MemoCache) (l : Shelf) : Prop where
  toList : c.toList = l
  order : c.order = l.keys
  nodup : l.keys.Nodup
  get? : ∀ key, c.entries.get? key = Entries.lookup key l
  mem_order : ∀ key, key ∈ c.order ↔ c.entries.contains key = true
  size : c.size = l.length
  length_le : l.length ≤ c.max.toNat

theorem Sound.shows (h : c.Sound) : c.Shows c.toList := by
  have horder : c.order = Shelf.keys c.toList := h.keys_toList.symm
  have hnodup : (Shelf.keys c.toList).Nodup := horder ▸ h.lists.nodup
  refine ⟨rfl, horder, hnodup, fun key => Option.ext fun outputs => ?_, h.lists.mem_iff,
    h.length_toList.symm, ?_⟩
  · rw [← h.mem_toList]
    exact ⟨Entries.lookup_of_mem hnodup, Entries.mem_of_lookup⟩
  · rw [h.length_toList]
    exact h.size_le

/-- **The cache is a shelf of limited length.** After any sequence of operations on a new cache,
order and entries have the same keys, each once, and no more of them than the limit; and the cache
shows the shelf on which the same results were kept. Keeping a result changes the shelf by
`Shelf.keep`, so that at most one key is lost, and nothing but the shelf. Looking a key up gives
what was kept there last, if the key has been in the cache ever since, and raises one of the two
counters. Clearing leaves only the limit and the allowed functions. -/
theorem shelf_afterAll (config : CacheConfig) (operations : List Operation) :
    let c := (ofConfig config).afterAll operations
    c.max = config.max ∧
      c.Shows (operations.foldl (Operation.onShelf config.max.toNat) []) ∧
      (∀ key outputs, let kept := c.insert key outputs
        kept.Shows (Shelf.keep config.max.toNat key outputs c.toList) ∧
          (c.order.filter fun other => other ∉ kept.order).length ≤ 1 ∧
          kept = { c with order := kept.order, entries := kept.entries }) ∧
      (∀ key, let found := (c.lookup key).1
        (∀ outputs, found = some outputs ↔ (ofConfig config).KeptSince operations key outputs) ∧
          (c.lookup key).2 = if found.isSome then { c with hits := c.hits + 1 }
            else { c with misses := c.misses + 1 }) ∧
      c.clear.Shows [] ∧ c.clear.hits = 0 ∧ c.clear.misses = 0 ∧ c.clear.max = c.max ∧
        c.clear.allowed = c.allowed := by
  intro c
  obtain ⟨hc, hmax, hlist⟩ := (Sound.ofConfig config).toList_afterAll operations
  refine ⟨hmax, ?_, fun key outputs => ?_, fun key => ?_, (Sound.clear c).shows, rfl, rfl, rfl, rfl⟩
  · have hshows := hc.shows
    rwa [hlist] at hshows
  · intro kept
    have hkept : kept.toList = Shelf.keep config.max.toNat key outputs c.toList := by
      rw [← show c.max = config.max from hmax]
      exact hc.toList_insert key outputs
    have hshows := (hc.insert key outputs).shows
    rw [show (c.insert key outputs).toList = _ from hkept] at hshows
    refine ⟨hshows, ?_, rfl⟩
    rw [hshows.order, ← hc.keys_toList]
    exact Shelf.length_lost_le key outputs c.toList
  · rw [lookup_eq]
    exact ⟨get?_afterAll config operations key, rfl⟩

end MemoCache

end Dataflow
