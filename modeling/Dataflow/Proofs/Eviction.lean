/-
The cache stays within its bounds.

The order of a cache lists the keys of its entries, each once. Keeping a result adds at most one key
at the end, and eviction takes from the front as many keys as there are too many. So the order is
the queue of the entries, and no cache grows beyond its limit.

* `MemoCache.Lists.evict` — eviction drops the front of the queue;
* `MemoCache.Sound` — the order lists the entries, and there are not too many;
* `MemoCache.Sound.insert`, `MemoCache.Sound.size_insert_le` — what keeping a result does to it.
-/
import Mathlib
import Dataflow.MemoCache
import Dataflow.Proofs.Record
namespace Dataflow

namespace MemoCache

variable {order rest : List String} {oldest key : String} {entries : Record Outputs}
  {c : MemoCache}

/-! ### The queue of the keys -/

/-- The list has the keys of the entries, each once. -/
structure Lists (order : List String) (entries : Record Outputs) : Prop where
  nodup : order.Nodup
  mem_iff : ∀ key, key ∈ order ↔ entries.contains key = true

theorem Lists.size_eq (h : Lists order entries) : entries.size = order.length := by
  have hmem : ∀ key, key ∈ order ↔ key ∈ entries.names := by
    intro key
    rw [h.mem_iff, Record.mem_names]
  have hperm : order.Perm entries.names :=
    (List.perm_ext_iff_of_nodup h.nodup entries.ordered.nodup).2 hmem
  rw [hperm.length_eq, Record.names, List.length_map, Record.size]

private theorem Lists.erase_head (h : Lists (oldest :: rest) entries) :
    Lists rest (entries.erase oldest) := by
  obtain ⟨hnot, hnodup⟩ := List.nodup_cons.1 h.nodup
  refine ⟨hnodup, fun key => ?_⟩
  have hmem := h.mem_iff key
  rw [Record.contains] at hmem
  rw [Record.contains, Record.get?_erase]
  by_cases hkey : key = oldest
  · simp [hkey, hnot]
  · simpa [hkey] using hmem

/-- The queue after a result was kept and before eviction. -/
theorem Lists.insert (h : Lists order entries) (key : String) (outputs : Outputs) :
    Lists (if entries.contains key then order else order ++ [key])
      (entries.insert key outputs) := by
  have hcontains : ∀ other, (entries.insert key outputs).contains other = true ↔
      other = key ∨ other ∈ order := by
    intro other
    rw [h.mem_iff, Record.contains, Record.contains, Record.get?_insert]
    by_cases hother : other = key <;> simp [hother]
  split
  · rename_i hkey
    refine ⟨h.nodup, fun other => ?_⟩
    rw [hcontains]
    exact ⟨.inr, fun hor => hor.elim (fun heq => heq ▸ (h.mem_iff key).2 hkey) id⟩
  · rename_i hkey
    refine ⟨?_, fun other => ?_⟩
    · refine List.nodup_append.2 ⟨h.nodup, List.nodup_singleton key, ?_⟩
      rintro other hother _ hmem rfl
      exact hkey ((h.mem_iff _).1 (List.mem_singleton.1 hmem ▸ hother))
    · rw [hcontains, List.mem_append, List.mem_singleton, or_comm]

/-- **Eviction takes from the front of the queue** as many keys as there are too many. -/
theorem Lists.evict (h : Lists order entries) (max : UInt64) :
    Lists (evict max order entries).1 (MemoCache.evict max order entries).2 ∧
      (MemoCache.evict max order entries).1 = order.drop (order.length - max.toNat) := by
  induction order generalizing entries with
  | nil => exact ⟨h, List.drop_nil.symm⟩
  | cons oldest rest ih =>
    have hsize : entries.size = rest.length + 1 := h.size_eq
    rw [MemoCache.evict]
    split
    · obtain ⟨hlists, horder⟩ := ih h.erase_head
      refine ⟨hlists, ?_⟩
      rw [horder, show (oldest :: rest).length - max.toNat = rest.length - max.toNat + 1 by
        simp only [List.length_cons]
        omega]
      rfl
    · refine ⟨h, ?_⟩
      rw [show (oldest :: rest).length - max.toNat = 0 by
        simp only [List.length_cons]
        omega]
      rfl

/-! ### Sound caches -/

/-- The order lists the entries, and there are not too many. -/
structure Sound (c : MemoCache) : Prop where
  lists : Lists c.order c.entries
  size_le : c.size ≤ c.max.toNat

theorem Sound.clear (c : MemoCache) : c.clear.Sound := by
  refine ⟨⟨List.nodup_nil, fun key => ?_⟩, Nat.zero_le _⟩
  show key ∈ [] ↔ (Record.empty : Record Outputs).contains key = true
  simp [Record.contains]

/-- The queue after a result was kept: one more key at the end, if it was not there, and what is too
much dropped at the front. -/
theorem order_insert (h : c.Sound) (key : String) (outputs : Outputs) :
    Lists (c.insert key outputs).order (c.insert key outputs).entries ∧
      (c.insert key outputs).order =
        let order := if c.entries.contains key then c.order else c.order ++ [key]
        order.drop (order.length - c.max.toNat) :=
  (h.lists.insert key outputs).evict c.max

theorem Sound.insert (h : c.Sound) (key : String) (outputs : Outputs) :
    (c.insert key outputs).Sound := by
  obtain ⟨hlists, horder⟩ := order_insert h key outputs
  refine ⟨hlists, ?_⟩
  rw [size, hlists.size_eq, horder, List.length_drop]
  show _ ≤ c.max.toNat
  omega

theorem Sound.size_insert_le (h : c.Sound) (key : String) (outputs : Outputs) :
    (c.insert key outputs).size ≤ c.size + 1 := by
  obtain ⟨hlists, horder⟩ := order_insert h key outputs
  have hlength : (if c.entries.contains key then c.order else c.order ++ [key]).length ≤
      c.order.length + 1 := by
    split <;> simp
  rw [size, size, hlists.size_eq, h.lists.size_eq, horder, List.length_drop]
  omega

end MemoCache

end Dataflow
