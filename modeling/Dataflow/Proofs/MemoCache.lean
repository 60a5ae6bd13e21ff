/-
Cache keys tell calls apart.

A key is the text of a call. As long as the name of a function does not itself look like the
beginning of one, the first mark in a key ends the name, and the texts that follow it determine
the arguments and the callbacks.

* `MemoCache.key_injective` — calls with one key are one call;
* `MemoCache.get?_insert` — what is found after an insertion was inserted or was there before.
-/
import Mathlib
import Dataflow.MemoCache
import Dataflow.Proofs.Json.Text
import Dataflow.Proofs.Record
namespace Dataflow

namespace MemoCache

/-! ### Keys -/

/-- What stands in a key between the name of the function and the members of the arguments. -/
def mark : List Char := [':', ':', '{']

/-- A text in which no mark occurs. -/
def Unmarked (name : String) : Prop := ¬ mark <:+: name.toList

instance (name : String) : Decidable (Unmarked name) :=
  inferInstanceAs (Decidable (¬ mark <:+: name.toList))

/-- A mark that follows a text stands at once or behind another mark. -/
theorem eq_nil_or_mark {before rest rest' : List Char}
    (h : mark ++ rest = before ++ (mark ++ rest')) :
    before = [] ∨ ∃ more, before = mark ++ more ∧ rest = more ++ (mark ++ rest') := by
  -- One or two characters of the mark cannot be its own beginning again.
  match before with
  | [] => exact .inl rfl
  | [c] =>
    simp only [mark, List.cons_append, List.nil_append, List.cons.injEq] at h
    exact absurd h.2.2.1 (by decide)
  | [c, d] =>
    simp only [mark, List.cons_append, List.nil_append, List.cons.injEq] at h
    exact absurd h.2.2.1 (by decide)
  | c :: d :: e :: more =>
    simp only [mark, List.cons_append, List.nil_append, List.cons.injEq] at h
    obtain ⟨rfl, rfl, rfl, hrest⟩ := h
    exact .inr ⟨more, rfl, hrest⟩

/-- A mark that follows a text stands further on only if there is a mark inside. -/
theorem eq_nil_of_mark {before rest rest' : List Char}
    (h : mark ++ rest = before ++ (mark ++ rest')) (hb : ¬ mark <:+: before) : before = [] := by
  rcases eq_nil_or_mark h with hnil | ⟨more, rfl, -⟩
  · exact hnil
  · exact absurd (List.prefix_append mark more).isInfix hb

private theorem append_mark_injective {name name' rest rest' : List Char} (hn : ¬ mark <:+: name)
    (hn' : ¬ mark <:+: name') (h : name ++ (mark ++ rest) = name' ++ (mark ++ rest')) :
    name = name' ∧ rest = rest' := by
  have heq : name = name' := by
    rcases List.append_eq_append_iff.1 h with ⟨between, rfl, hrest⟩ | ⟨between, rfl, hrest⟩
    · rw [eq_nil_of_mark hrest fun hb => hn' (hb.trans (List.suffix_append ..).isInfix),
        List.append_nil]
    · rw [eq_nil_of_mark hrest fun hb => hn (hb.trans (List.suffix_append ..).isInfix),
        List.append_nil]
  subst heq
  exact ⟨rfl, List.append_cancel_left (List.append_cancel_left h)⟩

/-- The end of a key: the callbacks, if there are any. -/
def keyTail (callbacks : Record Json) : List Char :=
  if callbacks.isEmpty then [] else mark ++ Json.memberChars callbacks.entries

theorem toList_key (function : String) (args callbacks : Record Json) :
    (key function args callbacks).toList =
      function.toList ++ (mark ++ (Json.memberChars args.entries ++ keyTail callbacks)) := by
  have hchars : ∀ r : Record Json,
      (Json.ofRecord r).text.toList = '{' :: Json.memberChars r.entries := by
    intro r
    rw [Json.text, String.toList_ofList, Json.ofRecord, Json.chars]
  rw [key, keyTail]
  split <;> simp [hchars, mark, String.toList_append]

/-- The arguments and the callbacks of a call can be told from what follows its name. -/
theorem keyTail_injective {args args' callbacks callbacks' : Record Json}
    (h : Json.memberChars args.entries ++ keyTail callbacks =
      Json.memberChars args'.entries ++ keyTail callbacks') :
    args = args' ∧ callbacks = callbacks' := by
  obtain ⟨hargs, htail⟩ := Json.memberChars_append _ _ h
  refine ⟨Record.ext_entries hargs, ?_⟩
  rw [keyTail, keyTail] at htail
  split at htail <;> split at htail
  · rw [Record.isEmpty_iff.1 ‹callbacks.isEmpty = true›,
      Record.isEmpty_iff.1 ‹callbacks'.isEmpty = true›]
  · cases htail
  · cases htail
  · have hmembers := List.append_cancel_left htail
    rw [← List.append_nil (Json.memberChars callbacks.entries),
      ← List.append_nil (Json.memberChars callbacks'.entries)] at hmembers
    exact Record.ext_entries (Json.memberChars_append _ _ hmembers).1

/-- **Calls with one key are one call**, when the names of their functions are unmarked. -/
theorem key_injective {function function' : String} {args args' callbacks callbacks' : Record Json}
    (hf : Unmarked function) (hf' : Unmarked function')
    (h : key function args callbacks = key function' args' callbacks') :
    function = function' ∧ args = args' ∧ callbacks = callbacks' := by
  have hlist := congrArg String.toList h
  rw [toList_key, toList_key] at hlist
  obtain ⟨hname, hrest⟩ := append_mark_injective hf hf' hlist
  obtain ⟨hargs, hcallbacks⟩ := keyTail_injective hrest
  exact ⟨String.toList_injective hname, hargs, hcallbacks⟩

/-! ### Entries -/

theorem lookup_of_some {c : MemoCache} {key : String} {outputs : Outputs}
    (h : c.entries.get? key = some outputs) :
    c.lookup key = (some outputs, { c with hits := c.hits + 1 }) := by
  rw [lookup, h]

theorem lookup_of_none {c : MemoCache} {key : String} (h : c.entries.get? key = none) :
    c.lookup key = (none, { c with misses := c.misses + 1 }) := by
  rw [lookup, h]

/-- Eviction only drops entries. -/
theorem get?_evict {max : UInt64} {order : List String} {entries : Record Outputs} {key : String}
    {outputs : Outputs} (h : (evict max order entries).2.get? key = some outputs) :
    entries.get? key = some outputs := by
  induction order generalizing entries with
  | nil => exact h
  | cons oldest rest ih =>
    rw [evict] at h
    split at h
    · have herase := ih h
      rw [Record.get?_erase] at herase
      split at herase
      · cases herase
      · exact herase
    · exact h

theorem get?_insert {c : MemoCache} {key other : String} {outputs found : Outputs}
    (h : (c.insert key outputs).entries.get? other = some found) :
    (other = key ∧ found = outputs) ∨ c.entries.get? other = some found := by
  have hinsert : (c.entries.insert key outputs).get? other = some found := get?_evict h
  rw [Record.get?_insert] at hinsert
  split at hinsert
  · exact .inl ⟨by assumption, (Option.some.inj hinsert).symm⟩
  · exact .inr hinsert

end MemoCache

end Dataflow
