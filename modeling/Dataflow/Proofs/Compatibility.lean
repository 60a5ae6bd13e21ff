/-
Which types are compatible.

The test for compatibility goes down the first type and then down the second, and at every level it
asks for a type that matches everything. What it finds out is told by the leaves of the two types,
and by nothing but their tags. So it treats both sides alike, and it does not see names, the parts
of arrays and objects, or how alternatives are ordered and nested.

* `ValueType.leaves` — what is reached through alternatives only;
* `ValueType.compatible_iff` — two types are compatible when a leaf of one matches a leaf of the
  other;
* `ValueType.Rearranged` — types that differ in what the test does not see;
* `ValueType.compatible_exact` — the test, and all that follows from it.
-/
import Mathlib
import Dataflow.ValueType
namespace Dataflow

namespace ValueType

/-- The leaves of a type: what is not an alternative and is reached through alternatives only. -/
def leaves : ValueType → List ValueType
  | .either left right _ => leaves left ++ leaves right
  | leaf => [leaf]

/-- Two leaves match when one of them matches everything or they have the same tag. -/
def Matches (x y : ValueType) : Prop := x.isWild = true ∨ y.isWild = true ∨ x.tag = y.tag

variable {a a' b b' x y : ValueType}

private theorem matches_self (x : ValueType) : x.Matches x := .inr (.inr rfl)

theorem Matches.symm (h : x.Matches y) : y.Matches x := by
  rcases h with hx | hy | htag
  · exact .inr (.inl hx)
  · exact .inl hy
  · exact .inr (.inr htag.symm)

private theorem leaves_ne_nil (a : ValueType) : a.leaves ≠ [] := by
  induction a with
  | plain | array | object => simp [leaves]
  | either left right name ihl ihr => simp [leaves, ihl]

private theorem exists_mem_leaves (a : ValueType) : ∃ x, x ∈ a.leaves :=
  List.exists_mem_of_ne_nil _ a.leaves_ne_nil

/-- A type that matches everything is its own leaf. -/
theorem leaves_of_isWild (h : b.isWild = true) : b.leaves = [b] := by
  cases b with
  | plain | array | object => rfl
  | either => cases h

/-! ### What the test decides -/

/-- The inner test looks for a leaf of the second type. -/
theorem compatibleLeaf_iff (x b : ValueType) :
    x.compatibleLeaf b = true ↔ ∃ y ∈ b.leaves, x.Matches y := by
  induction b with
  | plain | array | object => simp [compatibleLeaf, leaves, Matches, or_assoc]
  | either left right name ihl ihr =>
    simp only [compatibleLeaf, leaves, Bool.or_eq_true, List.mem_append, or_and_right, exists_or,
      ihl, ihr]
    -- The question whether `x` matches everything is asked once more than needed.
    refine ⟨fun h => ?_, fun h => h.elim (fun hl => .inl (.inr hl)) .inr⟩
    rcases h with (hwild | hleft) | hright
    · obtain ⟨y, hy⟩ := left.exists_mem_leaves
      exact .inl ⟨y, hy, .inl hwild⟩
    · exact .inl hleft
    · exact .inr hright

/-- **Types are compatible when they have leaves that match.** -/
theorem compatible_iff (a b : ValueType) :
    a.compatible b = true ↔ ∃ x ∈ a.leaves, ∃ y ∈ b.leaves, x.Matches y := by
  induction a with
  | plain | array | object => simp [compatible, leaves, compatibleLeaf_iff]
  | either left right name ihl ihr =>
    simp only [compatible, leaves, Bool.or_eq_true, List.mem_append, or_and_right, exists_or,
      ihl, ihr]
    refine ⟨fun h => ?_, fun h => h.elim (fun hl => .inl (.inr hl)) .inr⟩
    rcases h with (hwild | hleft) | hright
    · obtain ⟨x, hx⟩ := left.exists_mem_leaves
      refine .inl ⟨x, hx, b, ?_, .inr (.inl hwild)⟩
      rw [leaves_of_isWild hwild]
      exact List.mem_singleton_self b
    · exact .inl hleft
    · exact .inr hright

private theorem compatible_self (a : ValueType) : a.compatible a = true := by
  obtain ⟨x, hx⟩ := a.exists_mem_leaves
  exact (compatible_iff a a).2 ⟨x, hx, x, hx, matches_self x⟩

private theorem compatible_comm (a b : ValueType) : a.compatible b = b.compatible a := by
  have hswap : ∀ a b : ValueType, a.compatible b = true → b.compatible a = true := by
    intro a b h
    obtain ⟨x, hx, y, hy, hxy⟩ := (compatible_iff a b).1 h
    exact (compatible_iff b a).2 ⟨y, hy, x, hx, hxy.symm⟩
  exact Bool.eq_iff_iff.2 ⟨hswap a b, hswap b a⟩

/-! ### What the test does not see -/

/-- Types that become the same when names, the parts of arrays and objects, and the order and the
nesting of alternatives are forgotten, at every level of alternatives. -/
inductive Rearranged : ValueType → ValueType → Prop where
  | plain (kind : Plain) (name name' : Option String) :
    Rearranged (.plain kind name) (.plain kind name')
  | array (item item' : ValueType) (name name' : Option String) :
    Rearranged (.array item name) (.array item' name')
  | object (value value' : ValueType) (name name' : Option String) :
    Rearranged (.object value name) (.object value' name')
  | either {left left' right right' : ValueType} (name name' : Option String) :
    Rearranged left left' → Rearranged right right' →
    Rearranged (.either left right name) (.either left' right' name')
  | swap (left right : ValueType) (name : Option String) :
    Rearranged (.either left right name) (.either right left name)
  | nest (first second third : ValueType) (inner outer : Option String) :
    Rearranged (.either (.either first second inner) third outer)
      (.either first (.either second third inner) outer)
  | symm {a b : ValueType} : Rearranged a b → Rearranged b a
  | trans {a b c : ValueType} : Rearranged a b → Rearranged b c → Rearranged a c

/-- The tags of the leaves stay the same up to their order. -/
theorem Rearranged.tags (h : Rearranged a a') :
    (a.leaves.map tag).Perm (a'.leaves.map tag) := by
  induction h with
  | plain | array | object => exact .refl _
  | either name name' _ _ ihl ihr =>
    simp only [leaves, List.map_append]
    exact ihl.append ihr
  | swap left right name =>
    simp only [leaves, List.map_append]
    exact List.perm_append_comm
  | nest first second third inner outer =>
    simp only [leaves, List.append_assoc]
    exact .refl _
  | symm _ ih => exact ih.symm
  | trans _ _ ih ih' => exact ih.trans ih'

/-- A type matches everything by its tag. -/
theorem isWild_iff (x : ValueType) : x.isWild = true ↔ x.tag ∈ ["any", "auto"] := by
  cases x with
  | plain kind name => cases kind <;> simp [isWild, tag, Plain.tag]
  | array | object | either => simp [isWild, tag]

/-- Leaves are compared by their tags. -/
theorem matches_iff (x y : ValueType) : x.Matches y ↔
    x.tag ∈ ["any", "auto"] ∨ y.tag ∈ ["any", "auto"] ∨ x.tag = y.tag := by
  rw [Matches, isWild_iff, isWild_iff]

/-- What is found for one type is found for its rearrangements. -/
theorem Rearranged.compatible_left (h : Rearranged a a') (hab : a.compatible b = true) :
    a'.compatible b = true := by
  obtain ⟨x, hx, y, hy, hxy⟩ := (compatible_iff a b).1 hab
  obtain ⟨x', hx', htag⟩ := List.mem_map.1 (h.tags.mem_iff.1 (List.mem_map_of_mem hx))
  refine (compatible_iff a' b).2 ⟨x', hx', y, hy, ?_⟩
  rw [matches_iff, htag, ← matches_iff]
  exact hxy

private theorem Rearranged.compatible_eq (ha : Rearranged a a') (hb : Rearranged b b') :
    a'.compatible b' = a.compatible b := by
  have hleft : ∀ {a a' : ValueType}, Rearranged a a' → ∀ b, a'.compatible b = a.compatible b :=
    fun h b => Bool.eq_iff_iff.2 ⟨h.symm.compatible_left, h.compatible_left⟩
  rw [hleft ha, compatible_comm, hleft hb, compatible_comm]

/-- **Compatibility is decided by leaves and is symmetric.** Two types are compatible exactly when a
leaf of one matches a leaf of the other. So every type is compatible with itself, the two sides can
be exchanged, and neither names, the parts of arrays and objects nor the order and the nesting of
alternatives play a role, on either side. -/
theorem compatible_exact (a b : ValueType) :
    (a.compatible b = true ↔ ∃ x ∈ a.leaves, ∃ y ∈ b.leaves, x.Matches y) ∧
      a.compatible a = true ∧ a.compatible b = b.compatible a ∧
      ∀ a' b', Rearranged a a' → Rearranged b b' → a'.compatible b' = a.compatible b :=
  ⟨compatible_iff a b, compatible_self a, compatible_comm a b, fun _ _ => Rearranged.compatible_eq⟩

/-- Numbers or texts or nothing, nested and named in two ways, against arrays or nothing. -/
theorem compatible_exact_alternatives :
    let a := ValueType.either (oneOf num string) nil (some "A")
    let a' := ValueType.either (oneOf nil (string.named "S")) num none
    let b := oneOf (arrayOf num) nil
    let b' := (oneOf nil (arrayOf string)).named "B"
    Rearranged a a' ∧ Rearranged b b' ∧ a'.compatible b' = true := by
  intro a a' b b'
  have ha : Rearranged a a' := by
    have hnested : Rearranged a (.either num (oneOf string nil) (some "A")) := .nest ..
    have hswapped : Rearranged (oneOf string nil) (oneOf nil (string.named "S")) :=
      (Rearranged.swap ..).trans (.either _ _ (.plain ..) (.plain ..))
    exact (hnested.trans (.either _ none (.plain _ _ none) hswapped)).trans (.swap ..)
  have hb : Rearranged b b' :=
    (Rearranged.swap ..).trans (.either _ _ (.plain ..) (.array ..))
  exact ⟨ha, hb, ((compatible_exact a b).2.2.2 a' b' ha hb).trans (by decide)⟩

end ValueType

end Dataflow
