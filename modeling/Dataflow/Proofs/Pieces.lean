/-
Pieces of arrays.

Any number can stand for a position in an array: it is rounded toward zero and forced between zero
and the length. So the piece that two positions ask for always exists, however far off they are. The
pieces at the start determine all others: what lies between two positions is what the longer of two
such pieces has more than the shorter, and a piece at the end is a piece at the start of the array
in opposite order.

* `Dyadic.whole_eq_floor` — the whole part of a double is the floor of its size;
* `Library.clamp_eq` — a position is its whole part, or the length if that is less;
* `Library.sliceStart_append_slice`, `Library.sliceEnd_eq_reverse` — how pieces fit together;
* `Library.pieces_fit` — the functions that cut pieces out of arrays.
-/
import Mathlib
import Dataflow.Proofs.Completion
import Dataflow.Proofs.Decimal.Rounding
import Dataflow.Proofs.Library
namespace Dataflow

/-! ### Positions -/

theorem Dyadic.whole_eq_floor (d : Dyadic) : d.whole = ⌊d.value⌋₊ := by
  have hvalue : d.value =
      ((d.mantissa * 2 ^ d.exponent.toNat : ℕ) : ℚ) / ((2 ^ (-d.exponent).toNat : ℕ) : ℚ) := by
    rw [value]
    push_cast
    rw [pow_toNat (by norm_num) d.exponent, ← mul_assoc, mul_div_cancel_right₀ _ (by positivity)]
  rw [hvalue, Nat.floor_div_eq_div, whole, Nat.pow_eq, Nat.pow_eq]

namespace Integral

/-- A double that is smaller than another is not larger. -/
theorem le_of_lt {x y : Float} (h : x < y) : x ≤ y := by
  have hlt : (x.toModel.unpack.compare y.toModel.unpack == some .lt) = true := of_decide_eq_true h
  refine decide_eq_true (p := x.toModel ≤ y.toModel) ?_
  show (x.toModel.unpack.compare y.toModel.unpack).any Ordering.isLE = true
  rw [eq_of_beq hlt]
  rfl

private theorem toNat_truncate_of_not_le {x : Float} (h : ¬ x ≤ 0.0) :
    (truncate x).toNat = ⌊(Dyadic.ofBits x.toBits).value⌋₊ := by
  rw [truncate, if_neg fun hlt => h (le_of_lt hlt), Int.toNat_natCast, Dyadic.whole_eq_floor]

end Integral

namespace Library

variable {items : List Json}

private theorem clamp_le (position : Float) (length : Nat) : clamp position length ≤ length := by
  rw [clamp]
  split
  · exact Nat.zero_le _
  · exact Nat.min_le_right _ _

/-- **A position is a number without its fraction**, forced between zero and the length. -/
theorem clamp_eq (position : Float) (length : Nat) :
    clamp position length =
      if position.isNaN ∨ position ≤ 0.0 then 0
      else min ⌊(Dyadic.ofBits position.toBits).value⌋₊ length := by
  rw [clamp]
  by_cases hstart : position.isNaN = true ∨ position ≤ 0.0
  · rw [if_pos hstart, if_pos (by simpa using hstart)]
  · rw [if_neg hstart, if_neg (by simpa using hstart)]
    rw [Integral.toNat_truncate_of_not_le fun hle => hstart (.inr hle)]

/-! ### Pieces -/

private theorem length_sliceStart (items : List Json) (x : Float) :
    (sliceStart items x).length = clamp x items.length := by
  rw [sliceStart, List.length_take, Nat.min_eq_left (clamp_le x _)]

private theorem length_sliceEnd (items : List Json) (x : Float) :
    (sliceEnd items x).length = clamp x items.length := by
  have hle := clamp_le x items.length
  rw [sliceEnd, List.length_drop]
  omega

private theorem length_slice (items : List Json) (x y : Float) :
    (slice items x y).length = clamp y items.length - clamp x items.length := by
  have hle := clamp_le y items.length
  rw [slice]
  split
  · rw [List.length_drop, List.length_take, Nat.min_eq_left hle]
  · rw [List.length_nil]
    omega

/-- What lies between two positions leads from the items before the first to those before the
second. -/
theorem sliceStart_append_slice {x y : Float}
    (h : clamp x items.length < clamp y items.length) :
    sliceStart items x ++ slice items x y = sliceStart items y := by
  have htake : items.take (clamp x items.length) =
      (items.take (clamp y items.length)).take (clamp x items.length) := by
    rw [List.take_take, Nat.min_eq_left h.le]
  rw [sliceStart, sliceStart, slice, if_pos h, htake, List.take_append_drop]

theorem sliceEnd_eq_reverse (items : List Json) (x : Float) :
    sliceEnd items x = (sliceStart items.reverse x).reverse := by
  rw [sliceEnd, sliceStart, List.length_reverse, List.take_reverse, List.reverse_reverse]

/-! ### The functions of the library -/

/-- A function of an array and a number. -/
theorem gives_indexed (name : String) {key : String} (hkey : "arr" ≠ key) (output : Param)
    (f : List Json → Float → Json)
    (hname : catalog.get? name = some (.native (indexed name key output f).signature
      (indexed name key output f).runner)) (items : List Json) (n : Number) :
    catalog.Gives name [("arr", .array items), (key, .number n)] output.name
      (f items n.toFloat) := by
  have hd : ([("arr", Json.array items), (key, .number n)].map (·.1)).Nodup := by simp [hkey]
  have hitems := Record.get?_ofList_of_mem hd (.head _)
  have hn := Record.get?_ofList_of_mem hd (.tail _ (.head _))
  refine Catalog.gives_of_plain hname ?_
  simp only [array_of_get? hitems, number_of_get? hn]
  rfl

private theorem gives_sliceStart (items : List Json) (n : Number) :
    catalog.Gives "array.sliceStart" [("arr", .array items), ("len", .number n)] "subArray"
      (.array (sliceStart items n.toFloat)) :=
  gives_indexed "array.sliceStart" (by decide) ⟨"subArray", itemArray⟩
    (fun items n => .array (sliceStart items n)) rfl items n

private theorem gives_sliceEnd (items : List Json) (n : Number) :
    catalog.Gives "array.sliceEnd" [("arr", .array items), ("len", .number n)] "subArray"
      (.array (sliceEnd items n.toFloat)) :=
  gives_indexed "array.sliceEnd" (by decide) ⟨"subArray", itemArray⟩
    (fun items n => .array (sliceEnd items n)) rfl items n

private theorem gives_slice (items : List Json) (p q : Number) :
    catalog.Gives "array.slice" [("arr", .array items), ("from", .number p), ("to", .number q)]
      "subArray" (.array (slice items p.toFloat q.toFloat)) := by
  have hname : catalog.get? "array.slice" =
      some (.native arraySlice.signature arraySlice.runner) := rfl
  have hd : ([("arr", Json.array items), ("from", .number p), ("to", .number q)].map
      (·.1)).Nodup := by simp
  have hitems := Record.get?_ofList_of_mem hd (.head _)
  have hp := Record.get?_ofList_of_mem hd (.tail _ (.head _))
  have hq := Record.get?_ofList_of_mem hd (.tail _ (.tail _ (.head _)))
  refine Catalog.gives_of_plain hname ?_
  simp only [array_of_get? hitems, number_of_get? hp, number_of_get? hq]
  rfl

private theorem gives_reverse (items : List Json) :
    catalog.Gives "array.reverse" [("arr", .array items)] "arr" (.array items.reverse) := by
  have hname : catalog.get? "array.reverse" =
      some (.native arrayReverse.signature arrayReverse.runner) := rfl
  have hitems : (Record.ofList [("arr", Json.array items)]).get? "arr" = some (.array items) :=
    Record.get?_insert_self ..
  refine Catalog.gives_of_plain hname ?_
  simp only [array_of_get? hitems]
  rfl

/-- **Pieces of arrays exist and fit together.** Every number is a position between zero and the
length. Two positions cut a piece out of an array; it is empty if the second is not behind the
first, and otherwise it leads from the items before the first position to those before the second.
The last items are the first ones of the array in opposite order. No piece is shorter than what its
positions ask for. -/
theorem pieces_fit (items : List Json) (p q n : Number) :
    let start := clamp p.toFloat items.length
    let stop := clamp q.toFloat items.length
    let count := clamp n.toFloat items.length
    (∀ (position : Float) (length : Nat), clamp position length ≤ length ∧
      clamp position length = if position.isNaN ∨ position ≤ 0.0 then 0
        else min ⌊(Dyadic.ofBits position.toBits).value⌋₊ length) ∧
    (∃ before piece upTo : List Json,
      catalog.Gives "array.sliceStart" [("arr", .array items), ("len", .number p)] "subArray"
        (.array before) ∧
      catalog.Gives "array.slice" [("arr", .array items), ("from", .number p), ("to", .number q)]
        "subArray" (.array piece) ∧
      catalog.Gives "array.sliceStart" [("arr", .array items), ("len", .number q)] "subArray"
        (.array upTo) ∧
      before.length = start ∧ piece.length = stop - start ∧ upTo.length = stop ∧
      (stop ≤ start → piece = []) ∧ (start < stop → before ++ piece = upTo)) ∧
    ∃ last first : List Json,
      catalog.Gives "array.sliceEnd" [("arr", .array items), ("len", .number n)] "subArray"
        (.array last) ∧
      catalog.Gives "array.reverse" [("arr", .array items)] "arr" (.array items.reverse) ∧
      catalog.Gives "array.sliceStart" [("arr", .array items.reverse), ("len", .number n)]
        "subArray" (.array first) ∧
      catalog.Gives "array.reverse" [("arr", .array first)] "arr" (.array last) ∧
      last.length = count ∧ first.length = count := by
  intro start stop count
  refine ⟨fun position length => ⟨clamp_le position length, clamp_eq position length⟩,
    ⟨_, _, _, gives_sliceStart items p, gives_slice items p q, gives_sliceStart items q,
      length_sliceStart .., length_slice .., length_sliceStart .., fun hle => ?_,
      sliceStart_append_slice⟩,
    _, _, gives_sliceEnd items n, gives_reverse items, gives_sliceStart items.reverse n, ?_,
    length_sliceEnd .., ?_⟩
  · rw [slice, if_neg (Nat.not_lt.2 hle)]
  · rw [sliceEnd_eq_reverse]
    exact gives_reverse _
  · rw [length_sliceStart, List.length_reverse]

/-- From the middle of the second item to a place far behind the end. The last items are counted by
a number that is a little less than two. -/
theorem pieces_fit_fractions :
    let p := Number.double ⟨1.5, by decide +kernel⟩
    let q := Number.integer (10 ^ 30)
    let n := Number.double ⟨1.99, by decide +kernel⟩
    let items := [Json.null, .bool true, .bool false]
    clamp p.toFloat 3 < clamp q.toFloat 3 ∧
    ∃ before piece upTo last : List Json,
      catalog.Gives "array.sliceStart" [("arr", .array items), ("len", .number p)] "subArray"
        (.array before) ∧
      catalog.Gives "array.slice" [("arr", .array items), ("from", .number p), ("to", .number q)]
        "subArray" (.array piece) ∧
      catalog.Gives "array.sliceStart" [("arr", .array items), ("len", .number q)] "subArray"
        (.array upTo) ∧
      catalog.Gives "array.sliceEnd" [("arr", .array items), ("len", .number n)] "subArray"
        (.array last) ∧
      before ++ piece = upTo ∧ before.length = 1 ∧ upTo.length = 3 ∧ last.length = 1 := by
  intro p q n items
  have hp : clamp p.toFloat 3 = 1 := by decide +kernel
  have hq : clamp q.toFloat 3 = 3 := by decide +kernel
  have hn : clamp n.toFloat 3 = 1 := by decide +kernel
  have hlt : clamp p.toFloat 3 < clamp q.toFloat 3 := by omega
  obtain ⟨-, ⟨before, piece, upTo, hbefore, hpiece, hupTo, hlength, -, hlength', -, happend⟩,
    last, -, hlast, -, -, -, hcount, -⟩ := pieces_fit items p q n
  exact ⟨hlt, before, piece, upTo, last, hbefore, hpiece, hupTo, hlast, happend hlt,
    hlength.trans hp, hlength'.trans hq, hcount.trans hn⟩

end Library

end Dataflow
