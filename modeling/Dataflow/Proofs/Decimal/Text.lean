/-
The text of a number determines the number.

`Numeral.reading` reads digits, a point and an exponent as an exact rational number. The text of a
double reads as its shortest decimal, which rounds to that double alone, so doubles with one text
are one double. Integers show neither a point nor an exponent and doubles always show one, so the
two kinds cannot be mistaken for each other.

* `Double.text_injective`, `Number.text_injective` — equal texts, equal numbers;
* `Number.numeric_text` — the characters that occur in the text of a number.
-/
import Mathlib
import Dataflow.Json.Number
import Dataflow.Proofs.Decimal.Rounding
namespace Dataflow

namespace Numeral

/-! ### Reading a numeral -/

/-- What stands before the first `c`, and what stands behind it. -/
def cut (c : Char) (cs : List Char) : List Char × List Char :=
  (cs.takeWhile (· ≠ c), (cs.dropWhile (· ≠ c)).drop 1)

private theorem cut_append {c : Char} {before : List Char} (h : c ∉ before) (behind : List Char) :
    cut c (before ++ c :: behind) = (before, behind) := by
  have hall : ∀ d ∈ before, (decide (d ≠ c)) = true := fun d hd =>
    decide_eq_true fun e => h (e ▸ hd)
  rw [cut, List.takeWhile_append_of_pos hall, List.dropWhile_append_of_pos hall]
  simp

private theorem cut_of_not_mem {c : Char} {cs : List Char} (h : c ∉ cs) : cut c cs = (cs, []) := by
  have hall : ∀ d ∈ cs, (decide (d ≠ c)) = true := fun d hd =>
    decide_eq_true fun e => h (e ▸ hd)
  rw [cut, List.takeWhile_eq_self_iff.2 hall, List.dropWhile_eq_nil_iff.2 hall]
  rfl

/-- The number that digits show. -/
def ofDigits (cs : List Char) : ℕ := Nat.ofDigitChars 10 cs 0

/-- The exponent that a sign and digits show; none is zero. -/
def exponentOf : List Char → ℤ
  | [] => 0
  | sign :: digits => if sign = '-' then -ofDigits digits else ofDigits digits

/-- The number that digits with a point and an exponent show. -/
def reading (cs : List Char) : ℚ :=
  let parts := cut 'e' cs
  let digits := cut '.' parts.1
  ofDigits (digits.1 ++ digits.2) * (10 : ℚ) ^ (exponentOf parts.2 - digits.2.length)

/-- The reading of digits with a point. -/
theorem reading_point {whole fraction : List Char} (he : 'e' ∉ whole ++ '.' :: fraction)
    (hp : '.' ∉ whole) :
    reading (whole ++ '.' :: fraction) =
      ofDigits (whole ++ fraction) * (10 : ℚ) ^ (-(fraction.length : ℤ)) := by
  rw [reading]
  rw [cut_of_not_mem he]
  dsimp only
  rw [cut_append hp, exponentOf, zero_sub]

/-- The reading of a numeral with an exponent. -/
theorem reading_exponent {mantissa exponent : List Char} (he : 'e' ∉ mantissa) :
    reading (mantissa ++ 'e' :: exponent) =
      ofDigits ((cut '.' mantissa).1 ++ (cut '.' mantissa).2) *
        (10 : ℚ) ^ (exponentOf exponent - (cut '.' mantissa).2.length) := by
  rw [reading]
  rw [cut_append he]

private theorem ofDigits_toDigits (n : ℕ) : ofDigits (Nat.toDigits 10 n) = n :=
  Nat.ofDigitChars_ten_toDigits

private theorem ofDigits_zeros (k : ℕ) (cs : List Char) :
    ofDigits (List.replicate k '0' ++ cs) = ofDigits cs := by
  rw [ofDigits, Nat.ofDigitChars_append, Nat.ofDigitChars_replicate_zero, mul_zero, ofDigits]

private theorem ofDigits_append_zeros (cs : List Char) (k : ℕ) :
    ofDigits (cs ++ List.replicate k '0') = ofDigits cs * 10 ^ k := by
  rw [ofDigits, Nat.ofDigitChars_append, Nat.ofDigitChars_replicate_zero, ofDigits, mul_comm]

private theorem not_mem_toDigits {c : Char} (hc : c.isDigit = false) (n : ℕ) :
    c ∉ Nat.toDigits 10 n := by
  intro h
  have := Nat.isDigit_of_mem_toDigits (by norm_num) (by norm_num) h
  rw [hc] at this
  cases this

end Numeral

namespace Double

open Numeral

/-- A point between digits adds nothing but the point. -/
theorem mem_pointed {digits : List Char} {whole : ℕ} {c : Char} (h : c ∈ pointed digits whole) :
    c = '.' ∨ c ∈ digits := by
  rcases List.mem_append.1 h with h | h
  · exact .inr (List.mem_of_mem_take h)
  · rcases List.mem_cons.1 h with h | h
    · exact .inl h
    · exact .inr (List.mem_of_mem_drop h)

private theorem exponent_not_mem_pointed (n whole : ℕ) :
    'e' ∉ pointed (Nat.toDigits 10 n) whole := by
  intro h
  rcases mem_pointed h with h | h
  · cases h
  · exact not_mem_toDigits rfl n h

private theorem point_not_mem_take (n whole : ℕ) : '.' ∉ (Nat.toDigits 10 n).take whole :=
  fun h => not_mem_toDigits rfl n (List.mem_of_mem_take h)

/-- The digits of a decimal with a point after the first `whole`. -/
theorem reading_pointed (n whole : ℕ) :
    reading (pointed (Nat.toDigits 10 n) whole) =
      n * (10 : ℚ) ^ (-(((Nat.toDigits 10 n).length - whole : ℕ) : ℤ)) := by
  have he := exponent_not_mem_pointed n whole
  rw [pointed] at he ⊢
  rw [reading_point he (point_not_mem_take n whole), List.take_append_drop, ofDigits_toDigits,
    List.length_drop]

/-- The digits of a decimal behind a point and zeros. -/
theorem reading_zeros_before (n k : ℕ) :
    reading ('0' :: '.' :: (List.replicate k '0' ++ Nat.toDigits 10 n)) =
      n * (10 : ℚ) ^ (-((k + (Nat.toDigits 10 n).length : ℕ) : ℤ)) := by
  have he : 'e' ∉ ['0'] ++ '.' :: (List.replicate k '0' ++ Nat.toDigits 10 n) := by
    simp [not_mem_toDigits (c := 'e') rfl n]
  have hpoint := reading_point he (by decide)
  rw [List.singleton_append] at hpoint
  rw [hpoint, show ['0'] = List.replicate 1 '0' from rfl, ofDigits_zeros, ofDigits_zeros,
    ofDigits_toDigits, List.length_append, List.length_replicate]

/-- The digits of a decimal with zeros behind them, up to the point. -/
theorem reading_zeros_behind (n k : ℕ) :
    reading (Nat.toDigits 10 n ++ (List.replicate k '0' ++ ['.', '0'])) = n * (10 : ℚ) ^ k := by
  have he := not_mem_toDigits (c := 'e') rfl n
  have hp := not_mem_toDigits (c := '.') rfl n
  rw [← List.append_assoc, show (['.', '0'] : List Char) = '.' :: ['0'] from rfl,
    reading_point (by simp [he]) (by simp [hp]), show ['0'] = List.replicate 1 '0' from rfl,
    ofDigits_append_zeros, ofDigits_append_zeros, ofDigits_toDigits, List.length_replicate]
  -- the zero behind the point is read as one more digit, which the point takes back
  push_cast
  rw [zpow_neg, zpow_one]
  field_simp

/-- An exponent is written with its sign. -/
theorem exponentOf_signed (e : ℤ) :
    exponentOf ((if e < 0 then '-' else '+') :: Nat.toDigits 10 e.natAbs) = e := by
  rw [exponentOf, ofDigits_toDigits]
  split
  · rw [if_pos rfl]
    omega
  · rw [if_neg (by decide)]
    omega

/-- The text of a decimal reads as its value. -/
theorem reading_layOut (format : Layout) (d : Decimal) :
    reading (layOut format d) = d.value := by
  obtain ⟨n, e⟩ := d
  have he := not_mem_toDigits (c := 'e') rfl n
  have hp := not_mem_toDigits (c := '.') rfl n
  have hlen : 0 < (Nat.toDigits 10 n).length := Nat.length_toDigits_pos
  rw [layOut, Decimal.value]
  dsimp only
  split
  · split
    · rw [reading_zeros_before]
      congr 2
      omega
    · split
      · rename_i hexp
        obtain ⟨k, rfl⟩ := Int.eq_ofNat_of_zero_le hexp
        rw [Int.toNat_natCast, reading_zeros_behind, zpow_natCast]
      · rw [reading_pointed]
        congr 2
        omega
  · -- with an exponent, the point stands after the first digit, if there are more
    split
    · rename_i hone
      rw [reading_exponent he, exponentOf_signed, cut_of_not_mem hp, List.append_nil,
        ofDigits_toDigits, hone]
      congr 2
      push_cast
      simp
    · rw [reading_exponent (exponent_not_mem_pointed n 1), exponentOf_signed, pointed,
        cut_append (point_not_mem_take n 1)]
      dsimp only
      rw [List.take_append_drop, ofDigits_toDigits, List.length_drop]
      congr 2
      omega

/-! ### The characters of a numeral -/

/-- The characters of numerals. -/
def isNumeric (c : Char) : Bool := c.isDigit || c ∈ ['-', '+', '.', 'e']

private theorem isNumeric_of_mem_toDigits {n : ℕ} {c : Char} (h : c ∈ Nat.toDigits 10 n) :
    isNumeric c = true := by
  rw [isNumeric, Nat.isDigit_of_mem_toDigits (by norm_num) (by norm_num) h, Bool.true_or]

theorem toDigits_eq_cons (n : ℕ) :
    ∃ c rest, Nat.toDigits 10 n = c :: rest ∧ c.isDigit = true := by
  cases h : Nat.toDigits 10 n with
  | nil => exact absurd h Nat.toDigits_ne_nil
  | cons c rest =>
    exact ⟨c, rest, rfl, Nat.isDigit_of_mem_toDigits (by norm_num) (by norm_num)
      (h ▸ List.mem_cons_self ..)⟩

/-- The text of a decimal starts with a digit, shows a point or an exponent, and has the characters
of a numeral. -/
theorem layOut_chars (format : Layout) (d : Decimal) :
    (∃ c rest, layOut format d = c :: rest ∧ c.isDigit = true) ∧
      ('.' ∈ layOut format d ∨ 'e' ∈ layOut format d) ∧
      ∀ c ∈ layOut format d, isNumeric c = true := by
  obtain ⟨first, others, hdigits, hfirst⟩ := toDigits_eq_cons d.digits
  have hnumeric : ∀ c ∈ Nat.toDigits 10 d.digits, isNumeric c = true :=
    fun c h => isNumeric_of_mem_toDigits h
  have hpointed : ∀ whole, ∀ c ∈ pointed (Nat.toDigits 10 d.digits) whole,
      isNumeric c = true := by
    intro whole c hc
    rcases mem_pointed hc with rfl | hc
    · rfl
    · exact hnumeric c hc
  rw [layOut]
  dsimp only
  split
  · split
    · refine ⟨⟨'0', _, rfl, rfl⟩, .inl (by simp), fun c hc => ?_⟩
      simp only [List.mem_cons, List.mem_append, List.mem_replicate] at hc
      rcases hc with rfl | rfl | ⟨-, rfl⟩ | hc
      · rfl
      · rfl
      · rfl
      · exact hnumeric c hc
    · split
      · refine ⟨⟨first, _, by rw [hdigits]; rfl, hfirst⟩, .inl (by simp), fun c hc => ?_⟩
        simp only [List.mem_cons, List.mem_append, List.mem_replicate, List.not_mem_nil,
          or_false] at hc
        rcases hc with hc | ⟨-, rfl⟩ | rfl | rfl
        · exact hnumeric c hc
        · rfl
        · rfl
        · rfl
      · exact ⟨⟨first, _, by rw [hdigits, pointed, List.take_succ_cons]; rfl, hfirst⟩,
          .inl (by simp [pointed]), hpointed _⟩
  · refine ⟨?_, .inr (by simp), fun c hc => ?_⟩
    · split
      · exact ⟨first, _, by rw [hdigits]; rfl, hfirst⟩
      · exact ⟨first, _, by rw [hdigits, pointed, List.take_succ_cons]; rfl, hfirst⟩
    · rcases List.mem_append.1 hc with hc | hc
      · split at hc
        · exact hnumeric c hc
        · exact hpointed _ c hc
      · rcases List.mem_cons.1 hc with rfl | hc
        · rfl
        · rcases List.mem_cons.1 hc with rfl | hc
          · split <;> rfl
          · exact isNumeric_of_mem_toDigits hc

/-! ### Doubles -/

/-- The text of a double without its sign. -/
def sizeText (x : Double) : List Char :=
  if (Dyadic.ofBits x.toFloat.toBits).mantissa = 0 then ['0', '.', '0']
  else layOut layout (Dyadic.ofBits x.toFloat.toBits).shortest

private theorem text_eq (x : Double) :
    x.text = if x.negative then '-' :: x.sizeText else x.sizeText := rfl

private theorem sizeText_chars (x : Double) :
    (∃ c rest, x.sizeText = c :: rest ∧ c.isDigit = true) ∧
      ('.' ∈ x.sizeText ∨ 'e' ∈ x.sizeText) ∧ ∀ c ∈ x.sizeText, isNumeric c = true := by
  rw [sizeText]
  split
  · refine ⟨⟨'0', _, rfl, rfl⟩, .inl (by decide), fun c hc => ?_⟩
    simp only [List.mem_cons, List.not_mem_nil, or_false] at hc
    rcases hc with rfl | rfl | rfl <;> rfl
  · exact layOut_chars ..

/-- The size of a double is the one to which its text rounds. -/
theorem size_eq_of_sizeText {x y : Double} (h : x.sizeText = y.sizeText) :
    x.toFloat.toBits.toNat % 2 ^ 63 = y.toFloat.toBits.toNat % 2 ^ 63 := by
  have hzero : reading ['0', '.', '0'] = 0 := by
    rw [show (['0', '.', '0'] : List Char) = ['0'] ++ '.' :: ['0'] from rfl,
      reading_point (by decide) (by decide)]
    simp [ofDigits, Nat.ofDigitChars]
  -- a text other than that of zero rounds to its double, which is not zero
  have hrounds : ∀ z : Double, Dyadic.ofSize (z.toFloat.toBits.toNat % 2 ^ 63) =
      Dyadic.ofBits z.toFloat.toBits := fun z => (Dyadic.ofBits_eq _).symm
  have key : ∀ z : Double, (Dyadic.ofBits z.toFloat.toBits).mantissa ≠ 0 →
      Dyadic.Rounds (reading z.sizeText) (Dyadic.ofSize (z.toFloat.toBits.toNat % 2 ^ 63)) := by
    intro z hz
    rw [sizeText, if_neg hz, reading_layOut, hrounds]
    exact Dyadic.shortest_rounds hz (hrounds z ▸ Dyadic.ofSize_bounded _)
  by_cases hx : (Dyadic.ofBits x.toFloat.toBits).mantissa = 0
  · by_cases hy : (Dyadic.ofBits y.toFloat.toBits).mantissa = 0
    · rw [← hrounds, Dyadic.mantissa_ofSize_eq_zero] at hx hy
      rw [hx, hy]
    · have := (key y hy).pos (hrounds y ▸ hy)
      rw [← h, sizeText, if_pos hx, hzero] at this
      exact absurd this (lt_irrefl 0)
  · by_cases hy : (Dyadic.ofBits y.toFloat.toBits).mantissa = 0
    · have := (key x hx).pos (hrounds x ▸ hx)
      rw [h, sizeText, if_pos hy, hzero] at this
      exact absurd this (lt_irrefl 0)
    · exact Dyadic.ofSize_unique (key x hx) (h ▸ key y hy)

private theorem toBits_injective {x y : Double} (h : x.toFloat.toBits = y.toFloat.toBits) :
    x = y := by
  obtain ⟨⟨⟨bits, _⟩⟩, _⟩ := x
  obtain ⟨⟨⟨bits', _⟩⟩, _⟩ := y
  have : bits = bits' := h
  subst this
  rfl

/-- **Doubles with one text are one double.** -/
theorem text_injective : Function.Injective text := by
  intro x y h
  rw [text_eq, text_eq] at h
  obtain ⟨⟨c, rest, hc, hdigit⟩, -, -⟩ := sizeText_chars x
  obtain ⟨⟨c', rest', hc', hdigit'⟩, -, -⟩ := sizeText_chars y
  have hx := x.toFloat.toBits.toNat_lt
  have hy := y.toFloat.toBits.toNat_lt
  have hsize : x.sizeText = y.sizeText ∧ x.negative = y.negative := by
    split at h <;> split at h
    · rename_i hx hy
      exact ⟨(List.cons.inj h).2, hx.trans hy.symm⟩
    · rw [hc'] at h
      rw [← (List.cons.inj h).1] at hdigit'
      cases hdigit'
    · rw [hc] at h
      rw [(List.cons.inj h).1] at hdigit
      cases hdigit
    · rename_i hx hy
      exact ⟨h, by rw [Bool.not_eq_true] at hx hy; rw [hx, hy]⟩
  have hmod := size_eq_of_sizeText hsize.1
  have hsign := hsize.2
  rw [negative, negative, Nat.pow_eq, decide_eq_decide] at hsign
  refine toBits_injective (UInt64.toNat_inj.1 ?_)
  omega

end Double

/-! ### Numbers -/

namespace Number

theorem numeric_text (n : Number) : ∀ c ∈ n.text, Double.isNumeric c = true := by
  intro c hc
  match n with
  | .integer (.ofNat n) => exact Double.isNumeric_of_mem_toDigits hc
  | .integer (.negSucc n) =>
    rcases List.mem_cons.1 hc with rfl | hc
    · rfl
    · exact Double.isNumeric_of_mem_toDigits hc
  | .double x =>
    rw [text, Double.text_eq] at hc
    split at hc
    · rcases List.mem_cons.1 hc with rfl | hc
      · rfl
      · exact (Double.sizeText_chars x).2.2 c hc
    · exact (Double.sizeText_chars x).2.2 c hc

theorem text_ne_nil (n : Number) : n.text ≠ [] := by
  match n with
  | .integer (.ofNat n) => exact Nat.toDigits_ne_nil
  | .integer (.negSucc n) => exact List.cons_ne_nil _ _
  | .double x =>
    obtain ⟨⟨c, rest, hc, -⟩, -, -⟩ := Double.sizeText_chars x
    rw [text, Double.text_eq, hc]
    split <;> exact List.cons_ne_nil _ _

/-- A double shows a point or an exponent. -/
theorem point_mem_text_double (x : Double) : '.' ∈ text (.double x) ∨ 'e' ∈ text (.double x) := by
  rw [text, Double.text_eq]
  split
  · exact (Double.sizeText_chars x).2.1.imp (List.mem_cons_of_mem _) (List.mem_cons_of_mem _)
  · exact (Double.sizeText_chars x).2.1

/-- An integer shows neither a point nor an exponent. -/
theorem not_mem_text_integer {c : Char} (hc : c.isDigit = false) (hs : c ≠ '-') (n : ℤ) :
    c ∉ text (.integer n) := by
  cases n with
  | ofNat n => exact Numeral.not_mem_toDigits hc n
  | negSucc n =>
    intro h
    rcases List.mem_cons.1 h with h | h
    · exact hs h
    · exact Numeral.not_mem_toDigits hc _ h

private theorem toDigits_injective {m n : ℕ} (h : Nat.toDigits 10 m = Nat.toDigits 10 n) :
    m = n := by
  have := congrArg Numeral.ofDigits h
  rwa [Numeral.ofDigits_toDigits, Numeral.ofDigits_toDigits] at this

private theorem text_integer_injective {m n : ℤ} (h : text (.integer m) = text (.integer n)) :
    m = n := by
  cases m with
  | ofNat m =>
    cases n with
    | ofNat n => rw [toDigits_injective h]
    | negSucc n =>
      have hmem : '-' ∈ Nat.toDigits 10 m := by
        rw [text, text] at h
        rw [h]
        exact List.mem_cons_self ..
      exact absurd hmem (Numeral.not_mem_toDigits rfl m)
  | negSucc m =>
    cases n with
    | ofNat n =>
      have hmem : '-' ∈ Nat.toDigits 10 n := by
        rw [text, text] at h
        rw [← h]
        exact List.mem_cons_self ..
      exact absurd hmem (Numeral.not_mem_toDigits rfl n)
    | negSucc n =>
      have := toDigits_injective (List.cons.inj h).2
      rw [Nat.succ.inj this]

/-- **Numbers with one text are one number**; an integer is no double. -/
theorem text_injective : Function.Injective text := by
  have hkinds : ∀ (n : ℤ) (x : Double), text (.integer n) ≠ text (.double x) := by
    intro n x h
    rcases point_mem_text_double x with hmem | hmem
    · exact not_mem_text_integer rfl (by decide) n (h ▸ hmem)
    · exact not_mem_text_integer rfl (by decide) n (h ▸ hmem)
  intro m n h
  match m, n with
  | .integer m, .integer n => rw [text_integer_injective h]
  | .integer m, .double y => exact absurd h (hkinds m y)
  | .double x, .integer n => exact absurd h.symm (hkinds n x)
  | .double x, .double y => rw [Double.text_injective h]

end Number

end Dataflow
