/-
The decimals that round to a double.

The sizes of doubles are numbered by their bit patterns without the sign. The reals that round to
one size form an interval, the intervals of neighbours meet in one point, and that point belongs to
the even one of the two. So a decimal rounds to one size at most (`Dyadic.ofSize_unique`). The
shortest decimal of a size lies in its interval (`Dyadic.shortest_rounds`); seventeen digits are
enough because neighbouring decimals of seventeen digits are closer together than the ends of the
interval are.
-/
import Mathlib
import Dataflow.Decimal.Shortest
namespace Dataflow

/-- The value of a decimal. -/
def Decimal.value (d : Decimal) : ℚ := d.digits * (10 : ℚ) ^ d.exponent

namespace Dyadic

/-! ### The interval of a double -/

/-- The value of a dyadic number. -/
def value (d : Dyadic) : ℚ := d.mantissa * (2 : ℚ) ^ d.exponent

/-- The lower end of the interval. -/
def low (d : Dyadic) : ℚ :=
  ((4 * d.mantissa - if d.narrowBelow then 1 else 2 : ℕ) : ℚ) * (2 : ℚ) ^ (d.exponent - 2)

/-- The upper end of the interval. -/
def high (d : Dyadic) : ℚ := ((4 * d.mantissa + 2 : ℕ) : ℚ) * (2 : ℚ) ^ (d.exponent - 2)

/-- The number rounds to `d`: the ends of the interval belong to even mantissas. -/
def Rounds (x : ℚ) (d : Dyadic) : Prop :=
  if d.mantissa % 2 = 0 then d.low ≤ x ∧ x ≤ d.high else d.low < x ∧ x < d.high

private theorem Rounds.low_le {x : ℚ} {d : Dyadic} (h : Rounds x d) : d.low ≤ x := by
  rw [Rounds] at h
  split at h
  · exact h.1
  · exact h.1.le

private theorem Rounds.le_high {x : ℚ} {d : Dyadic} (h : Rounds x d) : x ≤ d.high := by
  rw [Rounds] at h
  split at h
  · exact h.2
  · exact h.2.le

/-- What lies strictly inside the interval rounds to `d`. -/
theorem Rounds.of_lt {x : ℚ} {d : Dyadic} (hl : d.low < x) (hh : x < d.high) : Rounds x d := by
  rw [Rounds]
  split
  · exact ⟨hl.le, hh.le⟩
  · exact ⟨hl, hh⟩

/-- A power with an integer exponent, cleared of its denominator. -/
theorem pow_toNat {b : ℚ} (hb : b ≠ 0) (k : ℤ) : b ^ k.toNat = b ^ k * b ^ (-k).toNat := by
  have hk : (k.toNat : ℤ) = k + (-k).toNat := by omega
  rw [← zpow_natCast, ← zpow_natCast, hk, zpow_add₀ hb]

/-- The common denominator of a grid and of quarter steps. -/
def scale (d : Dyadic) (k : ℤ) : ℚ := (10 : ℚ) ^ (-k).toNat * (2 : ℚ) ^ (2 - d.exponent).toNat

private theorem scale_pos (d : Dyadic) (k : ℤ) : 0 < d.scale k := by
  rw [scale]
  positivity

private theorem unit_eq (d : Dyadic) (k : ℤ) : (d.unit k : ℚ) = (10 : ℚ) ^ k * d.scale k := by
  rw [unit, scale]
  push_cast [Nat.pow_eq]
  rw [pow_toNat (by norm_num) k]
  ring

private theorem quarter_eq (d : Dyadic) (k : ℤ) :
    (d.quarter k : ℚ) = (2 : ℚ) ^ (d.exponent - 2) * d.scale k := by
  rw [quarter, scale]
  push_cast [Nat.pow_eq]
  rw [pow_toNat (by norm_num) (d.exponent - 2), show -(d.exponent - 2) = 2 - d.exponent by ring]
  ring

theorem value_eq (d : Dyadic) : d.value = ((4 * d.mantissa : ℕ) : ℚ) * 2 ^ (d.exponent - 2) := by
  rw [value, zpow_sub₀ (by norm_num : (2 : ℚ) ≠ 0)]
  push_cast
  ring

/-- The test of a multiple of a power of ten, in rational numbers. -/
theorem absorbs_iff (d : Dyadic) (k : ℤ) (n : ℕ) :
    d.absorbs k n = true ↔ Rounds (n * (10 : ℚ) ^ k) d := by
  have hs := d.scale_pos k
  -- both sides of each comparison are multiplied by the common denominator
  have hle : ∀ a : ℕ, a * d.quarter k ≤ n * d.unit k ↔
      (a : ℚ) * 2 ^ (d.exponent - 2) ≤ n * 10 ^ k := by
    intro a
    rw [← @Nat.cast_le ℚ, Nat.cast_mul, Nat.cast_mul, unit_eq, quarter_eq, ← mul_assoc, ← mul_assoc,
      mul_le_mul_iff_left₀ hs]
  have hge : ∀ a : ℕ, n * d.unit k ≤ a * d.quarter k ↔
      (n : ℚ) * 10 ^ k ≤ a * 2 ^ (d.exponent - 2) := by
    intro a
    rw [← @Nat.cast_le ℚ, Nat.cast_mul, Nat.cast_mul, unit_eq, quarter_eq, ← mul_assoc, ← mul_assoc,
      mul_le_mul_iff_left₀ hs]
  rw [absorbs, Rounds, low, high]
  split
  · simp only [Bool.and_eq_true, decide_eq_true_eq, hle, hge]
  · simp only [Bool.and_eq_true, decide_eq_true_eq, ← not_le, hle, hge]

/-! ### The place of the first digit -/

private theorem lt_pow_digitCount (n : ℕ) : (n : ℚ) < (10 : ℚ) ^ (digitCount n : ℤ) := by
  have h : n < 10 ^ digitCount n :=
    (Nat.length_toDigits_le_iff (by norm_num) Nat.length_toDigits_pos).1 le_rfl
  rw [zpow_natCast]
  exact_mod_cast h

private theorem pow_digitCount_le {n : ℕ} (hn : n ≠ 0) :
    (10 : ℚ) ^ ((digitCount n : ℤ) - 1) ≤ n := by
  have hpos : 0 < digitCount n := Nat.length_toDigits_pos
  have h : 10 ^ (digitCount n - 1) ≤ n := by
    rcases Nat.eq_zero_or_pos (digitCount n - 1) with h0 | h0
    · rw [h0, pow_zero]
      omega
    · by_contra hlt
      have := (Nat.length_toDigits_le_iff (by norm_num) h0).2 (not_le.1 hlt)
      rw [← digitCount] at this
      omega
  rw [show ((digitCount n : ℤ) - 1) = ((digitCount n - 1 : ℕ) : ℤ) by omega, zpow_natCast]
  exact_mod_cast h

/-- The digit counts of a fraction tell its size up to a factor of ten to either side. -/
theorem fraction_bounds {x : ℚ} {top bottom : ℕ} (hx : (top : ℚ) = x * bottom) (htop : top ≠ 0)
    (hbottom : bottom ≠ 0) :
    (10 : ℚ) ^ ((digitCount top : ℤ) - digitCount bottom - 1) ≤ x ∧
      x < (10 : ℚ) ^ ((digitCount top : ℤ) - digitCount bottom + 1) := by
  have ten : (10 : ℚ) ≠ 0 := by norm_num
  have hpos : (0 : ℚ) < bottom := by positivity
  have hnonneg : 0 ≤ x := by
    refine le_of_mul_le_mul_right ?_ hpos
    rw [zero_mul, ← hx]
    positivity
  have htl := pow_digitCount_le htop
  have hth := lt_pow_digitCount top
  have hbl := pow_digitCount_le hbottom
  have hbh := lt_pow_digitCount bottom
  generalize (digitCount top : ℤ) = a at *
  generalize (digitCount bottom : ℤ) = b at *
  constructor
  · have hlow : (10 : ℚ) ^ (a - b - 1) * 10 ^ b ≤ x * 10 ^ b :=
      calc (10 : ℚ) ^ (a - b - 1) * 10 ^ b = 10 ^ (a - 1) := by
            rw [← zpow_add₀ ten]
            ring_nf
        _ ≤ x * bottom := hx ▸ htl
        _ ≤ x * 10 ^ b := mul_le_mul_of_nonneg_left hbh.le hnonneg
    exact le_of_mul_le_mul_right hlow (by positivity)
  · have hhigh : x * 10 ^ (b - 1) < (10 : ℚ) ^ (a - b + 1) * 10 ^ (b - 1) :=
      calc x * 10 ^ (b - 1) ≤ x * bottom := mul_le_mul_of_nonneg_left hbl hnonneg
        _ < 10 ^ a := hx ▸ hth
        _ = (10 : ℚ) ^ (a - b + 1) * 10 ^ (b - 1) := by
            rw [← zpow_add₀ ten]
            ring_nf
    exact lt_of_mul_lt_mul_right hhigh (by positivity)

/-- The first digit of a value stands just below its place. -/
theorem place_spec {d : Dyadic} (hd : d.mantissa ≠ 0) :
    (10 : ℚ) ^ (d.place - 1) ≤ d.value ∧ d.value < (10 : ℚ) ^ d.place := by
  have ten : (10 : ℚ) ≠ 0 := by norm_num
  obtain ⟨top, htop⟩ : ∃ t, t = d.mantissa * 2 ^ d.exponent.toNat := ⟨_, rfl⟩
  obtain ⟨bottom, hbottom⟩ : ∃ b, b = 2 ^ (-d.exponent).toNat := ⟨_, rfl⟩
  have hbpos : bottom ≠ 0 := by rw [hbottom]; positivity
  have htpos : top ≠ 0 := by rw [htop]; positivity
  have hvalue : (top : ℚ) = d.value * bottom := by
    rw [htop, hbottom, value]
    push_cast
    rw [pow_toNat (by norm_num)]
    ring
  have hbq : (0 : ℚ) < bottom := by positivity
  have hplace : d.place =
      if top * 10 ^ (-((digitCount top : ℤ) - digitCount bottom)).toNat <
        bottom * 10 ^ ((digitCount top : ℤ) - digitCount bottom).toNat then
        (digitCount top : ℤ) - digitCount bottom
      else (digitCount top : ℤ) - digitCount bottom + 1 := by
    rw [place, htop, hbottom]
    rfl
  obtain ⟨hlow, hhigh⟩ := fraction_bounds hvalue htpos hbpos
  generalize (digitCount top : ℤ) - digitCount bottom = k at *
  -- the two counts leave two places, and one comparison decides between them
  have htest : top * 10 ^ (-k).toNat < bottom * 10 ^ k.toNat ↔ d.value < (10 : ℚ) ^ k := by
    rw [← @Nat.cast_lt ℚ]
    push_cast
    rw [pow_toNat ten k, hvalue, ← mul_assoc, mul_lt_mul_iff_left₀ (by positivity),
      mul_comm d.value, mul_lt_mul_iff_right₀ hbq]
  rw [hplace]
  split
  · rename_i h
    exact ⟨hlow, htest.1 h⟩
  · rename_i h
    rw [add_sub_cancel_right]
    exact ⟨not_lt.1 fun hlt => h (htest.2 hlt), hhigh⟩

/-! ### The shortest decimal -/

/-- The shape that the parts of a bit pattern have. -/
structure Bounded (d : Dyadic) : Prop where
  lt : d.mantissa < 2 ^ 53
  narrow : d.narrowBelow = true → d.mantissa = 2 ^ 52

private theorem onGrid_rounds {d : Dyadic} {k : ℤ} {n : ℕ} (h : d.onGrid k = some n) :
    Rounds (n * (10 : ℚ) ^ k) d := by
  rw [← absorbs_iff]
  rw [onGrid] at h
  split at h
  · rename_i hbelow habove
    split at h <;> cases h
    · exact hbelow
    · exact habove
  · rename_i hbelow _
    cases h
    exact hbelow
  · rename_i _ habove
    cases h
    exact habove
  · cases h

/-- The value lies between two neighbours on a grid; unless one of them rounds to it, the grid has
nothing for it. -/
theorem onGrid_eq_none {d : Dyadic} {k : ℤ} (h : d.onGrid k = none) :
    ∃ n : ℕ, n * (10 : ℚ) ^ k ≤ d.value ∧ d.value < (n + 1 : ℕ) * (10 : ℚ) ^ k ∧
      ¬ Rounds (n * (10 : ℚ) ^ k) d ∧ ¬ Rounds ((n + 1 : ℕ) * (10 : ℚ) ^ k) d := by
  have hs := d.scale_pos k
  have hunit : 0 < d.unit k := by
    rw [unit, Nat.pow_eq, Nat.pow_eq]
    positivity
  have hle : 4 * d.mantissa * d.quarter k / d.unit k * d.unit k ≤ 4 * d.mantissa * d.quarter k :=
    Nat.div_mul_le_self ..
  have hlt : 4 * d.mantissa * d.quarter k <
      (4 * d.mantissa * d.quarter k / d.unit k + 1) * d.unit k := by
    have := Nat.lt_div_mul_add hunit (a := 4 * d.mantissa * d.quarter k)
    rwa [add_mul, one_mul]
  rw [onGrid] at h
  generalize 4 * d.mantissa * d.quarter k / d.unit k = n at h hle hlt
  refine ⟨n, ?_, ?_, ?_⟩
  · rw [← @Nat.cast_le ℚ, Nat.cast_mul n, Nat.cast_mul (4 * d.mantissa), unit_eq, quarter_eq,
      ← mul_assoc, ← mul_assoc, ← value_eq, mul_le_mul_iff_left₀ hs] at hle
    exact hle
  · rw [← @Nat.cast_lt ℚ, Nat.cast_mul (n + 1), Nat.cast_mul (4 * d.mantissa), unit_eq, quarter_eq,
      ← mul_assoc, ← mul_assoc, ← value_eq, mul_lt_mul_iff_left₀ hs] at hlt
    exact hlt
  · rw [← absorbs_iff, ← absorbs_iff]
    split at h
    · split at h <;> cases h
    · cases h
    · cases h
    · rename_i hbelow habove
      simp [hbelow, habove]

/-- A grid whose points are no further apart than a seventeen-digit decimal allows has a point
that rounds to `d`. -/
theorem onGrid_ne_none {d : Dyadic} (hd : d.mantissa ≠ 0) (hb : d.Bounded) {k : ℤ}
    (hk : (10 : ℚ) ^ k * 10 ^ 16 ≤ d.value) : d.onGrid k ≠ none := by
  intro h
  obtain ⟨n, hle, hlt, hbelow, habove⟩ := onGrid_eq_none h
  have hm : (d.mantissa : ℚ) < 2 ^ 53 := by exact_mod_cast hb.lt
  have hstep : (0 : ℚ) < 2 ^ d.exponent := by positivity
  have hquarter : (2 : ℚ) ^ (d.exponent - 2) = 2 ^ d.exponent / 4 := by
    rw [zpow_sub₀ (by norm_num)]
    norm_num
  have hhigh : d.high = d.value + 2 ^ d.exponent / 2 := by
    rw [high, hquarter, value]
    push_cast
    ring
  have hspace : (10 : ℚ) ^ k < 2 ^ d.exponent := by
    rw [value] at hk
    nlinarith
  push_cast at hlt habove
  by_cases hn : d.narrowBelow = true
  · -- the lower neighbour is near, but then the mantissa is small and the grid is fine
    have hm52 : (d.mantissa : ℚ) = 2 ^ 52 := by exact_mod_cast hb.narrow hn
    have hhalf : (10 : ℚ) ^ k < 2 ^ d.exponent / 2 := by
      rw [value, hm52] at hk
      nlinarith
    refine habove (.of_lt ?_ (by rw [hhigh]; linarith))
    have hlow : d.low = d.value - 2 ^ d.exponent / 4 := by
      rw [low, if_pos hn, hquarter, value, Nat.cast_sub (by omega)]
      push_cast
      ring
    rw [hlow]
    linarith
  · have hlow : d.low = d.value - 2 ^ d.exponent / 2 := by
      rw [low, if_neg hn, hquarter, value, Nat.cast_sub (by omega)]
      push_cast
      ring
    by_cases hnear : d.value - n * 10 ^ k < 2 ^ d.exponent / 2
    · exact hbelow (.of_lt (by rw [hlow]; linarith) (by rw [hhigh]; linarith))
    · exact habove (.of_lt (by rw [hlow]; linarith) (by rw [hhigh]; linarith))

private theorem dropZeros_value (fuel n : ℕ) (k : ℤ) :
    (dropZeros fuel n k).value = n * (10 : ℚ) ^ k := by
  induction fuel generalizing n k with
  | zero => rfl
  | succ fuel ih =>
    rw [dropZeros]
    split
    · rename_i h
      rw [ih, zpow_add₀ (by norm_num)]
      have hn : (n : ℚ) = (n / 10 : ℕ) * 10 := by exact_mod_cast (by omega : n = n / 10 * 10)
      rw [hn]
      ring
    · rfl

/-- The shortest decimal rounds to `d`. -/
theorem shortest_rounds {d : Dyadic} (hd : d.mantissa ≠ 0) (hb : d.Bounded) :
    Rounds d.shortest.value d := by
  rw [shortest]
  dsimp only
  cases hfirst : (List.range 17).findSome? fun (i : ℕ) =>
      (d.onGrid (d.place - (i + 1))).map fun n => dropZeros 18 n (d.place - (i + 1)) with
  | some first =>
    obtain ⟨i, -, hi⟩ := List.exists_of_findSome?_eq_some hfirst
    obtain ⟨n, hn, rfl⟩ := Option.map_eq_some_iff.1 hi
    rw [Option.getD_some, dropZeros_value]
    exact onGrid_rounds hn
  | none =>
    have h16 := List.findSome?_eq_none_iff.1 hfirst 16 (by simp)
    refine absurd (Option.map_eq_none_iff.1 h16) (onGrid_ne_none hd hb ?_)
    have hplace := (place_spec hd).1
    calc (10 : ℚ) ^ (d.place - ((16 : ℕ) + 1)) * 10 ^ 16
        = (10 : ℚ) ^ (d.place - ((16 : ℕ) + 1)) * 10 ^ (16 : ℤ) := by norm_cast
      _ = 10 ^ (d.place - 1) := by
          rw [← zpow_add₀ (by norm_num)]
          congr 1
          push_cast
          ring
      _ ≤ d.value := hplace

/-! ### One double at most -/

/-- The dyadic number of a bit pattern without a sign. -/
def ofSize (g : ℕ) : Dyadic :=
  if g / 2 ^ 52 = 0 then ⟨g % 2 ^ 52, -1074, false⟩
  else ⟨g % 2 ^ 52 + 2 ^ 52, (g / 2 ^ 52 : ℕ) - 1075, g % 2 ^ 52 = 0 && 1 < g / 2 ^ 52⟩

theorem ofBits_eq (bits : UInt64) : ofBits bits = ofSize (bits.toNat % 2 ^ 63) := by
  have hfraction : fraction bits = bits.toNat % 2 ^ 63 % 2 ^ 52 := by
    rw [fraction, Nat.pow_eq]
    omega
  have hexponent : biasedExponent bits = bits.toNat % 2 ^ 63 / 2 ^ 52 := by
    rw [biasedExponent, Nat.pow_eq, Nat.pow_eq]
    omega
  rw [ofBits, ofSize, hfraction, hexponent, Nat.pow_eq]

theorem ofSize_bounded (g : ℕ) : (ofSize g).Bounded := by
  have hmod : g % 2 ^ 52 < 2 ^ 52 := Nat.mod_lt _ (by norm_num)
  rw [ofSize]
  split
  · exact ⟨by dsimp only; omega, fun h => nomatch h⟩
  · refine ⟨by dsimp only; omega, fun h => ?_⟩
    simp only [Bool.and_eq_true, decide_eq_true_eq] at h
    dsimp only
    omega

private theorem mantissa_ofSize_mod_two (g : ℕ) : (ofSize g).mantissa % 2 = g % 2 := by
  rw [ofSize]
  split
  · dsimp only
    omega
  · dsimp only
    omega

theorem mantissa_ofSize_eq_zero {g : ℕ} : (ofSize g).mantissa = 0 ↔ g = 0 := by
  rw [ofSize]
  split
  · dsimp only
    omega
  · dsimp only
    omega

/-- The interval of a size ends where the next one begins. -/
theorem high_ofSize (g : ℕ) : (ofSize g).high = (ofSize (g + 1)).low := by
  have two : (2 : ℚ) ≠ 0 := by norm_num
  have hdiv := Nat.div_add_mod g (2 ^ 52)
  have hmod : g % 2 ^ 52 < 2 ^ 52 := Nat.mod_lt _ (by norm_num)
  generalize hq : g / 2 ^ 52 = e at hdiv
  generalize hr : g % 2 ^ 52 = f at hdiv hmod
  by_cases hlast : f + 1 = 2 ^ 52
  · -- the next size has the next exponent and the fraction zero
    have hq' : (g + 1) / 2 ^ 52 = e + 1 := by omega
    have hr' : (g + 1) % 2 ^ 52 = 0 := by omega
    rw [ofSize, ofSize, hq, hr, hq', hr', if_neg (Nat.succ_ne_zero e)]
    by_cases he : e = 0
    · rw [if_pos he, high, low]
      subst he
      have : 4 * f + 2 = 4 * (0 + 2 ^ 52) - 2 := by omega
      simp [this]
    · rw [if_neg he, high, low]
      have hnarrow : (decide (0 = 0) && decide (1 < e + 1)) = true := by
        simp
        omega
      show _ = ((4 * (0 + 2 ^ 52) - if (decide (0 = 0) && decide (1 < e + 1)) = true
        then 1 else 2 : ℕ) : ℚ) * _
      rw [if_pos hnarrow]
      have hexp : ((e + 1 : ℕ) : ℤ) - 1075 - 2 = ((e : ℤ) - 1075 - 2) + 1 := by
        push_cast
        ring
      rw [hexp, zpow_add₀ two, zpow_one, ← mul_assoc, mul_right_comm]
      congr 1
      have : 4 * (f + 2 ^ 52) + 2 = (4 * (0 + 2 ^ 52) - 1) * 2 := by omega
      rw [this, Nat.cast_mul]
      norm_num
  · have hq' : (g + 1) / 2 ^ 52 = e := by omega
    have hr' : (g + 1) % 2 ^ 52 = f + 1 := by omega
    rw [ofSize, ofSize, hq, hr, hq', hr']
    by_cases he : e = 0
    · rw [if_pos he, if_pos he, high, low]
      have : 4 * f + 2 = 4 * (f + 1) - 2 := by omega
      simp [this]
    · rw [if_neg he, if_neg he, high, low]
      have hnarrow : ¬ (decide (f + 1 = 0) && decide (1 < e)) = true := by simp
      show _ = ((4 * (f + 1 + 2 ^ 52) - if (decide (f + 1 = 0) && decide (1 < e)) = true
        then 1 else 2 : ℕ) : ℚ) * _
      have : 4 * (f + 2 ^ 52) + 2 = 4 * (f + 1 + 2 ^ 52) - 2 := by omega
      rw [if_neg hnarrow, this]

private theorem low_lt_high (d : Dyadic) : d.low < d.high := by
  rw [low, high]
  refine mul_lt_mul_of_pos_right ?_ (by positivity)
  exact_mod_cast (by split <;> omega : (4 * d.mantissa - if d.narrowBelow then 1 else 2) <
    4 * d.mantissa + 2)

private theorem low_strictMono : StrictMono fun g => (ofSize g).low :=
  strictMono_nat_of_lt_succ fun g => high_ofSize g ▸ low_lt_high (ofSize g)

/-- No number rounds to two sizes: the point where two intervals meet belongs to the even one. -/
theorem not_rounds_of_lt {x : ℚ} {g g' : ℕ} (hlt : g < g') (h : Rounds x (ofSize g)) :
    ¬ Rounds x (ofSize g') := by
  intro h'
  have hmono : (ofSize (g + 1)).low ≤ (ofSize g').low := low_strictMono.monotone hlt
  have hup : x ≤ (ofSize (g + 1)).low := high_ofSize g ▸ h.le_high
  have heq : (ofSize (g + 1)).low = (ofSize g').low :=
    le_antisymm hmono (h'.low_le.trans hup)
  obtain rfl : g + 1 = g' := low_strictMono.injective heq
  have hx : x = (ofSize (g + 1)).low := le_antisymm hup h'.low_le
  rw [Rounds, mantissa_ofSize_mod_two, high_ofSize, ← hx] at h
  rw [Rounds, mantissa_ofSize_mod_two, ← hx] at h'
  split at h
  · rw [if_neg (by omega)] at h'
    exact lt_irrefl _ h'.1
  · exact lt_irrefl _ h.2

theorem ofSize_unique {x : ℚ} {g g' : ℕ} (h : Rounds x (ofSize g)) (h' : Rounds x (ofSize g')) :
    g = g' := by
  rcases Nat.lt_trichotomy g g' with hlt | heq | hlt
  · exact absurd h' (not_rounds_of_lt hlt h)
  · exact heq
  · exact absurd h (not_rounds_of_lt hlt h')

/-- A number that rounds to a size other than zero is not zero. -/
theorem Rounds.pos {x : ℚ} {d : Dyadic} (hd : d.mantissa ≠ 0) (h : Rounds x d) : 0 < x := by
  refine lt_of_lt_of_le ?_ h.low_le
  rw [low]
  refine mul_pos ?_ (by positivity)
  exact_mod_cast (by split <;> omega : 0 < 4 * d.mantissa - if d.narrowBelow then 1 else 2)

end Dyadic

end Dataflow
