/-
The text of a value is read as the value.

The parser is run on the compact text of a value, with something behind it that no value continues
into: nothing, a comma or a closing bracket. It stops exactly there, and what it has read is the
draft of the value, with the members of objects in their order. Numbers are the one thing that is
asked for: each has to read back from its own text. Integers of 64 bits do.

* `Draft.quotedText_quoted` — quoted texts, with all escapes;
* `Number.readsBack_integer` — integers;
* `Draft.parseValue_chars` — values in front of something else;
* `Json.parse_text` — whole texts.
-/
import Mathlib
import Dataflow.Json.Parser
import Dataflow.Proofs.Json.Text
namespace Dataflow

namespace Draft

/-- What may stand behind a value. -/
def Closes (rest : List Char) : Prop := ∀ c ∈ rest.head?, c = ',' ∨ c = ']' ∨ c = '}'

private theorem skipBlanks_cons {c : Char} (h : isBlank c = false) (rest : List Char) :
    skipBlanks (c :: rest) = c :: rest :=
  List.dropWhile_cons_of_neg (by rw [h]; exact Bool.false_ne_true)

/-- No value starts with a blank. -/
theorem isBlank_of_kindOf {c : Char} {kind : Json.Kind} (h : Json.kindOf c = some kind) :
    isBlank c = false := by
  by_contra hblank
  simp only [isBlank, Bool.not_eq_false, Bool.or_eq_true, decide_eq_true_eq] at hblank
  rcases hblank with ((rfl | rfl) | rfl) | rfl <;> cases h

/-! ### Quoted texts -/

theorem hexDigit_digitChar {d : ℕ} (h : d < 16) : hexDigit (Nat.digitChar d) = some d := by
  interval_cases d <;> rfl

/-- A control character is read back from its code. -/
theorem codeUnit_controlCode {n : ℕ} (h : n < 32) :
    codeUnit '0' '0' (Nat.digitChar (n / 16)) (Nat.digitChar (n % 16)) = some n := by
  rw [codeUnit, hexDigit_digitChar (by omega), hexDigit_digitChar (by omega)]
  show some (((0 * 16 + 0) * 16 + n / 16) * 16 + n % 16) = some n
  congr 1
  omega

/-- An escaped character is read back. -/
theorem quotedText_escapeChar (c : Char) (rest acc : List Char) :
    quotedText (Json.escapeChar c ++ rest) acc false none =
      quotedText rest (c :: acc) false none := by
  have hofNat : ∀ n, c.toNat = n → Char.ofNat n = c := fun n h => h ▸ Char.ofNat_toNat c
  rw [Json.escapeChar]
  -- the short escapes first: five that are spelt out and two that are known by their codes
  iterate 5
    split
    · rename_i h
      rw [h]
      rfl
  iterate 2
    split
    · rename_i h
      rw [← hofNat _ h]
      rfl
  split
  · -- a control character is no half of a pair
    rename_i hcontrol
    have hhigh : isHigh c.toNat = false := by
      simp [isHigh]
      omega
    have hlow : isLow c.toNat = false := by
      simp [isLow]
      omega
    rw [List.cons_append, List.cons_append, Json.controlCode, quotedText.eq_def]
    simp [codeUnit_controlCode hcontrol, hhigh, hlow, Char.ofNat_toNat]
  · rename_i hquote hslash _ _ _ _ _ hcontrol
    rw [List.singleton_append, quotedText.eq_def]
    simp only [if_neg hquote, if_neg hslash, if_neg hcontrol]
    rfl

private theorem quotedText_escaped (cs rest acc : List Char) :
    quotedText (cs.flatMap Json.escapeChar ++ '"' :: rest) acc false none =
      .done (some (String.ofList (acc.reverse ++ cs))) rest := by
  induction cs generalizing acc with
  | nil =>
    rw [List.append_nil, List.flatMap_nil, List.nil_append, quotedText.eq_def]
    rfl
  | cons c cs ih =>
    rw [List.flatMap_cons, List.append_assoc, quotedText_escapeChar, ih, List.reverse_cons,
      List.append_assoc]
    rfl

/-- A quoted text is read back from behind its first quote. -/
theorem quotedText_quoted (s : String) (rest : List Char) :
    quotedText (s.toList.flatMap Json.escapeChar ++ '"' :: rest) [] false none =
      .done (some s) rest := by
  rw [quotedText_escaped, List.reverse_nil, List.nil_append, String.ofList_toList]

/-! ### Numbers -/

/-- Scan a number with its sign. -/
def numeral : List Char → Scan (Option Number)
  | '-' :: rest => unsigned true rest
  | cs => unsigned false cs

end Draft

/-- The number is read back from its text, whatever it stands in front of. -/
def Number.ReadsBack (n : Number) : Prop :=
  ∀ rest, Draft.Closes rest → Draft.numeral (n.text ++ rest) = .done (some n) rest

namespace Draft

private theorem parseValue_number {n : Number} (hn : n.ReadsBack) {rest : List Char}
    (hrest : Closes rest)
    (fuel : ℕ) : parseValue (fuel + 1) (n.text ++ rest) = (.number (some n), some rest) := by
  have hread := hn rest hrest
  obtain ⟨c, more, htext⟩ := List.exists_cons_of_ne_nil n.text_ne_nil
  rw [htext, List.cons_append] at hread ⊢
  by_cases hsign : c = '-'
  · subst hsign
    have hscan : unsigned true (more ++ rest) = .done (some n) rest := hread
    rw [parseValue, skipBlanks_cons rfl]
    show leaf .number (unsigned true (more ++ rest)) = _
    rw [hscan, leaf]
  · have hscan : unsigned false (c :: (more ++ rest)) = .done (some n) rest := by
      rw [← hread, numeral.eq_def]
      split
      · rename_i heq
        exact absurd (List.cons.inj heq).1 hsign
      · rfl
    -- without a digit there would have been nothing to read
    have hdigit : c.isDigit = true := by
      by_contra hnot
      rw [unsigned, List.takeWhile_cons_of_neg hnot] at hscan
      cases hscan
    have hblank : isBlank c = false := by
      refine isBlank_of_kindOf (Json.kindOf_numeric ?_)
      rw [Double.isNumeric, hdigit, Bool.true_or]
    rw [parseValue, skipBlanks_cons hblank]
    split <;> simp_all [leaf]

/-- No zero leads the digits of a positive number. -/
theorem head?_toDigits {k : ℕ} (hk : 0 < k) : (Nat.toDigits 10 k).head? ≠ some '0' := by
  induction k using Nat.strong_induction_on with
  | _ k ih =>
    by_cases hlt : k < 10
    · rw [Nat.toDigits_of_lt_base hlt, List.head?_cons]
      simp
      omega
    · rw [Nat.toDigits_of_base_le (by omega) (by omega), List.head?_append]
      obtain ⟨c, rest, hdigits, -⟩ := Double.toDigits_eq_cons (k / 10)
      have hhead := ih (k / 10) (by omega) (by omega)
      rw [hdigits] at hhead ⊢
      exact hhead

/-- Digits in front of something else are scanned as a whole. -/
theorem unsigned_toDigits (negative : Bool) (k : ℕ) {rest : List Char} (hrest : Closes rest) :
    unsigned negative (Nat.toDigits 10 k ++ rest) =
      .done (Number.Literal.number? ⟨negative, Nat.toDigits 10 k, none, none⟩) rest := by
  have hdigits : ∀ c ∈ Nat.toDigits 10 k, c.isDigit = true := fun c hc =>
    Nat.isDigit_of_mem_toDigits (by norm_num) (by norm_num) hc
  have hstop : rest.takeWhile Char.isDigit = [] ∧ rest.dropWhile Char.isDigit = rest ∧
      afterWhole negative (Nat.toDigits 10 k) rest =
        .done (Number.Literal.number? ⟨negative, Nat.toDigits 10 k, none, none⟩) rest := by
    cases rest with
    | nil => exact ⟨rfl, rfl, rfl⟩
    | cons c more => rcases hrest c rfl with rfl | rfl | rfl <;> exact ⟨rfl, rfl, rfl⟩
  obtain ⟨htake, hdrop, hafter⟩ := hstop
  rw [unsigned, List.takeWhile_append_of_pos hdigits, List.dropWhile_append_of_pos hdigits, htake,
    hdrop, List.append_nil]
  split
  · rename_i heq
    exact absurd heq Nat.toDigits_ne_nil
  · -- more digits behind a zero: the digits of no number
    rename_i second others heq
    have hzero : k = 0 := by
      by_contra hk
      exact head?_toDigits (k := k) (by omega) (by rw [heq, List.head?_cons])
    rw [hzero, Nat.toDigits_zero] at heq
    cases heq
  · exact hafter

end Draft

namespace Number

private theorem foldl_digit_toDigits (k : ℕ) :
    (Nat.toDigits 10 k).foldl (fun acc c => acc * 10 + digit c) 0 = k := by
  have hvalue := Nat.ofDigitChars_ten_toDigits (n := k)
  rw [Nat.ofDigitChars_eq_foldl] at hvalue
  simp only [mul_comm 10] at hvalue
  exact hvalue

private theorem number?_whole {k : ℕ} (h : k < UInt64.size) :
    Literal.number? ⟨false, Nat.toDigits 10 k, none, none⟩ = some (integer (.ofNat k)) := by
  simp [Literal.number?, foldl_digit_toDigits, h]

private theorem number?_negative {k : ℕ} (h : k + 1 ≤ Nat.pow 2 63) :
    Literal.number? ⟨true, Nat.toDigits 10 (k + 1), none, none⟩ = some (integer (.negSucc k)) := by
  simp only [Literal.number?, foldl_digit_toDigits, if_true, Nat.succ_pos, true_and, if_pos h]
  rfl

/-- Integers of 64 bits, signed or unsigned, are read back. -/
theorem readsBack_integer {n : ℤ} (hlow : -2 ^ 63 ≤ n) (hhigh : n < 2 ^ 64) :
    (integer n).ReadsBack := by
  intro rest hrest
  cases n with
  | ofNat k =>
    have hsize : k < UInt64.size := Int.ofNat_lt.1 hhigh
    rw [text, ← number?_whole hsize, ← Draft.unsigned_toDigits false k hrest]
    obtain ⟨c, more, hdigits, hc⟩ := Double.toDigits_eq_cons k
    rw [hdigits, List.cons_append, Draft.numeral.eq_def]
    split
    · rename_i heq
      cases heq
      cases hc
    · rfl
  | negSucc k =>
    have hsize : k + 1 ≤ Nat.pow 2 63 := by
      rw [Int.negSucc_eq] at hlow
      norm_num
      omega
    rw [text, ← number?_negative hsize, ← Draft.unsigned_toDigits true (k + 1) hrest]
    rfl

end Number

/-! ### Values -/

namespace Json

mutual

/-- The numbers in a value. -/
def numbers : Json → List Number
  | .number n => [n]
  | .array items => numbersItems items
  | .object members => numbersMembers members
  | _ => []

/-- The numbers in a list of values. -/
def numbersItems : List Json → List Number
  | [] => []
  | item :: rest => numbers item ++ numbersItems rest

/-- The numbers in a list of members. -/
def numbersMembers : List (String × Json) → List Number
  | [] => []
  | (_, value) :: rest => numbers value ++ numbersMembers rest

end

private theorem closes_itemTail (items : List Json) (rest : List Char) :
    Draft.Closes (itemTail items ++ rest) := by
  cases items with
  | nil => exact fun c hc => .inr (.inl (Option.some.inj hc).symm)
  | cons item items => exact fun c hc => .inl (Option.some.inj hc).symm

private theorem closes_memberTail (members : List (String × Json)) (rest : List Char) :
    Draft.Closes (memberTail members ++ rest) := by
  cases members with
  | nil => exact fun c hc => .inr (.inr (Option.some.inj hc).symm)
  | cons member members => exact fun c hc => .inl (Option.some.inj hc).symm

private theorem length_chars_pos (v : Json) : 1 ≤ v.chars.length := by
  obtain ⟨c, more, hchars, -⟩ := chars_eq_cons v
  simp [hchars]

private theorem length_itemTail_pos (items : List Json) : 1 ≤ (itemTail items).length := by
  cases items <;> simp [itemTail]

private theorem length_memberTail_pos (members : List (String × Json)) :
    1 ≤ (memberTail members).length := by
  cases members <;> simp [memberTail]

private theorem itemTail_of_ne_nil {items : List Json} (h : items ≠ []) :
    itemTail items = ',' :: itemChars items := by
  cases items with
  | nil => exact absurd rfl h
  | cons item items => rfl

private theorem memberTail_of_ne_nil {members : List (String × Json)} (h : members ≠ []) :
    memberTail members = ',' :: memberChars members := by
  cases members with
  | nil => exact absurd rfl h
  | cons member members => rfl

/-- The text of members from behind their first quote. -/
def memberBody (members : List (String × Json)) : List Char := (memberChars members).tail

private theorem memberBody_cons (key : String) (value : Json) (members : List (String × Json)) :
    memberBody ((key, value) :: members) =
      key.toList.flatMap escapeChar ++ '"' :: ':' :: (chars value ++ memberTail members) := by
  rw [memberBody, memberChars_cons, quoted]
  simp

private theorem memberChars_of_ne_nil {members : List (String × Json)} (h : members ≠ []) :
    memberChars members = '"' :: memberBody members := by
  cases members with
  | nil => exact absurd rfl h
  | cons member members =>
    rw [memberBody, memberChars_cons, quoted, List.cons_append, List.tail_cons]

end Json

namespace Draft

open Json

/-- An array with items is read from its first item on. -/
theorem parseValue_items (items : List Json) (hne : items ≠ []) (fuel : ℕ) (rest : List Char) :
    parseValue (fuel + 1) ('[' :: (itemChars items ++ rest)) =
      (.array (parseItems fuel (itemChars items ++ rest)).1
        (parseItems fuel (itemChars items ++ rest)).2.1,
        (parseItems fuel (itemChars items ++ rest)).2.2) := by
  obtain ⟨item, items, rfl⟩ := List.exists_cons_of_ne_nil hne
  obtain ⟨c, more, hchars, hkind⟩ := chars_eq_cons item
  rw [itemChars_cons, hchars, List.cons_append, List.cons_append, parseValue, skipBlanks_cons rfl]
  simp only [skipBlanks_cons (isBlank_of_kindOf hkind)]
  split
  · rename_i heq
    cases heq
  · rename_i heq
    cases heq
    cases hkind
  · rfl

-- Each character pays for two calls: one that reads a value, and one that goes on in the list
-- around it. So the fuel that is left is enough for what is left of the text.
mutual

/-- A value is read from its text, and nothing more. -/
theorem parseValue_chars : (v : Json) → (rest : List Char) → {fuel : ℕ} →
    (∀ n ∈ v.numbers, n.ReadsBack) → Closes rest → 2 * v.chars.length ≤ fuel →
    parseValue fuel (v.chars ++ rest) = (v.draft, some rest)
  | .null, rest, fuel, _, _, hfuel | .bool true, rest, fuel, _, _, hfuel
  | .bool false, rest, fuel, _, _, hfuel => by
    obtain ⟨fuel, rfl⟩ : ∃ f, fuel = f + 1 := ⟨fuel - 1, by simp [chars] at hfuel; omega⟩
    rw [chars, List.cons_append, parseValue, skipBlanks_cons rfl]
    rfl
  | .number n, rest, fuel, hn, hrest, hfuel => by
    have hpos := List.length_pos_of_ne_nil n.text_ne_nil
    rw [chars] at hfuel ⊢
    obtain ⟨fuel, rfl⟩ : ∃ f, fuel = f + 1 := ⟨fuel - 1, by omega⟩
    rw [numbers] at hn
    exact parseValue_number (hn n (List.mem_singleton_self n)) hrest fuel
  | .string s, rest, fuel, _, _, hfuel => by
    rw [chars, quoted] at hfuel ⊢
    obtain ⟨fuel, rfl⟩ : ∃ f, fuel = f + 1 := ⟨fuel - 1, by simp at hfuel; omega⟩
    rw [List.cons_append, List.append_assoc, parseValue, skipBlanks_cons rfl]
    show leaf .string (quotedText (s.toList.flatMap escapeChar ++ '"' :: rest) [] false none) = _
    rw [quotedText_quoted, leaf, draft]
  | .array items, rest, fuel, hn, _, hfuel => by
    rw [chars, List.length_cons] at hfuel
    rw [numbers] at hn
    obtain ⟨fuel, rfl⟩ : ∃ f, fuel = f + 1 := ⟨fuel - 1, by omega⟩
    rw [chars, List.cons_append, draft]
    by_cases hne : items = []
    · subst hne
      rw [itemChars, parseValue, skipBlanks_cons rfl]
      rfl
    · rw [parseValue_items items hne, parseItems_chars items rest hne hn (by omega)]
  | .object members, rest, fuel, hn, _, hfuel => by
    rw [chars, List.length_cons] at hfuel
    rw [numbers] at hn
    obtain ⟨fuel, rfl⟩ : ∃ f, fuel = f + 1 := ⟨fuel - 1, by omega⟩
    rw [chars, List.cons_append, draft]
    by_cases hne : members = []
    · subst hne
      rw [memberChars, parseValue, skipBlanks_cons rfl]
      rfl
    · rw [memberChars_of_ne_nil hne, List.length_cons] at hfuel
      rw [memberChars_of_ne_nil hne, List.cons_append, parseValue, skipBlanks_cons rfl]
      simp only [skipBlanks_cons (rfl : isBlank '"' = false),
        parseMembers_chars members rest hne hn (by omega : _ ≤ fuel)]

/-- Items are read up to the closing bracket. -/
theorem parseItems_chars : (items : List Json) → (rest : List Char) → {fuel : ℕ} → items ≠ [] →
    (∀ n ∈ numbersItems items, n.ReadsBack) → 2 * (itemChars items).length ≤ fuel →
    parseItems fuel (itemChars items ++ rest) = (draftItems items, none, some rest)
  | [], _, _, hne, _, _ => absurd rfl hne
  | item :: items, rest, fuel, _, hn, hfuel => by
    rw [numbersItems, List.forall_mem_append] at hn
    rw [itemChars_cons, List.length_append] at hfuel
    have hpos := length_chars_pos item
    have hpos' := length_itemTail_pos items
    obtain ⟨fuel, rfl⟩ : ∃ f, fuel = f + 1 := ⟨fuel - 1, by omega⟩
    rw [itemChars_cons, List.append_assoc, parseItems, draftItems,
      parseValue_chars item _ hn.1 (closes_itemTail items rest) (by omega)]
    by_cases hne : items = []
    · subst hne
      rfl
    · rw [itemTail_of_ne_nil hne, List.length_cons] at hfuel
      rw [itemTail_of_ne_nil hne, List.cons_append]
      simp only [skipBlanks_cons (rfl : isBlank ',' = false),
        parseItems_chars items rest hne hn.2 (by omega : _ ≤ fuel)]

/-- Members are read up to the closing brace. -/
theorem parseMembers_chars : (members : List (String × Json)) → (rest : List Char) → {fuel : ℕ} →
    members ≠ [] → (∀ n ∈ numbersMembers members, n.ReadsBack) →
    2 * (memberBody members).length ≤ fuel →
    parseMembers fuel (memberBody members ++ rest) = (draftMembers members, none, some rest)
  | [], _, _, hne, _, _ => absurd rfl hne
  | (key, value) :: members, rest, fuel, _, hn, hfuel => by
    rw [numbersMembers, List.forall_mem_append] at hn
    rw [memberBody_cons, List.length_append, List.length_cons, List.length_cons,
      List.length_append] at hfuel
    have hpos := length_memberTail_pos members
    obtain ⟨fuel, rfl⟩ : ∃ f, fuel = f + 1 := ⟨fuel - 1, by omega⟩
    rw [memberBody_cons, List.append_assoc, parseMembers, draftMembers]
    simp only [List.cons_append, quotedText_quoted, List.append_assoc,
      skipBlanks_cons (rfl : isBlank ':' = false),
      parseValue_chars value _ hn.1 (closes_memberTail members rest) (by omega : _ ≤ fuel)]
    by_cases hne : members = []
    · subst hne
      rfl
    · rw [memberTail_of_ne_nil hne, memberChars_of_ne_nil hne, List.length_cons,
        List.length_cons] at hfuel
      rw [memberTail_of_ne_nil hne, memberChars_of_ne_nil hne, List.cons_append, List.cons_append]
      simp only [skipBlanks_cons (rfl : isBlank ',' = false),
        skipBlanks_cons (rfl : isBlank '"' = false),
        parseMembers_chars members rest hne hn.2 (by omega : _ ≤ fuel)]

end

end Draft

/-- **The text of a value is read as the value**, if its numbers read back. -/
theorem Json.parse_text {v : Json} (h : ∀ n ∈ v.numbers, n.ReadsBack) :
    Draft.parse v.text = (v.draft, false) := by
  have hvalue := Draft.parseValue_chars v [] h (fun c hc => nomatch hc)
    (by omega : _ ≤ 2 * v.chars.length + 2)
  rw [List.append_nil] at hvalue
  rw [Draft.parse, Json.text, String.toList_ofList, hvalue]
  rfl

end Dataflow
