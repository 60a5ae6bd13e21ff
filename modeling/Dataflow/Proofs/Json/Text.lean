/-
The text of a value determines the value, and where it ends.

Two values written in front of something else, with the same characters in all, are the same value,
and what stands behind them is the same. Only a numeral does not show its own end, so what follows
must not continue one. The statement is proved for values, items and members together; a quoted text
ends at its first quote, since quotes inside it are escaped.

* `Json.quoted_append` — quoted texts;
* `Json.chars_append` — values;
* `Json.text_injective` — whole texts.
-/
import Mathlib
import Dataflow.Json.Basic
import Dataflow.Proofs.Decimal.Text
namespace Dataflow

namespace Json

/-! ### Quoted texts -/

/-- The value of a hexadecimal digit. -/
def hexDigit (c : Char) : ℕ := if c.isDigit then c.toNat - 48 else c.toNat - 87

/-- The character that an escape stands for, and what follows it. -/
def unescape : List Char → Option (Char × List Char)
  | '\\' :: 'u' :: _ :: _ :: high :: low :: rest =>
    some (Char.ofNat (16 * hexDigit high + hexDigit low), rest)
  | '\\' :: 'n' :: rest => some ('\n', rest)
  | '\\' :: 'r' :: rest => some ('\r', rest)
  | '\\' :: 't' :: rest => some ('\t', rest)
  | '\\' :: 'b' :: rest => some (Char.ofNat 8, rest)
  | '\\' :: 'f' :: rest => some (Char.ofNat 12, rest)
  | '\\' :: c :: rest => some (c, rest)
  | c :: rest => some (c, rest)
  | [] => none

theorem hexDigit_digitChar {d : ℕ} (h : d < 16) : hexDigit (Nat.digitChar d) = d := by
  interval_cases d <;> rfl

/-- An escaped character can be read back. -/
theorem unescape_escapeChar (c : Char) (rest : List Char) :
    unescape (escapeChar c ++ rest) = some (c, rest) := by
  have hofNat : ∀ n, c.toNat = n → Char.ofNat n = c := fun n h => h ▸ Char.ofNat_toNat c
  rw [escapeChar]
  split
  · rename_i h
    rw [h]
    rfl
  split
  · rename_i h
    rw [h]
    rfl
  split
  · rename_i h
    rw [h]
    rfl
  split
  · rename_i h
    rw [h]
    rfl
  split
  · rename_i h
    rw [h]
    rfl
  split
  · rename_i h
    rw [← hofNat 8 h]
    rfl
  split
  · rename_i h
    rw [← hofNat 12 h]
    rfl
  split
  · rename_i h
    show some (Char.ofNat (16 * hexDigit (Nat.digitChar (c.toNat / 16)) +
      hexDigit (Nat.digitChar (c.toNat % 16))), rest) = _
    rw [hexDigit_digitChar (by omega), hexDigit_digitChar (by omega), Nat.div_add_mod,
      Char.ofNat_toNat]
  · rename_i _ hslash _ _ _ _ _ _
    rw [List.singleton_append, unescape.eq_def]
    split <;> simp_all

/-- An escaped character does not start with a quote. -/
theorem escapeChar_eq_cons (c : Char) : ∃ d rest, escapeChar c = d :: rest ∧ d ≠ '"' := by
  rw [escapeChar]
  split
  · exact ⟨_, _, rfl, by decide⟩
  split
  · exact ⟨_, _, rfl, by decide⟩
  split
  · exact ⟨_, _, rfl, by decide⟩
  split
  · exact ⟨_, _, rfl, by decide⟩
  split
  · exact ⟨_, _, rfl, by decide⟩
  split
  · exact ⟨_, _, rfl, by decide⟩
  split
  · exact ⟨_, _, rfl, by decide⟩
  split
  · exact ⟨_, _, rfl, by decide⟩
  · rename_i h _ _ _ _ _ _ _
    exact ⟨c, [], rfl, h⟩

/-- Escaped characters up to a quote: the characters and what follows the quote. -/
theorem escaped_append {cs ds rest rest' : List Char}
    (h : cs.flatMap escapeChar ++ '"' :: rest = ds.flatMap escapeChar ++ '"' :: rest') :
    cs = ds ∧ rest = rest' := by
  induction cs generalizing ds with
  | nil =>
    cases ds with
    | nil => exact ⟨rfl, (List.cons.inj h).2⟩
    | cons d ds =>
      obtain ⟨first, more, hd, hne⟩ := escapeChar_eq_cons d
      rw [List.flatMap_cons, hd] at h
      exact absurd (List.cons.inj h).1.symm hne
  | cons c cs ih =>
    cases ds with
    | nil =>
      obtain ⟨first, more, hc, hne⟩ := escapeChar_eq_cons c
      rw [List.flatMap_cons, hc] at h
      exact absurd (List.cons.inj h).1 hne
    | cons d ds =>
      rw [List.flatMap_cons, List.flatMap_cons, List.append_assoc, List.append_assoc] at h
      have hread := congrArg unescape h
      rw [unescape_escapeChar, unescape_escapeChar] at hread
      obtain ⟨rfl, hmore⟩ := Prod.mk.inj (Option.some.inj hread)
      obtain ⟨rfl, hrest⟩ := ih hmore
      exact ⟨rfl, hrest⟩

theorem quoted_append {s t : String} {rest rest' : List Char}
    (h : quoted s ++ rest = quoted t ++ rest') : s = t ∧ rest = rest' := by
  rw [quoted, quoted, List.cons_append, List.cons_append, List.append_assoc,
    List.append_assoc] at h
  obtain ⟨hchars, hrest⟩ := escaped_append (List.cons.inj h).2
  exact ⟨String.toList_inj.1 hchars, hrest⟩

/-! ### Values -/

/-- What follows does not continue a numeral. -/
def Stops (rest : List Char) : Prop := ∀ c ∈ rest.head?, Double.isNumeric c = false

private theorem stops_nil : Stops [] := fun _ h => nomatch h

private theorem stops_cons {c : Char} (hc : Double.isNumeric c = false) (rest : List Char) :
    Stops (c :: rest) := fun d hd => by
  cases hd
  exact hc

private theorem takeWhile_numeric {cs rest : List Char} (hcs : ∀ c ∈ cs, Double.isNumeric c = true)
    (hrest : Stops rest) : (cs ++ rest).takeWhile Double.isNumeric = cs := by
  rw [List.takeWhile_append_of_pos hcs]
  cases rest with
  | nil => exact List.append_nil cs
  | cons c rest =>
    rw [List.takeWhile_cons_of_neg (by simp [hrest c rfl]), List.append_nil]

private theorem number_append {m n : Number} {rest rest' : List Char} (hr : Stops rest)
    (hr' : Stops rest') (h : m.text ++ rest = n.text ++ rest') : m = n ∧ rest = rest' := by
  have htext : m.text = n.text := by
    rw [← takeWhile_numeric m.numeric_text hr, h, takeWhile_numeric n.numeric_text hr']
  rw [htext] at h
  exact ⟨Number.text_injective htext, List.append_cancel_left h⟩

/-- The kinds of values. -/
inductive Kind where
  | null
  | bool
  | number
  | string
  | array
  | object
  deriving DecidableEq

/-- The kind of a value. -/
def kind : Json → Kind
  | .null => .null
  | .bool _ => .bool
  | .number _ => .number
  | .string _ => .string
  | .array _ => .array
  | .object _ => .object

/-- The kind of the values whose text starts with a character. -/
def kindOf (c : Char) : Option Kind :=
  if c = 'n' then some .null
  else if c = 't' ∨ c = 'f' then some .bool
  else if c = '"' then some .string
  else if c = '[' then some .array
  else if c = '{' then some .object
  else if Double.isNumeric c then some .number
  else none

theorem kindOf_numeric {c : Char} (h : Double.isNumeric c = true) : kindOf c = some .number := by
  have hne : ∀ d : Char, Double.isNumeric d = false → c ≠ d := by
    rintro d hd rfl
    rw [hd] at h
    cases h
  rw [kindOf, if_neg (hne 'n' rfl), if_neg (not_or.2 ⟨hne 't' rfl, hne 'f' rfl⟩),
    if_neg (hne '"' rfl), if_neg (hne '[' rfl), if_neg (hne '{' rfl), if_pos h]

/-- The first character of a text tells the kind of the value. -/
theorem chars_eq_cons (a : Json) : ∃ c rest, a.chars = c :: rest ∧ kindOf c = some a.kind := by
  match a with
  | .null => exact ⟨_, _, by rw [chars], rfl⟩
  | .bool true => exact ⟨_, _, by rw [chars], rfl⟩
  | .bool false => exact ⟨_, _, by rw [chars], rfl⟩
  | .number n =>
    cases htext : n.text with
    | nil => exact absurd htext n.text_ne_nil
    | cons c rest =>
      refine ⟨c, rest, by rw [chars, htext], kindOf_numeric (n.numeric_text c ?_)⟩
      rw [htext]
      exact List.mem_cons_self ..
  | .string s => exact ⟨_, _, by rw [chars, quoted], rfl⟩
  | .array items => exact ⟨_, _, by rw [chars], rfl⟩
  | .object members => exact ⟨_, _, by rw [chars], rfl⟩

private theorem kind_eq_of_chars {a b : Json} {rest rest' : List Char}
    (h : a.chars ++ rest = b.chars ++ rest') : a.kind = b.kind := by
  obtain ⟨c, more, hc, hkind⟩ := chars_eq_cons a
  obtain ⟨d, more', hd, hkind'⟩ := chars_eq_cons b
  rw [hc, hd, List.cons_append, List.cons_append] at h
  rw [(List.cons.inj h).1, hkind'] at hkind
  exact (Option.some.inj hkind).symm

/-- No value starts with a character that tells no kind. -/
theorem chars_ne_cons {a : Json} {c : Char} {rest more : List Char} (hc : kindOf c = none) :
    a.chars ++ rest ≠ c :: more := by
  intro h
  obtain ⟨d, others, hd, hkind⟩ := chars_eq_cons a
  rw [hd, List.cons_append] at h
  rw [(List.cons.inj h).1, hc] at hkind
  cases hkind

/-- The items after the first, with the comma before them. -/
def itemTail : List Json → List Char
  | [] => [']']
  | item :: rest => ',' :: itemChars (item :: rest)

theorem itemChars_cons (item : Json) (rest : List Json) :
    itemChars (item :: rest) = chars item ++ itemTail rest := by
  cases rest with
  | nil => rw [itemChars, itemTail]
  | cons next rest => rw [itemChars, itemTail]; exact List.cons_ne_nil next rest

/-- The members after the first, with the comma before them. -/
def memberTail : List (String × Json) → List Char
  | [] => ['}']
  | member :: rest => ',' :: memberChars (member :: rest)

theorem memberChars_cons (key : String) (value : Json) (rest : List (String × Json)) :
    memberChars ((key, value) :: rest) =
      quoted key ++ ':' :: (chars value ++ memberTail rest) := by
  cases rest with
  | nil => rw [memberChars, memberTail]
  | cons next rest => rw [memberChars, memberTail]; exact List.cons_ne_nil next rest

private theorem stops_itemTail (items : List Json) (rest : List Char) :
    Stops (itemTail items ++ rest) := by
  cases items <;> exact stops_cons rfl _

private theorem stops_memberTail (members : List (String × Json)) (rest : List Char) :
    Stops (memberTail members ++ rest) := by
  cases members <;> exact stops_cons rfl _

private theorem eq_null_of_kind : {b : Json} → b.kind = .null → b = .null
  | .null, _ => rfl

private theorem eq_bool_of_kind : {b : Json} → b.kind = .bool → ∃ x, b = .bool x
  | .bool x, _ => ⟨x, rfl⟩

private theorem eq_number_of_kind : {b : Json} → b.kind = .number → ∃ n, b = .number n
  | .number n, _ => ⟨n, rfl⟩

private theorem eq_string_of_kind : {b : Json} → b.kind = .string → ∃ s, b = .string s
  | .string s, _ => ⟨s, rfl⟩

private theorem eq_array_of_kind : {b : Json} → b.kind = .array → ∃ items, b = .array items
  | .array items, _ => ⟨items, rfl⟩

private theorem eq_object_of_kind : {b : Json} → b.kind = .object → ∃ members, b = .object members
  | .object members, _ => ⟨members, rfl⟩

mutual

/-- A value and what follows it can be told from their characters. -/
theorem chars_append : (a b : Json) → {rest rest' : List Char} → Stops rest → Stops rest' →
    a.chars ++ rest = b.chars ++ rest' → a = b ∧ rest = rest'
  | .null, b, _, _, _, _, h => by
    obtain rfl := eq_null_of_kind (kind_eq_of_chars h).symm
    exact ⟨rfl, List.append_cancel_left h⟩
  | .bool x, b, _, _, _, _, h => by
    obtain ⟨y, rfl⟩ := eq_bool_of_kind (kind_eq_of_chars h).symm
    cases x <;> cases y
    · exact ⟨rfl, List.append_cancel_left h⟩
    · rw [chars, chars] at h
      exact absurd (List.cons.inj h).1 (by decide)
    · rw [chars, chars] at h
      exact absurd (List.cons.inj h).1 (by decide)
    · exact ⟨rfl, List.append_cancel_left h⟩
  | .number m, b, _, _, hr, hr', h => by
    obtain ⟨n, rfl⟩ := eq_number_of_kind (kind_eq_of_chars h).symm
    rw [chars, chars] at h
    obtain ⟨rfl, hrest⟩ := number_append hr hr' h
    exact ⟨rfl, hrest⟩
  | .string s, b, _, _, _, _, h => by
    obtain ⟨t, rfl⟩ := eq_string_of_kind (kind_eq_of_chars h).symm
    rw [chars, chars] at h
    obtain ⟨rfl, hrest⟩ := quoted_append h
    exact ⟨rfl, hrest⟩
  | .array items, b, _, _, _, _, h => by
    obtain ⟨items', rfl⟩ := eq_array_of_kind (kind_eq_of_chars h).symm
    rw [chars, chars] at h
    obtain ⟨rfl, hrest⟩ := itemChars_append items items' (List.cons.inj h).2
    exact ⟨rfl, hrest⟩
  | .object members, b, _, _, _, _, h => by
    obtain ⟨members', rfl⟩ := eq_object_of_kind (kind_eq_of_chars h).symm
    rw [chars, chars] at h
    obtain ⟨rfl, hrest⟩ := memberChars_append members members' (List.cons.inj h).2
    exact ⟨rfl, hrest⟩

/-- The items of an array and what follows the closing bracket can be told from their
characters. -/
theorem itemChars_append : (a b : List Json) → {rest rest' : List Char} →
    itemChars a ++ rest = itemChars b ++ rest' → a = b ∧ rest = rest'
  | [], [], _, _, h => ⟨rfl, List.append_cancel_left h⟩
  | [], item :: items, _, _, h => by
    rw [itemChars_cons, itemChars, List.append_assoc] at h
    exact absurd h.symm (chars_ne_cons rfl)
  | item :: items, [], _, _, h => by
    rw [itemChars_cons, itemChars, List.append_assoc] at h
    exact absurd h (chars_ne_cons rfl)
  | item :: items, item' :: items', _, _, h => by
    rw [itemChars_cons, itemChars_cons, List.append_assoc, List.append_assoc] at h
    obtain ⟨rfl, htail⟩ := chars_append item item' (stops_itemTail _ _) (stops_itemTail _ _) h
    cases items with
    | nil =>
      cases items' with
      | nil => exact ⟨rfl, (List.cons.inj htail).2⟩
      | cons next items' => exact absurd (List.cons.inj htail).1 (by decide)
    | cons next items =>
      cases items' with
      | nil => exact absurd (List.cons.inj htail).1 (by decide)
      | cons next' items' =>
        obtain ⟨heq, hrest⟩ :=
          itemChars_append (next :: items) (next' :: items') (List.cons.inj htail).2
        exact ⟨by rw [heq], hrest⟩

/-- The members of an object and what follows the closing brace can be told from their
characters. -/
theorem memberChars_append : (a b : List (String × Json)) → {rest rest' : List Char} →
    memberChars a ++ rest = memberChars b ++ rest' → a = b ∧ rest = rest'
  | [], [], _, _, h => ⟨rfl, List.append_cancel_left h⟩
  | [], (key, value) :: members, _, _, h => by
    rw [memberChars_cons, memberChars, quoted] at h
    exact absurd (List.cons.inj h).1 (by decide)
  | (key, value) :: members, [], _, _, h => by
    rw [memberChars_cons, memberChars, quoted] at h
    exact absurd (List.cons.inj h).1 (by decide)
  | (key, value) :: members, (key', value') :: members', rest, rest', h => by
    rw [memberChars_cons, memberChars_cons, List.append_assoc, List.append_assoc] at h
    obtain ⟨rfl, hmore⟩ := quoted_append h
    have hvalue : value.chars ++ (memberTail members ++ rest) =
        value'.chars ++ (memberTail members' ++ rest') := by
      rw [← List.append_assoc, ← List.append_assoc]
      exact (List.cons.inj hmore).2
    obtain ⟨rfl, htail⟩ :=
      chars_append value value' (stops_memberTail _ _) (stops_memberTail _ _) hvalue
    cases members with
    | nil =>
      cases members' with
      | nil => exact ⟨rfl, (List.cons.inj htail).2⟩
      | cons next members' => exact absurd (List.cons.inj htail).1 (by decide)
    | cons next members =>
      cases members' with
      | nil => exact absurd (List.cons.inj htail).1 (by decide)
      | cons next' members' =>
        obtain ⟨heq, hrest⟩ :=
          memberChars_append (next :: members) (next' :: members') (List.cons.inj htail).2
        exact ⟨by rw [heq], hrest⟩

end

/-- **Values with one text are one value.** -/
theorem text_injective : Function.Injective text := by
  intro a b h
  have hchars : a.chars ++ [] = b.chars ++ [] := by
    have := congrArg String.toList h
    rwa [text, text, String.toList_ofList, String.toList_ofList, ← List.append_nil a.chars,
      ← List.append_nil b.chars] at this
  exact (chars_append a b stops_nil stops_nil hchars).1

end Json

end Dataflow
