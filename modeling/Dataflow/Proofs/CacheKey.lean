/-
When two calls have one key.

A key is the name of a function, written as it is, and behind it the texts of the arguments and of
the callbacks, each after two colons. Names are free, so a name may itself look like the beginning
of a key. Then the same key can be cut in two ways, but only in one manner: the longer name takes in
the arguments of the other call, and what is left for its own arguments are the callbacks of the
other.

That no other cut is possible is seen by reading along. Outside of its quoted texts a value never
has two colons in a row, so a cut inside a value would stand inside a quoted text. From there on the
two readings take opposite sides at every quote, and cannot both end outside.

* `Json.Place.read_chars` — a value read from outside of quotes ends outside of quotes;
* `Json.Place.Opposite.read` — two readings on opposite sides stay there;
* `MemoCache.key_eq_iff` — exactly when two calls have one key.
-/
import Mathlib
import Dataflow.Environment
import Dataflow.Library
import Dataflow.Proofs.MemoCache
namespace Dataflow

namespace Json

/-! ### Reading along a text -/

/-- Where a reader of compact text stands. -/
inductive Place where
  /-- Outside of quoted texts. -/
  | outside
  /-- Behind a colon, outside of quoted texts. -/
  | colon
  /-- Inside a quoted text. -/
  | inside
  /-- Behind a backslash, inside a quoted text. -/
  | escaped
  deriving DecidableEq

namespace Place

/-- The place behind a character that is read outside of quoted texts. There is no backslash there,
and a colon behind a colon is read only when `pairs` of them are allowed. -/
def stepOutside (pairs : Bool) (place : Place) (c : Char) : Option Place :=
  if c = '"' then some .inside
  else if c = '\\' then none
  else if c = ':' then if place = .colon ∧ pairs = false then none else some .colon
  else some .outside

/-- The place behind a character. -/
def step (pairs : Bool) (place : Place) (c : Char) : Option Place :=
  match place with
  | .outside | .colon => stepOutside pairs place c
  | .inside => some (if c = '"' then .outside else if c = '\\' then .escaped else .inside)
  | .escaped => some .inside

/-- The place behind a text. -/
def read (pairs : Bool) : Place → List Char → Option Place
  | place, [] => some place
  | place, c :: rest => (step pairs place c).bind fun next => read pairs next rest

/-- Outside of quoted texts. -/
def IsOutside (place : Place) : Prop := place = .outside ∨ place = .colon

variable {pairs : Bool} {place : Place}

theorem read_append (place : Place) (a b : List Char) :
    read pairs place (a ++ b) = (read pairs place a).bind fun next => read pairs next b := by
  induction a generalizing place with
  | nil => rfl
  | cons c rest ih =>
    rw [List.cons_append, read, read]
    cases step pairs place c with
    | none => rfl
    | some next => exact ih next

/-- A text that is read in two parts. -/
theorem read_append_of_eq {a b : List Char} {next : Place} (h : read pairs place a = some next) :
    read pairs place (a ++ b) = read pairs next b := by
  rw [read_append, h, Option.bind_some]

private theorem step_of_isOutside (h : place.IsOutside) (c : Char) :
    step pairs place c = stepOutside pairs place c := by
  rcases h with rfl | rfl <;> rfl

/-- A character without a meaning of its own. -/
def isPlain (c : Char) : Bool := c ≠ '"' && c ≠ '\\' && c ≠ ':'

private theorem step_of_isPlain (h : place.IsOutside) {c : Char} (hc : isPlain c = true) :
    step pairs place c = some .outside := by
  simp only [isPlain, Bool.and_eq_true, decide_eq_true_eq] at hc
  rw [step_of_isOutside h, stepOutside, if_neg hc.1.1, if_neg hc.1.2, if_neg hc.2]

private theorem isPlain_of_isNumeric {c : Char} (h : Double.isNumeric c = true) :
    isPlain c = true := by
  simp only [isPlain, Bool.and_eq_true, decide_eq_true_eq]
  refine ⟨⟨?_, ?_⟩, ?_⟩ <;> (rintro rfl; exact absurd h (by decide))

/-- Plain characters stay outside. -/
theorem read_of_isPlain (h : place.IsOutside) {cs : List Char} (hne : cs ≠ [])
    (hcs : ∀ c ∈ cs, isPlain c = true) : read pairs place cs = some .outside := by
  induction cs generalizing place with
  | nil => exact absurd rfl hne
  | cons c rest ih =>
    rw [read, step_of_isPlain h (hcs c (List.mem_cons_self ..)), Option.bind_some]
    cases rest with
    | nil => rfl
    | cons d rest =>
      exact ih (.inl rfl) (List.cons_ne_nil d rest) fun e he => hcs e (List.mem_cons_of_mem c he)

/-- A text that is read without pairs of colons is read in the same way when they are allowed. -/
theorem read_allowing {cs : List Char} {next : Place} (h : read false place cs = some next) :
    read true place cs = some next := by
  induction cs generalizing place with
  | nil => exact h
  | cons c rest ih =>
    rw [read] at h ⊢
    obtain ⟨between, hstep, hrest⟩ := Option.bind_eq_some_iff.1 h
    have hstep' : step true place c = some between := by
      cases place with
      | inside | escaped => exact hstep
      | outside | colon =>
        simp only [step, stepOutside] at hstep ⊢
        split_ifs at hstep ⊢ <;> simp_all
    rw [hstep']
    exact ih hrest

/-! ### Opposite sides -/

/-- One of the places is outside of quoted texts and the other inside. -/
def Opposite (p q : Place) : Prop :=
  (p.IsOutside ∧ q = .inside) ∨ (p = .inside ∧ q.IsOutside)

theorem Opposite.symm {p q : Place} (h : p.Opposite q) : q.Opposite p := by
  rcases h with ⟨hp, hq⟩ | ⟨hp, hq⟩
  · exact .inr ⟨hq, hp⟩
  · exact .inl ⟨hq, hp⟩

/-- A quote takes both to the other side; a backslash is read by neither. -/
theorem Opposite.step {p q p' q' : Place} {c : Char} (h : p.Opposite q)
    (hp : Place.step pairs p c = some p') (hq : Place.step pairs q c = some q') :
    p'.Opposite q' := by
  -- by symmetry the first reader is the one outside
  wlog hout : p.IsOutside ∧ q = .inside generalizing p q p' q'
  · exact (this h.symm hq hp (h.resolve_left hout).symm).symm
  obtain ⟨hp₀, rfl⟩ := hout
  rw [step_of_isOutside hp₀, stepOutside] at hp
  simp only [Place.step, Option.some.injEq] at hq
  split_ifs at hp hq <;> cases hp <;> cases hq
  · exact .inr ⟨rfl, .inl rfl⟩
  · exact .inl ⟨.inr rfl, rfl⟩
  · exact .inl ⟨.inl rfl, rfl⟩

/-- **Two readings on opposite sides stay there.** -/
theorem Opposite.read {p q p' q' : Place} {cs : List Char} (h : p.Opposite q)
    (hp : Place.read pairs p cs = some p') (hq : Place.read pairs q cs = some q') :
    p'.Opposite q' := by
  induction cs generalizing p q with
  | nil =>
    cases hp
    cases hq
    exact h
  | cons c rest ih =>
    obtain ⟨p₁, hp₁, hp⟩ := Option.bind_eq_some_iff.1 hp
    obtain ⟨q₁, hq₁, hq⟩ := Option.bind_eq_some_iff.1 hq
    exact ih (h.step hp₁ hq₁) hp hq

theorem not_opposite_outside : ¬ Opposite .outside .outside := by
  rintro (⟨-, h⟩ | ⟨h, -⟩) <;> cases h

/-! ### Values -/

/-- The digits of a control character are no quotes. -/
theorem read_controlCode {c : Char} (h : c.toNat < 32) :
    read pairs .inside (controlCode c) = some .inside := by
  have hdigit : ∀ d, d < 16 → Nat.digitChar d ≠ '"' ∧ Nat.digitChar d ≠ '\\' := by decide
  have hhigh := hdigit (c.toNat / 16) (by omega)
  have hlow := hdigit (c.toNat % 16) (by omega)
  simp [controlCode, read, step, hhigh.1, hhigh.2, hlow.1, hlow.2]

private theorem read_escapeChar (c : Char) : read pairs .inside (escapeChar c) = some .inside := by
  rw [escapeChar]
  split_ifs with hquote hslash _ _ _ _ _ hcontrol
  -- a backslash and one letter are read in two steps, whatever the letter is
  any_goals rfl
  · exact read_controlCode hcontrol
  · simp [read, step, hquote, hslash]

/-- A quoted text ends outside, and what stands in it does not matter. -/
theorem read_quoted (h : place.IsOutside) (s : String) :
    read pairs place (quoted s) = some .outside := by
  have hchars : ∀ cs : List Char, read pairs .inside (cs.flatMap escapeChar) = some .inside := by
    intro cs
    induction cs with
    | nil => rfl
    | cons c rest ih => rw [List.flatMap_cons, read_append_of_eq (read_escapeChar c), ih]
  rw [quoted, read, step_of_isOutside h]
  show read pairs .inside _ = _
  rw [read_append_of_eq (hchars _)]
  rfl

mutual

/-- **A value that is read from outside of quotes ends outside of quotes**, without two colons in a
row. -/
theorem read_chars : (value : Json) → {place : Place} → place.IsOutside →
    read pairs place value.chars = some .outside
  | .null, _, h => by
    rw [chars]
    exact read_of_isPlain h (by simp) (by simp [isPlain])
  | .bool true, _, h => by
    rw [chars]
    exact read_of_isPlain h (by simp) (by simp [isPlain])
  | .bool false, _, h => by
    rw [chars]
    exact read_of_isPlain h (by simp) (by simp [isPlain])
  | .number n, _, h => by
    rw [chars]
    refine read_of_isPlain h n.text_ne_nil fun c hc => ?_
    exact isPlain_of_isNumeric (n.numeric_text c hc)
  | .string s, _, h => by
    rw [chars]
    exact read_quoted h s
  | .array items, _, h => by
    rw [chars, read, step_of_isPlain h rfl]
    exact read_itemChars items
  | .object members, _, h => by
    rw [chars, read, step_of_isPlain h rfl]
    exact read_memberChars members

private theorem read_itemChars :
    (items : List Json) → read pairs .outside (itemChars items) = some .outside
  | [] => by
    rw [itemChars]
    rfl
  | item :: rest => by
    rw [itemChars_cons, read_append_of_eq (read_chars item (.inl rfl))]
    cases rest with
    | nil => rfl
    | cons next rest => exact read_itemChars (next :: rest)

/-- The members of an object, from behind the opening brace. -/
theorem read_memberChars : (members : List (String × Json)) →
    read pairs .outside (memberChars members) = some .outside
  | [] => by
    rw [memberChars]
    rfl
  | (key, value) :: rest => by
    rw [memberChars_cons, read_append_of_eq (read_quoted (.inl rfl) key)]
    show read pairs .colon (value.chars ++ memberTail rest) = _
    rw [read_append_of_eq (read_chars value (.inr rfl))]
    cases rest with
    | nil => rfl
    | cons next rest => exact read_memberChars (next :: rest)

end

end Place

end Json

/-! ### Marks inside a value -/

namespace MemoCache

open Json (Place memberChars)

private theorem read_keyTail (callbacks : Record Json) :
    Place.read true .outside (keyTail callbacks) = some .outside := by
  rw [keyTail]
  split
  · rfl
  · show Place.read true .outside (memberChars callbacks.entries) = _
    exact Place.read_memberChars _

/-- What follows the name of a call and the mark behind it ends outside of quoted texts. -/
theorem read_call (args callbacks : Record Json) :
    Place.read true .outside (memberChars args.entries ++ keyTail callbacks) = some .outside := by
  rw [Place.read_append_of_eq (Place.read_memberChars _), read_keyTail]

/-- **No call starts in the middle of a value.** If a mark stands at the end of `before`, in front
of the last members of an object, what follows it is not a call. -/
theorem not_mark_of_memberChars {members : List (String × Json)} {before more tail rest : List Char}
    (hmembers : memberChars members = before ++ more) (hne : more ≠ [])
    (htail : Place.read true .outside tail = some .outside)
    (hrest : Place.read true .outside rest = some .outside) : more ++ tail ≠ mark ++ rest := by
  intro h
  have hread : Place.read false .outside (before ++ more) = some .outside :=
    hmembers ▸ Place.read_memberChars members
  rw [Place.read_append] at hread
  obtain ⟨place, -, hmore⟩ := Option.bind_eq_some_iff.1 hread
  by_cases hplace : place.IsOutside
  · -- Outside of quotes the members would have two colons in a row, or end with one.
    match more with
    | [c] =>
      simp only [mark, List.cons_append, List.cons.injEq] at h
      obtain ⟨rfl, -⟩ := h
      rcases hplace with rfl | rfl <;> simp [Place.read, Place.step, Place.stepOutside] at hmore
    | c :: d :: more =>
      simp only [mark, List.cons_append, List.cons.injEq] at h
      obtain ⟨rfl, rfl, -⟩ := h
      rcases hplace with rfl | rfl <;> simp [Place.read, Place.step, Place.stepOutside] at hmore
  · -- Inside of quotes the call would be read with quoted texts and all else exchanged.
    have hinside : Place.read true .inside rest = some .outside := by
      have hboth : Place.read true place (mark ++ rest) = some .outside := by
        rw [← h, Place.read_append_of_eq (Place.read_allowing hmore), htail]
      cases place with
      | outside => exact absurd (.inl rfl) hplace
      | colon => exact absurd (.inr rfl) hplace
      | inside | escaped => exact hboth
    have hopposite : Place.Opposite .outside .inside := .inl ⟨.inl rfl, rfl⟩
    exact Place.not_opposite_outside (hopposite.read hrest hinside)

/-! ### Keys -/

/-- The second call is written as the first one: the name of its function is the name of the first
with the arguments of the first behind it, and its own arguments are the callbacks of the first. -/
structure Shadows (function : String) (args callbacks : Record Json) (function' : String)
    (args' callbacks' : Record Json) : Prop where
  name : function' = function ++ "::" ++ (Json.ofRecord args).text
  args : args' = callbacks
  some_callback : callbacks ≠ .empty
  no_callback : callbacks' = .empty

variable {function function' : String} {args args' callbacks callbacks' : Record Json}

theorem Shadows.key_eq (h : Shadows function args callbacks function' args' callbacks') :
    key function args callbacks = key function' args' callbacks' := by
  obtain ⟨rfl, rfl, hsome, rfl⟩ := h
  have hne : args'.isEmpty ≠ true := fun hempty => hsome (Record.isEmpty_iff.1 hempty)
  rw [key, key, if_neg hne, if_pos (show (Record.empty : Record Json).isEmpty = true from rfl)]

/-- A longer name in front of the same key takes in the arguments and nothing else. -/
theorem shadow_of_append {between : List Char} (hb : between ≠ [])
    (h : mark ++ (memberChars args.entries ++ keyTail callbacks) =
      between ++ (mark ++ (memberChars args'.entries ++ keyTail callbacks'))) :
    between = mark ++ memberChars args.entries ∧ args' = callbacks ∧ callbacks ≠ .empty ∧
      callbacks' = .empty := by
  have hrest := read_call args' callbacks'
  obtain ⟨more, rfl, hmore⟩ := (eq_nil_or_mark h).resolve_left hb
  -- The name ends behind the arguments, for it cannot end inside them.
  obtain ⟨excess, rfl, htail⟩ : ∃ excess, more = memberChars args.entries ++ excess ∧
      keyTail callbacks =
        excess ++ (mark ++ (memberChars args'.entries ++ keyTail callbacks')) := by
    rcases List.append_eq_append_iff.1 hmore with h | ⟨inner, hmembers, hinner⟩
    · exact h
    · have hnil : inner = [] := by
        by_contra hne
        exact not_mark_of_memberChars hmembers hne (read_keyTail callbacks) hrest hinner.symm
      rw [hnil, List.append_nil] at hmembers
      rw [hnil] at hinner
      exact ⟨[], by rw [hmembers, List.append_nil], hinner.symm⟩
  rw [keyTail] at htail
  split at htail
  · cases excess <;> cases htail
  · rename_i hsome
    rcases eq_nil_or_mark htail with rfl | ⟨inner, rfl, hinner⟩
    · have hcalls : memberChars callbacks.entries ++ keyTail .empty =
          memberChars args'.entries ++ keyTail callbacks' := by
        rw [show keyTail .empty = [] from rfl, List.append_nil]
        exact List.append_cancel_left htail
      obtain ⟨rfl, rfl⟩ := keyTail_injective hcalls
      refine ⟨by rw [List.append_nil], rfl, fun hempty => ?_, rfl⟩
      exact hsome (Record.isEmpty_iff.2 hempty)
    · -- Nor can it end inside the callbacks.
      have hend : Place.read true .outside [] = some .outside := rfl
      refine absurd ?_ (not_mark_of_memberChars hinner (List.cons_ne_nil _ _) hend hrest)
      exact List.append_nil _

/-- **When two calls have one key**: when they are the same call, or when one of them has callbacks
and the other is written as that one, under a name that takes in its arguments. -/
theorem key_eq_iff :
    key function args callbacks = key function' args' callbacks' ↔
      (function = function' ∧ args = args' ∧ callbacks = callbacks') ∨
        Shadows function args callbacks function' args' callbacks' ∨
        Shadows function' args' callbacks' function args callbacks := by
  -- The shorter of two names that start one key is the beginning of the longer one.
  have hlonger : ∀ {f f' : String} {a a' c c' : Record Json} {between : List Char},
      f'.toList = f.toList ++ between → key f a c = key f' a' c' →
      (f = f' ∧ a = a' ∧ c = c') ∨ Shadows f a c f' a' c' := by
    intro f f' a a' c c' between hname hkey
    have hlist := congrArg String.toList hkey
    rw [toList_key, toList_key, hname, List.append_assoc] at hlist
    have hcut := List.append_cancel_left hlist
    by_cases hb : between = []
    · rw [hb, List.append_nil] at hname
      rw [hb, List.nil_append] at hcut
      obtain ⟨hargs, hcallbacks⟩ := keyTail_injective (List.append_cancel_left hcut)
      exact .inl ⟨(String.toList_injective hname).symm, hargs, hcallbacks⟩
    · obtain ⟨rfl, hargs, hsome, hnone⟩ := shadow_of_append hb hcut
      refine .inr ⟨String.toList_injective ?_, hargs, hsome, hnone⟩
      rw [hname]
      simp [mark, Json.text, Json.ofRecord, Json.chars]
  constructor
  · intro h
    have hlist := congrArg String.toList h
    rw [toList_key, toList_key] at hlist
    rcases List.append_eq_append_iff.1 hlist with ⟨between, hname, -⟩ | ⟨between, hname, -⟩
    · rcases hlonger hname h with heq | hshadows
      · exact .inl heq
      · exact .inr (.inl hshadows)
    · rcases hlonger hname h.symm with ⟨hf, ha, hc⟩ | hshadows
      · exact .inl ⟨hf.symm, ha.symm, hc.symm⟩
      · exact .inr (.inr hshadows)
  · rintro (⟨rfl, rfl, rfl⟩ | hshadows | hshadows)
    · rfl
    · exact hshadows.key_eq
    · exact hshadows.key_eq.symm

end MemoCache

/-! ### A call in place of another -/

/-- The body of a callback that turns flags into words. -/
def Closure.choosing : Closure where
  name := "cb"
  program := {
    input := [⟨"item", ⟨"pick", "condition"⟩, .auto "I"⟩]
    output := [⟨"callback", ⟨"pick", "data"⟩, .auto "O"⟩]
    nodes := .ofList [
      ("pick", ⟨"ctrl.if", [], .ofList [("true", .string "yes"), ("false", .string "no")]⟩)] }
  seed := .empty

/-- The words for all flags of an array; another node calls the function that `name` stands for. -/
def Program.wordsBeside (name : String) : Program where
  input := [⟨"flags", ⟨"map", "arr"⟩, .arrayOf .bool⟩, ⟨"body", ⟨"other", "cb"⟩, .plain .any none⟩]
  output := [⟨"words", ⟨"map", "arr"⟩, .arrayOf .string⟩, ⟨"other", ⟨"other", "arr"⟩, .string⟩]
  nodes := .ofList [
    ("map", ⟨"array.map", [⟨"pick", "item", "condition"⟩], .empty⟩),
    ("pick", ⟨"ctrl.if", [⟨"map", "data", "callback"⟩],
      .ofList [("true", .string "yes"), ("false", .string "no")]⟩),
    ("other", ⟨name, [], .empty⟩)]

/-- A program that answers `own`, whatever it is given. -/
def Program.ownWord : Program where
  input := [⟨"cb", ⟨"pick", "false"⟩, .plain .any none⟩]
  output := [⟨"arr", ⟨"pick", "data"⟩, .string⟩]
  nodes := .ofList [
    ("pick", ⟨"ctrl.if", [], .ofList [("condition", .bool true), ("true", .string "own")]⟩)]

/-- The name of `array.map` with an empty array written behind it. -/
def MemoCache.mapOfNothing : String := "array.map::\x7b\"arr\":[]\x7d"

/-- The library with a program under that name. -/
def Environment.withOwnWord (cache : Option CacheConfig) : Environment :=
  (do
    let env ← ofConfig Library.catalog ⟨cache, 10, false⟩
    env.addFunction MemoCache.mapOfNothing .ownWord : Noted Environment).run' #[]

/-- Two functions with different names and arguments have one key, and so a run with a cache answers
for the second what it has kept for the first. -/
theorem MemoCache.key_of_other_call :
    let body := Record.ofList [("cb", Closure.choosing.fingerprint)]
    let inputs := Record.ofList [("flags", .array []), ("body", Closure.choosing.fingerprint)]
    key "array.map" (.ofList [("arr", .array [])]) body = key mapOfNothing body .empty ∧
      "array.map" ≠ mapOfNothing ∧
      ((Environment.withOwnWord none).runWithin 3 "" default (.wordsBeside mapOfNothing)
        inputs).outcome = .ok (.ofList [("words", .array []), ("other", .string "own")]) ∧
      ((Environment.withOwnWord (some ⟨10, false⟩)).runWithin 3 "" default
        (.wordsBeside mapOfNothing) inputs).outcome =
          .ok (.ofList [("words", .array []), ("other", .array [])]) := by
  intro body inputs
  have hbody : body ≠ .empty := fun h => Bool.false_ne_true (congrArg Record.isEmpty h)
  have hshadows : Shadows "array.map" (.ofList [("arr", .array [])]) body mapOfNothing body
      .empty := ⟨by decide +kernel, rfl, hbody, rfl⟩
  refine ⟨hshadows.key_eq, ?_, ?_, ?_⟩ <;> decide +kernel

end Dataflow
