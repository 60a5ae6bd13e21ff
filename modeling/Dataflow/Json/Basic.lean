/-
JSON values and their text.

The members of an object stand in a list, in the order in which they are
written. Values that flow through a program are kept in normal form, where
every object lists its members in increasing order of their keys (`normal`); only
written documents, such as the text of a program, use another order.

* `Json.text` — the compact text, without blanks;
* `Json.pretty` — the text with one member a line, indented by two blanks.
-/
import Dataflow.Json.Number
import Dataflow.Record
namespace Dataflow

/-- A JSON value. -/
inductive Json where
  | null
  | bool (b : Bool)
  | number (n : Number)
  | string (s : String)
  | array (items : List Json)
  | object (members : List (String × Json))
  deriving Inhabited

namespace Json

/-! ### Equality -/

mutual

/-- Equality of values is decidable. -/
def decEq : (a b : Json) → Decidable (a = b)
  | .null, .null => isTrue rfl
  | .bool a, .bool b => decidable_of_iff (a = b) (by simp)
  | .number a, .number b => decidable_of_iff (a = b) (by simp)
  | .string a, .string b => decidable_of_iff (a = b) (by simp)
  | .array a, .array b =>
    match decEqItems a b with
    | isTrue h => isTrue (by rw [h])
    | isFalse h => isFalse (by simpa using h)
  | .object a, .object b =>
    match decEqMembers a b with
    | isTrue h => isTrue (by rw [h])
    | isFalse h => isFalse (by simpa using h)
  | .null, .bool _ | .null, .number _ | .null, .string _ | .null, .array _ | .null, .object _
  | .bool _, .null | .bool _, .number _ | .bool _, .string _ | .bool _, .array _
  | .bool _, .object _ | .number _, .null | .number _, .bool _ | .number _, .string _
  | .number _, .array _ | .number _, .object _ | .string _, .null | .string _, .bool _
  | .string _, .number _ | .string _, .array _ | .string _, .object _ | .array _, .null
  | .array _, .bool _ | .array _, .number _ | .array _, .string _ | .array _, .object _
  | .object _, .null | .object _, .bool _ | .object _, .number _ | .object _, .string _
  | .object _, .array _ => isFalse nofun

/-- Equality of lists of values is decidable. -/
def decEqItems : (a b : List Json) → Decidable (a = b)
  | [], [] => isTrue rfl
  | [], _ :: _ | _ :: _, [] => isFalse nofun
  | a :: as, b :: bs =>
    match decEq a b, decEqItems as bs with
    | isTrue h, isTrue h' => isTrue (by rw [h, h'])
    | isFalse h, _ => isFalse fun e => h (List.cons.inj e).1
    | _, isFalse h => isFalse fun e => h (List.cons.inj e).2

/-- Equality of member lists is decidable. -/
def decEqMembers : (a b : List (String × Json)) → Decidable (a = b)
  | [], [] => isTrue rfl
  | [], _ :: _ | _ :: _, [] => isFalse nofun
  | (k, a) :: as, (l, b) :: bs =>
    match decEq a b, decEqMembers as bs with
    | isTrue h, isTrue h' =>
      if hk : k = l then isTrue (by rw [h, h', hk])
      else isFalse fun e => hk (Prod.mk.inj (List.cons.inj e).1).1
    | isFalse h, _ => isFalse fun e => h (Prod.mk.inj (List.cons.inj e).1).2
    | _, isFalse h => isFalse fun e => h (List.cons.inj e).2

end

instance : DecidableEq Json := decEq

/-! ### Building values -/

/-- A record as an object, its members in increasing order of their keys. -/
def ofRecord (r : Record Json) : Json := .object r.entries

/-- The object of a list of members, in increasing order of their keys. -/
def sorted (members : List (String × Json)) : Json := .ofRecord (.ofList members)

/-- A natural number. -/
def ofNat (n : Nat) : Json := .number (.integer n)

/-- A list of texts. -/
def ofStrings (texts : List String) : Json := .array (texts.map .string)

mutual

/-- The value with every object's members in increasing order of their keys. Of two members with one
key the later counts. -/
def normal : Json → Json
  | .array items => .array (normalItems items)
  | .object members => .ofRecord (normalMembers members .empty)
  | value => value

/-- The normal forms of a list of values. -/
def normalItems : List Json → List Json
  | [] => []
  | item :: rest => normal item :: normalItems rest

/-- The members written over the record `acc`, in normal form. -/
def normalMembers : List (String × Json) → Record Json → Record Json
  | [], acc => acc
  | (key, value) :: rest, acc => normalMembers rest (acc.insert key (normal value))

end

mutual

/-- The nesting depth: zero for a scalar, one more than the deepest part for an array or object. -/
def depth : Json → Nat
  | .array items => depthItems items + 1
  | .object members => depthMembers members + 1
  | _ => 0

/-- The depth of the deepest item. -/
def depthItems : List Json → Nat
  | [] => 0
  | item :: rest => max (depth item) (depthItems rest)

/-- The depth of the deepest member. -/
def depthMembers : List (String × Json) → Nat
  | [] => 0
  | (_, value) :: rest => max (depth value) (depthMembers rest)

end

/-! ### Text -/

/-- The four digits of a control character's code. -/
def controlCode (c : Char) : List Char :=
  ['0', '0', Nat.digitChar (c.toNat / 16), Nat.digitChar (c.toNat % 16)]

/-- A character as it stands in quoted text. -/
def escapeChar (c : Char) : List Char :=
  if c = '"' then ['\\', '"']
  else if c = '\\' then ['\\', '\\']
  else if c = '\n' then ['\\', 'n']
  else if c = '\r' then ['\\', 'r']
  else if c = '\t' then ['\\', 't']
  else if c.toNat = 8 then ['\\', 'b']
  else if c.toNat = 12 then ['\\', 'f']
  else if c.toNat < 32 then '\\' :: 'u' :: controlCode c
  else [c]

/-- A text in quotes. -/
def quoted (s : String) : List Char := '"' :: (s.toList.flatMap escapeChar ++ ['"'])

mutual

/-- The compact text, character by character. -/
def chars : Json → List Char
  | .null => ['n', 'u', 'l', 'l']
  | .bool true => ['t', 'r', 'u', 'e']
  | .bool false => ['f', 'a', 'l', 's', 'e']
  | .number n => n.text
  | .string s => quoted s
  | .array items => '[' :: itemChars items
  | .object members => '{' :: memberChars members

/-- The items of an array up to the closing bracket. -/
def itemChars : List Json → List Char
  | [] => [']']
  | [item] => chars item ++ [']']
  | item :: rest => chars item ++ ',' :: itemChars rest

/-- The members of an object up to the closing brace. -/
def memberChars : List (String × Json) → List Char
  | [] => ['}']
  | [(key, value)] => quoted key ++ ':' :: (chars value ++ ['}'])
  | (key, value) :: rest => quoted key ++ ':' :: (chars value ++ ',' :: memberChars rest)

end

/-- The compact text of a value. -/
def text (value : Json) : String := String.ofList value.chars

/-- A new line indented by `level` steps of two blanks. -/
def newLine (level : Nat) : List Char := '\n' :: List.replicate (2 * level) ' '

mutual

/-- The indented text, character by character, of a value at the given level. -/
def prettyChars (level : Nat) : Json → List Char
  | .array [] => ['[', ']']
  | .object [] => ['{', '}']
  | .array (item :: rest) =>
    '[' :: (newLine (level + 1) ++ prettyChars (level + 1) item ++ prettyItems level rest)
  | .object ((key, value) :: rest) =>
    '{' :: (newLine (level + 1) ++ quoted key ++ ':' :: ' ' :: prettyChars (level + 1) value
      ++ prettyMembers level rest)
  | value => chars value

/-- The items of an array after the first, up to the closing bracket. -/
def prettyItems (level : Nat) : List Json → List Char
  | [] => newLine level ++ [']']
  | item :: rest =>
    ',' :: (newLine (level + 1) ++ prettyChars (level + 1) item ++ prettyItems level rest)

/-- The members of an object after the first, up to the closing brace. -/
def prettyMembers (level : Nat) : List (String × Json) → List Char
  | [] => newLine level ++ ['}']
  | (key, value) :: rest =>
    ',' :: (newLine (level + 1) ++ quoted key ++ ':' :: ' ' :: prettyChars (level + 1) value
      ++ prettyMembers level rest)

end

/-- The indented text of a value. -/
def pretty (value : Json) : String := String.ofList (value.prettyChars 0)

end Json

end Dataflow
