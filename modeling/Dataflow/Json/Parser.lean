/-
From text to drafts.

The parser reads a text from left to right and keeps its first defect in the
draft. Where reading and skipping disagree about a defect, both views are kept: a number that the
text cuts short is a text that ends too early for a reader and a misspelt
number for a skipper.

* `Draft.parse` — the draft of a text and whether something follows it;
* `Draft.readText` — reads a whole text with a reader of drafts.
-/
import Dataflow.Json.Draft
namespace Dataflow

namespace Draft

/-- The outcome of scanning one token. -/
inductive Scan (α : Type) where
  | done (a : α) (rest : List Char)
  | broken (b : Break)

/-- The blanks between tokens. -/
def isBlank (c : Char) : Bool := c = ' ' || c = '\n' || c = '\t' || c = '\r'

/-- The text after leading blanks. -/
def skipBlanks (cs : List Char) : List Char := cs.dropWhile isBlank

/-! ### Words and numbers -/

/-- Scan the rest of a word such as `null`. -/
def word : List Char → List Char → Scan Unit
  | [], rest => .done () rest
  | _ :: _, [] => .broken (.both .truncated)
  | e :: es, c :: cs => if e = c then word es cs else .broken (.both .malformed)

/-- The break where a digit is missing. -/
def missingDigit (rest : List Char) : Break :=
  if rest.isEmpty then ⟨.truncated, .malformed⟩ else .both .malformed

/-- Scan an exponent after its mark. -/
def exponent (cs : List Char) : Scan (Bool × List Char) :=
  let (below, cs) :=
    match cs with
    | '+' :: rest => (false, rest)
    | '-' :: rest => (true, rest)
    | _ => (false, cs)
  let digits := cs.takeWhile Char.isDigit
  let rest := cs.dropWhile Char.isDigit
  if digits.isEmpty then .broken (missingDigit rest) else .done (below, digits) rest

/-- Scan what follows the whole part and the fraction of a number. -/
def finishNumber (negative : Bool) (whole : List Char) (fraction : Option (List Char)) :
    List Char → Scan (Option Number)
  | c :: rest =>
    if c = 'e' ∨ c = 'E' then
      match exponent rest with
      | .done e rest => .done (Number.Literal.number? ⟨negative, whole, fraction, some e⟩) rest
      | .broken b => .broken b
    else .done (Number.Literal.number? ⟨negative, whole, fraction, none⟩) (c :: rest)
  | [] => .done (Number.Literal.number? ⟨negative, whole, fraction, none⟩) []

/-- Scan what follows the whole part of a number. -/
def afterWhole (negative : Bool) (whole : List Char) : List Char → Scan (Option Number)
  | '.' :: rest =>
    let digits := rest.takeWhile Char.isDigit
    let rest := rest.dropWhile Char.isDigit
    if digits.isEmpty then .broken (missingDigit rest)
    else finishNumber negative whole (some digits) rest
  | rest => finishNumber negative whole none rest

/-- Scan a number after its sign. A zero does not lead other digits. -/
def unsigned (negative : Bool) (cs : List Char) : Scan (Option Number) :=
  let digits := cs.takeWhile Char.isDigit
  let rest := cs.dropWhile Char.isDigit
  match digits with
  | [] => .broken (missingDigit rest)
  | '0' :: _ :: _ => .broken (.both .malformed)
  | _ => afterWhole negative digits rest

/-! ### Texts -/

/-- The value of a hexadecimal digit. -/
def hexDigit (c : Char) : Option Nat :=
  if '0' ≤ c ∧ c ≤ '9' then some (c.toNat - '0'.toNat)
  else if 'a' ≤ c ∧ c ≤ 'f' then some (c.toNat - 'a'.toNat + 10)
  else if 'A' ≤ c ∧ c ≤ 'F' then some (c.toNat - 'A'.toNat + 10)
  else none

/-- The code unit of four hexadecimal digits. -/
def codeUnit (a b c d : Char) : Option Nat := do
  let a ← hexDigit a
  let b ← hexDigit b
  let c ← hexDigit c
  let d ← hexDigit d
  return ((a * 16 + b) * 16 + c) * 16 + d

/-- The first half of a surrogate pair. -/
def isHigh (n : Nat) : Bool := 0xD800 ≤ n && n ≤ 0xDBFF

/-- The second half of a surrogate pair. -/
def isLow (n : Nat) : Bool := 0xDC00 ≤ n && n ≤ 0xDFFF

/-- The character of a surrogate pair. -/
def paired (high low : Nat) : Char :=
  Char.ofNat ((high - 0xD800) * 0x400 + (low - 0xDC00) + 0x10000)

/-- The character after a backslash, if it stands for one character. -/
def simpleEscape (c : Char) : Option Char :=
  if c = '"' then some '"'
  else if c = '\\' then some '\\'
  else if c = '/' then some '/'
  else if c = 'b' then some (Char.ofNat 8)
  else if c = 'f' then some (Char.ofNat 12)
  else if c = 'n' then some '\n'
  else if c = 'r' then some '\r'
  else if c = 't' then some '\t'
  else none

/-- The break at the end of a text that is not closed. -/
def unclosed (unpaired : Bool) : Break :=
  ⟨if unpaired then .malformed else .truncated, .truncated⟩

/-- Scan a text after its opening quote. `acc` holds the characters so far, last first; `unpaired`
says that a surrogate without its partner went by; `high` is the first half of a pair whose second
half has to follow. -/
def quotedText : List Char → List Char → Bool → Option Nat → Scan (Option String)
  | [], _, unpaired, _ => .broken (unclosed unpaired)
  | c :: rest, acc, unpaired, high =>
    if c = '"' then
      .done (if unpaired || high.isSome then none else some (String.ofList acc.reverse)) rest
    else if c = '\\' then
      match rest with
      | [] => .broken (unclosed unpaired)
      | 'u' :: p :: q :: r :: s :: rest =>
        match codeUnit p q r s, high with
        | none, _ => .broken (.both .malformed)
        | some n, some h =>
          if isLow n then quotedText rest (paired h n :: acc) unpaired none
          else quotedText rest acc true none
        | some n, none =>
          if isHigh n then quotedText rest acc unpaired (some n)
          else if isLow n then quotedText rest acc true none
          else quotedText rest (Char.ofNat n :: acc) unpaired none
      | 'u' :: short =>
        if 4 ≤ (String.ofList short).utf8ByteSize then .broken (.both .malformed)
        else .broken (unclosed unpaired)
      | e :: rest =>
        match simpleEscape e with
        | some c => quotedText rest (c :: acc) (unpaired || high.isSome) none
        | none => .broken (.both .malformed)
    else if c.toNat < 32 then .broken (.both .malformed)
    else quotedText rest (c :: acc) (unpaired || high.isSome) none

/-! ### Values -/

/-- A scanned leaf, and the text after it unless it is broken. -/
def leaf {α : Type} (make : α → Draft) : Scan α → Draft × Option (List Char)
  | .done a rest => (make a, some rest)
  | .broken b => (.broken b, none)

mutual

/-- Parse a value. The fuel bounds the number of calls. -/
def parseValue : Nat → List Char → Draft × Option (List Char)
  | 0, _ => (.broken (.both .truncated), none)
  | fuel + 1, cs =>
    match skipBlanks cs with
    | [] => (.broken (.both .truncated), none)
    | 'n' :: rest => leaf (fun _ => .null) (word ['u', 'l', 'l'] rest)
    | 't' :: rest => leaf (fun _ => .bool true) (word ['r', 'u', 'e'] rest)
    | 'f' :: rest => leaf (fun _ => .bool false) (word ['a', 'l', 's', 'e'] rest)
    | '"' :: rest => leaf .string (quotedText rest [] false none)
    | '-' :: rest => leaf .number (unsigned true rest)
    | '[' :: rest =>
      match skipBlanks rest with
      | [] => (.array [] (some (.both .truncated)), none)
      | ']' :: rest => (.array [] none, some rest)
      | rest =>
        let (items, ending, rest) := parseItems fuel rest
        (.array items ending, rest)
    | '{' :: rest =>
      match skipBlanks rest with
      | [] => (.object [] (some (.both .truncated)), none)
      | '}' :: rest => (.object [] none, some rest)
      | '"' :: rest =>
        let (members, ending, rest) := parseMembers fuel rest
        (.object members ending, rest)
      | _ => (.object [] (some (.both .malformed)), none)
    | c :: rest =>
      if c.isDigit then leaf .number (unsigned false (c :: rest))
      else (.broken (.both .malformed), none)

/-- Parse the items of an array from the start of an item. -/
def parseItems : Nat → List Char → List Draft × Option Break × Option (List Char)
  | 0, _ => ([], some (.both .truncated), none)
  | fuel + 1, cs =>
    match parseValue fuel cs with
    | (item, none) => ([item], none, none)
    | (item, some rest) =>
      match skipBlanks rest with
      | [] => ([item], some (.both .truncated), none)
      | ']' :: rest => ([item], none, some rest)
      | ',' :: rest =>
        let (items, ending, rest) := parseItems fuel rest
        (item :: items, ending, rest)
      | _ => ([item], some (.both .malformed), none)

/-- Parse the members of an object from inside the first key. -/
def parseMembers :
    Nat → List Char → List (Option String × Draft) × Option Break × Option (List Char)
  | 0, _ => ([], some (.both .truncated), none)
  | fuel + 1, cs =>
    match quotedText cs [] false none with
    | .broken b => ([], some b, none)
    | .done key rest =>
      match skipBlanks rest with
      | [] => ([(key, .broken (.both .truncated))], none, none)
      | ':' :: rest =>
        match parseValue fuel rest with
        | (value, none) => ([(key, value)], none, none)
        | (value, some rest) =>
          match skipBlanks rest with
          | [] => ([(key, value)], some (.both .truncated), none)
          | '}' :: rest => ([(key, value)], none, some rest)
          | ',' :: rest =>
            match skipBlanks rest with
            | [] => ([(key, value)], some (.both .truncated), none)
            | '"' :: rest =>
              let (members, ending, rest) := parseMembers fuel rest
              ((key, value) :: members, ending, rest)
            | _ => ([(key, value)], some (.both .malformed), none)
          | _ => ([(key, value)], some (.both .malformed), none)
      | _ => ([(key, .broken (.both .malformed))], none, none)

end

/-- The draft of a text, and whether something else follows it. -/
def parse (text : String) : Draft × Bool :=
  let cs := text.toList
  match parseValue (2 * cs.length + 2) cs with
  | (draft, none) => (draft, false)
  | (draft, some rest) => (draft, !(skipBlanks rest).isEmpty)

/-- Read a whole text with a reader of drafts. -/
def readText {α : Type} (reader : Draft → Except Fault α) (text : String) : Except Fault α := do
  let (draft, more) := parse text
  let a ← reader (draft.limit maxDepth)
  if more then .error .malformed else return a

end Draft

end Dataflow
