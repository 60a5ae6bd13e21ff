/-
Texts: splitting at blanks, joining and repeating.

Splitting cuts at every single blank, so joining the parts with a blank gives the text back.
Repeating crashes when the result would be longer than any text can be.
-/
import Dataflow.Library.Arguments
namespace Dataflow

namespace Library

/-- The parts of a text between single blanks; one part more than there are blanks. -/
def splitBlanks : List Char → List (List Char)
  | [] => [[]]
  | c :: rest =>
    if c = ' ' then [] :: splitBlanks rest
    else
      match splitBlanks rest with
      | [] => [[c]]
      | part :: parts => (c :: part) :: parts

/-- Parts with a separator between them. -/
def joinParts (sep : List Char) (parts : List (List Char)) : List Char := sep.intercalate parts

mutual

/-- A value as it stands in joined text: nil is empty, texts stand as they are, the items of an
array are joined by commas, and all else is written as JSON. -/
def shown : Json → List Char
  | .null => []
  | .string s => s.toList
  | .array items => joinParts [','] (shownItems items)
  | value => value.chars

/-- The items of an array as they stand in joined text. -/
def shownItems : List Json → List (List Char)
  | [] => []
  | item :: rest => shown item :: shownItems rest

end

/-- No text has that many bytes. -/
def textBound : Nat := Nat.pow 2 63

/-- Whether a text would become too long, a number of times over. -/
def isOverlong (s : String) (n : Nat) : Bool := textBound ≤ s.utf8ByteSize * n

/-- A text a number of times over. -/
def repeatText (s : String) (n : Nat) : String :=
  if s.isEmpty then "" else String.join (List.replicate n s)

/-- The words of a text. -/
def strSplit : NativeFunction where
  name := "str.split"
  signature := .plain [⟨"str", .string⟩] [⟨"arr", .arrayOf .string⟩]
  runner := plainRunner fun args => do
    let s ← string args "str"
    let parts := (splitBlanks s.toList).map fun part => Json.string (String.ofList part)
    return single "arr" (.array parts)

/-- Values joined to a text. -/
def strJoin : NativeFunction where
  name := "str.join"
  signature := .plain [⟨"arr", .arrayOf .string⟩, ⟨"sep", .string⟩] [⟨"str", .string⟩]
  runner := plainRunner fun args => do
    let sep ← string args "sep"
    let items ← array args "arr"
    return single "str" (.string (String.ofList (joinParts sep.toList (items.map shown))))

/-- A text a number of times over. -/
def strRepeat : NativeFunction where
  name := "str.repeat"
  signature := .plain [⟨"str", .string⟩, ⟨"repeatNum", .num⟩] [⟨"str", .string⟩]
  runner := fun args _ => do
    let s ← Script.ofExcept (string args "str")
    let count ← Script.ofExcept (number args "repeatNum")
    let n := Integral.truncate count
    if n < 0 then .fail (.invalidArgument "repeatNum" "a non-negative count")
    else if isOverlong s n.toNat then .crash
    else return single "str" (.string (repeatText s n.toNat))

/-- The text functions. -/
def texts : List NativeFunction := [strSplit, strJoin, strRepeat]

end Library

end Dataflow
