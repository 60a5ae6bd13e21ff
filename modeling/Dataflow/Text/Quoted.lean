/-
Names in quotes, for people to read.

Quotes, backslashes and the usual control characters have short escapes. Every other character that
cannot be seen on its own, or that would merge with the character before it, stands as its code
point in braces.
-/
import Dataflow.Text.Extender
import Dataflow.Text.Unseen
namespace Dataflow

namespace Text

/-- A character by its code point. -/
def codePoint (c : Char) : List Char :=
  '\\' :: 'u' :: '\x7b' :: (Nat.toDigits 16 c.toNat ++ ['\x7d'])

/-- A character as it stands in quotes. -/
def quoteChar (c : Char) : List Char :=
  if c = '"' then ['\\', '"']
  else if c = '\\' then ['\\', '\\']
  else if c = '\n' then ['\\', 'n']
  else if c = '\r' then ['\\', 'r']
  else if c = '\t' then ['\\', 't']
  else if c.toNat = 0 then ['\\', '0']
  else if extenders.contains c || isUnseen c then codePoint c
  else [c]

/-- A text in quotes. -/
def quote (text : String) : String :=
  String.ofList ('"' :: (text.toList.flatMap quoteChar ++ ['"']))

end Text

end Dataflow
