/-
The types that signatures attach to their parameters.

Types describe; no value is ever checked against one. A type may carry a
symbolic name, which relates its occurrences within one signature.

Two types are compatible when they have leaves that match, looking through
alternatives only: `any` and `auto` match everything, and other leaves match when they
have the same tag (`ValueType.compatible`).
-/
namespace Dataflow

/-- The types without parts. -/
inductive Plain where
  | string
  | num
  | bool
  | nil
  | any
  /-- No value flows. -/
  | stop
  /-- A type variable, related by its name within a signature. -/
  | auto
  deriving DecidableEq, Repr

/-- The type of a parameter, with an optional symbolic name at every level. -/
inductive ValueType where
  | plain (kind : Plain) (name : Option String)
  | array (item : ValueType) (name : Option String)
  | object (value : ValueType) (name : Option String)
  | either (left right : ValueType) (name : Option String)
  deriving DecidableEq, Repr

/-- The tag of a plain type. -/
def Plain.tag : Plain → String
  | .string => "string"
  | .num => "num"
  | .bool => "bool"
  | .nil => "nil"
  | .any => "any"
  | .stop => "stop"
  | .auto => "auto"

/-- The plain types. -/
def Plain.all : List Plain := [.string, .num, .bool, .nil, .any, .stop, .auto]

namespace ValueType

/-- A text. -/
def string : ValueType := .plain .string none

/-- A number. -/
def num : ValueType := .plain .num none

/-- A truth value. -/
def bool : ValueType := .plain .bool none

/-- No value flows. -/
def stop : ValueType := .plain .stop none

/-- The empty value. -/
def nil : ValueType := .plain .nil none

/-- Anything. -/
def any : ValueType := .plain .any none

/-- A type variable. -/
def auto (name : String) : ValueType := .plain .auto (some name)

/-- An array of items. -/
def arrayOf (item : ValueType) : ValueType := .array item none

/-- One of two types. -/
def oneOf (left right : ValueType) : ValueType := .either left right none

/-- The symbolic name. -/
def name : ValueType → Option String
  | .plain _ n | .array _ n | .object _ n | .either _ _ n => n

/-- The type with a symbolic name. -/
def named (n : String) : ValueType → ValueType
  | .plain kind _ => .plain kind (some n)
  | .array item _ => .array item (some n)
  | .object value _ => .object value (some n)
  | .either left right _ => .either left right (some n)

/-- The tag as written in programs. -/
def tag : ValueType → String
  | .plain kind _ => kind.tag
  | .array _ _ => "array"
  | .object _ _ => "object"
  | .either _ _ _ => "or"

/-- Whether a type matches everything. -/
def isWild : ValueType → Bool
  | .plain .any _ | .plain .auto _ => true
  | _ => false

/-- Whether a type that is not an alternative matches a leaf of another one. -/
def compatibleLeaf (a : ValueType) : ValueType → Bool
  | .either left right _ => a.isWild || compatibleLeaf a left || compatibleLeaf a right
  | b => a.isWild || b.isWild || a.tag == b.tag

/-- Whether a value of the first type may feed a parameter of the second. -/
def compatible : ValueType → ValueType → Bool
  | .either left right _, b => b.isWild || compatible left b || compatible right b
  | a, b => compatibleLeaf a b

/-- The symbolic name in brackets. -/
def nameSuffix : Option String → String
  | none => ""
  | some n => " (" ++ n ++ ")"

/-- The type as shown to people. -/
def display : ValueType → String
  | .plain kind n => kind.tag ++ nameSuffix n
  | .array item n => "array<" ++ display item ++ ">" ++ nameSuffix n
  | .object value n => "object<" ++ display value ++ ">" ++ nameSuffix n
  | .either left right n => display left ++ " | " ++ display right ++ nameSuffix n

end ValueType

end Dataflow
