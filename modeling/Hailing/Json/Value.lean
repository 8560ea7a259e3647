import Hailing.Decimal.Layout

/-!
# JSON values and their text

A value of the kind that answers are made of. Whole numbers and doubles are
kept apart: a double is written with a point or an exponent, a whole number
never is. The fields of a record keep the order in which they are given. The
text holds no blanks.
-/

namespace Hailing.Json

inductive Value where
  | null
  | bool (b : Bool)
  | whole (n : Int)
  | real (x : Float)
  | text (s : String)
  | list (items : List Value)
  | record (fields : List (String × Value))
  deriving Inhabited, Repr

/-- A character of a text, escaped if it has to be: quote, backslash and the
control characters below the blank, which have short forms or four digits. -/
def escape (c : Char) : List Char :=
  if c = '\"' then ['\\', '\"']
  else if c = '\\' then ['\\', '\\']
  else if c = '\n' then ['\\', 'n']
  else if c = '\r' then ['\\', 'r']
  else if c = '\t' then ['\\', 't']
  else if c.toNat = 8 then ['\\', 'b']
  else if c.toNat = 12 then ['\\', 'f']
  else if c.toNat < 32 then
    ['\\', 'u', '0', '0', Text.hexDigit (c.toNat / 16), Text.hexDigit (c.toNat % 16)]
  else [c]

def quoted (s : String) : List Char :=
  '\"' :: s.toList.flatMap escape ++ ['\"']

namespace Value

mutual

def toChars : Value → List Char
  | .null => "null".toList
  | .bool true => "true".toList
  | .bool false => "false".toList
  | .whole n => (toString n).toList
  | .real x => (Decimal.compact x).getD "null".toList
  | .text s => quoted s
  | .list items => '[' :: itemsChars items ++ [']']
  | .record fields => '{' :: fieldsChars fields ++ ['}']

/-- The items with a comma between each two. -/
def itemsChars : List Value → List Char
  | [] => []
  | [v] => v.toChars
  | v :: rest => v.toChars ++ ',' :: itemsChars rest

/-- The fields with a comma between each two. -/
def fieldsChars : List (String × Value) → List Char
  | [] => []
  | [(k, v)] => quoted k ++ ':' :: v.toChars
  | (k, v) :: rest => quoted k ++ ':' :: v.toChars ++ ',' :: fieldsChars rest

end

def print (v : Value) : String := String.ofList v.toChars

/-- A value that may be missing. -/
def ofOption {α : Type} (f : α → Value) : Option α → Value
  | none => .null
  | some a => f a

end Value

end Hailing.Json
