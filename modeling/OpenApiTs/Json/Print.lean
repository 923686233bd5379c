/-
  OpenApiTs.Json.Print

  Compact JSON text: no blanks, fields in order, and only those characters escaped that JSON
  demands.
-/
import OpenApiTs.Json.Basic
import OpenApiTs.Number.Shortest
import OpenApiTs.Text.Hex

namespace OpenApiTs

/-! ## Numbers -/

/-- Text of a number: a whole number in decimal, a double by its shortest digits. -/
def Number.Value.print : Number.Value → String
  | .whole value => String.ofList (if value < 0 then '-' :: Nat.toDigits 10 value.natAbs
      else Nat.toDigits 10 value.natAbs)
  | .double value => String.ofList value.chars

namespace Json

/-! ## Texts -/

/-- The characters that stand for one character between quotes: the quote, the backslash and the
    characters below the space are escaped. -/
def escape (c : Char) : List Char :=
  if c = '"' then ['\\', '"']
  else if c = '\\' then ['\\', '\\']
  else if c = '\n' then ['\\', 'n']
  else if c = '\r' then ['\\', 'r']
  else if c = '\t' then ['\\', 't']
  else if c.toNat = 8 then ['\\', 'b']
  else if c.toNat = 12 then ['\\', 'f']
  else if c.toNat < 32 then
    ['\\', 'u', '0', '0', Text.hexDigit (c.toNat / 16), Text.hexDigit (c.toNat % 16)]
  else [c]

/-- A text between quotes. -/
def quote (text : String) : String := String.ofList ('"' :: text.toList.flatMap escape ++ ['"'])

/-! ## Values -/

mutual

/-- Compact text of a value. -/
def print : Json → String
  | null => "null"
  | bool true => "true"
  | bool false => "false"
  | number value => value.print
  | text value => quote value
  | array items => "[" ++ ",".intercalate (printItems items) ++ "]"
  | object fields => "\x7b" ++ ",".intercalate (printFields fields) ++ "\x7d"

/-- The texts of items. -/
def printItems : List Json → List String
  | [] => []
  | item :: items => print item :: printItems items

/-- The texts of fields, each with its name. -/
def printFields : List (String × Json) → List String
  | [] => []
  | (name, value) :: fields => (quote name ++ ":" ++ print value) :: printFields fields

end

end Json

end OpenApiTs
