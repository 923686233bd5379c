/-
  OpenApiTs.Json.Read

  Reading JSON text. Arrays and objects may stand in one another up to 127 levels; a field that
  comes again keeps its place and takes the last value.
-/
import OpenApiTs.Json.Basic
import OpenApiTs.Text.Hex

namespace OpenApiTs.Json

open OpenApiTs.Text (hexValue?)

/-- A reader takes a value off the front of a text; none when the text does not open with one. -/
abbrev Reader (α : Type) := List Char → Option (α × List Char)

/-- Whether `c` may stand between the tokens of JSON text. -/
def isSpace (c : Char) : Bool := c == ' ' || c == '\n' || c == '\t' || c == '\r'

/-! ## Texts -/

/-- The number of four hexadecimal digits. -/
def readUnit : Reader Nat
  | a :: b :: c :: d :: input => do
    let a ← hexValue? a
    let b ← hexValue? b
    let c ← hexValue? c
    let d ← hexValue? d
    return (4096 * a + 256 * b + 16 * c + d, input)
  | _ => none

/-- The character of an escape, its backslash taken off. Where `pairs` are allowed two units that
    make a pair give one character; a unit of a pair alone gives none. -/
def readEscape (pairs : Bool) : Reader Char
  | '"' :: input => some ('"', input)
  | '\\' :: input => some ('\\', input)
  | '/' :: input => some ('/', input)
  | 'b' :: input => some (Char.ofNat 8, input)
  | 'f' :: input => some (Char.ofNat 12, input)
  | 'n' :: input => some ('\n', input)
  | 'r' :: input => some ('\r', input)
  | 't' :: input => some ('\t', input)
  | 'u' :: input => do
    let (unit, input) ← readUnit input
    if pairs ∧ 0xD800 ≤ unit ∧ unit < 0xDC00 then
      match input with
      | '\\' :: 'u' :: input =>
        let (low, input) ← readUnit input
        if 0xDC00 ≤ low ∧ low < 0xE000 then
          some (Char.ofNat (0x10000 + (unit - 0xD800) * 0x400 + (low - 0xDC00)), input)
        else none
      | _ => none
    else if 0xD800 ≤ unit ∧ unit < 0xE000 then none
    else some (Char.ofNat unit, input)
  | _ => none

/-- The characters up to the closing quote, within `fuel` characters. -/
def readQuoted : Nat → Reader (List Char)
  | 0, _ => none
  | _ + 1, '"' :: input => some ([], input)
  | fuel + 1, '\\' :: input => do
    let (c, input) ← readEscape true input
    let (others, input) ← readQuoted fuel input
    return (c :: others, input)
  | fuel + 1, c :: input =>
    if c.toNat < 32 then none
    else do
      let (others, input) ← readQuoted fuel input
      return (c :: others, input)
  | _ + 1, [] => none

/-- The name of a field with the colon after it, the quote that opens it taken off. -/
def readName (fuel : Nat) (input : List Char) : Option (List Char × List Char) := do
  let (name, input) ← readQuoted fuel input
  match input.dropWhile isSpace with
  | ':' :: input => return (name, input)
  | _ => none

/-! ## Numbers -/

/-- The decimal digits at the front of a text. -/
def readDigits (input : List Char) : List Nat × List Char :=
  ((input.takeWhile Char.isDigit).map fun c => c.toNat - 48, input.dropWhile Char.isDigit)

/-- The digits before the point: a zero alone, or digits that begin with another one. -/
def readWhole : Reader (List Nat)
  | '0' :: input => if (input.head?.map Char.isDigit).getD false then none else some ([0], input)
  | input =>
    match readDigits input with
    | ([], _) => none
    | found => some found

/-- A point and the digits after it, if there is a point. -/
def readFraction : Reader (Option (List Nat))
  | '.' :: input =>
    match readDigits input with
    | ([], _) => none
    | (digits, input) => some (some digits, input)
  | input => some (none, input)

/-- The digits of a power of ten with its sign taken off. -/
def readPowerDigits (negative : Bool) (input : List Char) : Option (Option Int × List Char) :=
  match readDigits input with
  | ([], _) => none
  | (digits, input) =>
    let size : Int := Number.ofDigits digits
    some (some (if negative then -size else size), input)

/-- The power of ten, if there is one. -/
def readPower : Reader (Option Int)
  | c :: input =>
    if c = 'e' ∨ c = 'E' then
      match input with
      | '+' :: input => readPowerDigits false input
      | '-' :: input => readPowerDigits true input
      | input => readPowerDigits false input
    else some (none, c :: input)
  | [] => some (none, [])

/-- A number literal. -/
def readLiteral (input : List Char) : Option (Number.Literal × List Char) := do
  let (negative, input) := match input with
    | '-' :: input => (true, input)
    | input => (false, input)
  let (whole, input) ← readWhole input
  let (fraction, input) ← readFraction input
  let (power, input) ← readPower input
  return (⟨negative, whole, fraction, power⟩, input)

/-! ## Values -/

/-- A number of JSON text. -/
def readNumber (input : List Char) : Option (Json × List Char) := do
  let (literal, input) ← readLiteral input
  let value ← literal.toNumber?
  return (.number value, input)

/-- What kinds of text that share the grammar of JSON decide in their own way. A bound on the number
    of characters comes with the readers of quoted text. -/
structure Dialect where
  /-- Whether a character may stand between two tokens. -/
  isBetween : Char → Bool
  number : Reader Json
  /-- A text, the quote that opens it taken off. -/
  quoted : Nat → Reader (List Char)
  /-- The name of a field with the colon after it, the quote that opens it taken off. -/
  name : Nat → Reader (List Char)

/-- JSON itself. -/
def Dialect.json : Dialect := ⟨isSpace, readNumber, readQuoted, readName⟩

mutual

/-- A value, what may stand between tokens allowed in front of it. `depth` bounds the levels of
    arrays and objects, `fuel` the characters. -/
def readValue (dialect : Dialect) : Nat → Nat → Reader Json
  | 0, _, _ => none
  | fuel + 1, depth, input =>
    match input.dropWhile dialect.isBetween with
    | '"' :: input => (dialect.quoted fuel input).map fun (chars, input) =>
        (.text (String.ofList chars), input)
    | '[' :: input =>
      match depth with
      | 0 => none
      | depth + 1 =>
        match input.dropWhile dialect.isBetween with
        | ']' :: input => some (.array [], input)
        | input => (readItems dialect fuel depth input).map fun (items, input) =>
            (.array items, input)
    | '{' :: input =>
      match depth with
      | 0 => none
      | depth + 1 =>
        match input.dropWhile dialect.isBetween with
        | '}' :: input => some (.object [], input)
        | input => (readFields dialect fuel depth input).map fun (fields, input) =>
            (.object (Entries.ofPairs fields), input)
    | 'n' :: 'u' :: 'l' :: 'l' :: input => some (.null, input)
    | 't' :: 'r' :: 'u' :: 'e' :: input => some (.bool true, input)
    | 'f' :: 'a' :: 'l' :: 's' :: 'e' :: input => some (.bool false, input)
    | input => dialect.number input

/-- One or more items, with the bracket that closes them. -/
def readItems (dialect : Dialect) : Nat → Nat → Reader (List Json)
  | 0, _, _ => none
  | fuel + 1, depth, input => do
    let (item, input) ← readValue dialect fuel depth input
    match input.dropWhile dialect.isBetween with
    | ',' :: input =>
      let (items, input) ← readItems dialect fuel depth input
      return (item :: items, input)
    | ']' :: input => return ([item], input)
    | _ => none

/-- One or more fields, with the brace that closes them. -/
def readFields (dialect : Dialect) : Nat → Nat → Reader (List (String × Json))
  | 0, _, _ => none
  | fuel + 1, depth, input => do
    match input.dropWhile dialect.isBetween with
    | '"' :: input =>
      let (name, input) ← dialect.name fuel input
      let (value, input) ← readValue dialect fuel depth input
      match input.dropWhile dialect.isBetween with
      | ',' :: input =>
        let (fields, input) ← readFields dialect fuel depth input
        return ((String.ofList name, value) :: fields, input)
      | '}' :: input => return ([(String.ofList name, value)], input)
      | _ => none
    | _ => none

end

/-- The levels of arrays and objects that JSON text may have. -/
def deepest : Nat := 127

/-- The value that a JSON text stands for; none when it is not JSON. -/
def read (text : String) : Option Json :=
  match readValue .json (text.toList.length + 1) deepest text.toList with
  | some (value, rest) => if rest.all isSpace then some value else none
  | none => none

end OpenApiTs.Json
