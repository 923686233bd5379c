/-
  OpenApiTs.Toml.Read

  Reading TOML: comments, headers, keys with points, texts on one line, Booleans, numbers, arrays
  and inline tables.
-/
import OpenApiTs.Number.Literal
import OpenApiTs.Text.Chars
import OpenApiTs.Text.Hex
import OpenApiTs.Toml.Basic

namespace OpenApiTs.Toml

open OpenApiTs.Text (hexValue?)

/-- A reader takes a value off the front of a text. -/
abbrev Reader (α : Type) := List Char → Option (α × List Char)

/-! ## Blanks and line ends -/

/-- Whether `c` is a space or a tab. -/
def isSpace (c : Char) : Bool := c == ' ' || c == '\t'

/-- Whether `c` may stand in a comment or a text. -/
def isPrintable (c : Char) : Bool := c == '\t' || (32 ≤ c.toNat && c.toNat ≠ 127)

/-- The text after spaces and tabs. -/
def skipSpace (input : List Char) : List Char := input.dropWhile isSpace

/-- The text after spaces and a comment, if there is one. -/
def skipComment (input : List Char) : List Char :=
  match skipSpace input with
  | '#' :: comment => comment.dropWhile isPrintable
  | rest => rest

/-- The text after the end of a line, a comment allowed before it. The end of the text is one. -/
def endLine? (input : List Char) : Option (List Char) :=
  match skipComment input with
  | [] => some []
  | '\n' :: rest => some rest
  | '\r' :: '\n' :: rest => some rest
  | _ => none

/-- The text after blank lines and comments. -/
def skipLines : Nat → List Char → List Char
  | 0, input => input
  | fuel + 1, input =>
    match skipComment input with
    | '\n' :: rest => skipLines fuel rest
    | '\r' :: '\n' :: rest => skipLines fuel rest
    | rest => rest

/-! ## Texts -/

/-- The character with the code point that hexadecimal digits give. -/
def codeChar? (digits : List Char) : Option Char := do
  let values ← digits.mapM hexValue?
  let code := values.foldl (fun n value => 16 * n + value) 0
  if code < 0xD800 ∨ (0xE000 ≤ code ∧ code < 0x110000) then some (Char.ofNat code) else none

/-- A character in front of what a reader has read. -/
def consTo (c : Char) (read : Option (List Char × List Char)) : Option (List Char × List Char) :=
  read.map fun (chars, rest) => (c :: chars, rest)

/-- The rest of a text in double quotes, with its escapes. -/
def readBasic : Reader (List Char)
  | '"' :: input => some ([], input)
  | '\\' :: 'b' :: input => consTo (Char.ofNat 8) (readBasic input)
  | '\\' :: 't' :: input => consTo '\t' (readBasic input)
  | '\\' :: 'n' :: input => consTo '\n' (readBasic input)
  | '\\' :: 'f' :: input => consTo (Char.ofNat 12) (readBasic input)
  | '\\' :: 'r' :: input => consTo '\r' (readBasic input)
  | '\\' :: '"' :: input => consTo '"' (readBasic input)
  | '\\' :: '\\' :: input => consTo '\\' (readBasic input)
  | '\\' :: 'u' :: a :: b :: c :: d :: input =>
    (codeChar? [a, b, c, d]).bind fun char => consTo char (readBasic input)
  | '\\' :: 'U' :: a :: b :: c :: d :: e :: f :: g :: h :: input =>
    (codeChar? [a, b, c, d, e, f, g, h]).bind fun char => consTo char (readBasic input)
  | '\\' :: _ => none
  | c :: input => if isPrintable c then consTo c (readBasic input) else none
  | [] => none

/-- The rest of a text in single quotes. -/
def readLiteralText : Reader (List Char)
  | [] => none
  | c :: input =>
    if c = '\'' then some ([], input)
    else if isPrintable c then consTo c (readLiteralText input)
    else none

/-! ## Keys -/

/-- Whether `c` may stand in a key without quotes. -/
def inBareKey (c : Char) : Bool := c.isAlphanum || c == '_' || c == '-'

/-- One part of a key. -/
def readKeyPart (input : List Char) : Option (String × List Char) :=
  match skipSpace input with
  | '"' :: rest => (readBasic rest).map fun (chars, rest) => (String.ofList chars, rest)
  | '\'' :: rest => (readLiteralText rest).map fun (chars, rest) => (String.ofList chars, rest)
  | rest =>
    match rest.takeWhile inBareKey with
    | [] => none
    | chars => some (String.ofList chars, rest.dropWhile inBareKey)

/-- The parts of a key with points between them. -/
def readKeyParts : Nat → Reader (List String)
  | 0, _ => none
  | fuel + 1, input => do
    let (part, input) ← readKeyPart input
    match skipSpace input with
    | '.' :: input =>
      let (parts, input) ← readKeyParts fuel input
      return (part :: parts, input)
    | input => return ([part], input)

/-- The levels of arrays and inline tables that a value may have, and the parts of a key. -/
def deepest : Nat := 79

/-- A key. -/
def readKey (fuel : Nat) (input : List Char) : Option (List String × List Char) := do
  let (parts, input) ← readKeyParts fuel input
  if deepest < parts.length then none else return (parts, input)

/-! ## Numbers -/

/-- Whether digits stand on both sides of every underscore, and there is a digit. -/
def wellSpaced (isDigit : Char → Bool) (chars : List Char) : Bool :=
  let groups := chars.splitOn '_'
  groups.all fun group => !group.isEmpty && group.all isDigit

/-- The value of decimal digits. -/
def decimalValue (chars : List Char) : Nat :=
  chars.foldl (fun n c => if c.isDigit then 10 * n + (c.toNat - 48) else n) 0

/-- The value of digits in a base. -/
def valueIn (base : Nat) (chars : List Char) : Nat :=
  chars.foldl (fun n c => match hexValue? c with
    | some value => base * n + value
    | none => n) 0

/-- Whether characters are a whole number without sign: no zero in front of other digits. -/
def isWhole (chars : List Char) : Bool :=
  wellSpaced Char.isDigit chars && (chars.length == 1 || chars.head? != some '0')

/-- Whether characters are a number with an exponent, or without one. -/
def isMantissa (chars : List Char) : Bool :=
  match chars.splitOn '.' with
  | [whole] => isWhole whole
  | [whole, fraction] => isWhole whole && wellSpaced Char.isDigit fraction
  | _ => false

/-- The characters without a sign in front of them. -/
def dropSign : List Char → List Char
  | '+' :: chars => chars
  | '-' :: chars => chars
  | chars => chars

/-- The decimal literal of a mantissa and a power of ten, underscores left out. -/
def literalOf (mantissa power : List Char) : Number.Literal :=
  let digits := fun (chars : List Char) =>
    (chars.filter Char.isDigit).map fun c => c.toNat - 48
  let size : Int := decimalValue power
  let parts := mantissa.splitOn '.'
  ⟨false, digits (parts.headD []), parts[1]?.map digits,
    some (if power.head? = some '-' then -size else size)⟩

/-- Whether characters are a number. A positive one with a point or an exponent is one only as long
    as a double can hold it. -/
def isNumber (chars : List Char) : Bool :=
  let negative := chars.head? == some '-'
  let unsigned := dropSign chars
  match chars with
  | '0' :: 'x' :: digits =>
    wellSpaced (fun c => (hexValue? c).isSome) digits && valueIn 16 digits < Nat.pow 2 63
  | '0' :: 'o' :: digits =>
    wellSpaced (fun c => '0' ≤ c && c ≤ '7') digits && valueIn 8 digits < Nat.pow 2 63
  | '0' :: 'b' :: digits =>
    wellSpaced (fun c => c == '0' || c == '1') digits && valueIn 2 digits < Nat.pow 2 63
  | _ =>
    if unsigned == "inf".toList || unsigned == "nan".toList then true
    else if isWhole unsigned then
      if negative then decimalValue unsigned ≤ Nat.pow 2 63
      else decimalValue unsigned < Nat.pow 2 63
    else
      let fits := fun (mantissa power : List Char) =>
        negative || (literalOf mantissa power).nearestDouble.isSome
      match (unsigned.map Char.toLower).splitOn 'e' with
      | [mantissa] => isMantissa mantissa && fits mantissa []
      | [mantissa, power] =>
        isMantissa mantissa && wellSpaced Char.isDigit (dropSign power) && fits mantissa power
      | _ => false

/-- Whether `c` may stand in a number or a word. -/
def inWord (c : Char) : Bool := c.isAlphanum || c == '_' || c == '.' || c == '+' || c == '-'

/-- A Boolean or a number. -/
def readWord (input : List Char) : Option (Toml × List Char) :=
  let chars := input.takeWhile inWord
  let rest := input.dropWhile inWord
  if chars = "true".toList then some (.flag true, rest)
  else if chars = "false".toList then some (.flag false, rest)
  else if isNumber chars then some (.number (String.ofList chars), rest)
  else none

/-! ## Values -/

mutual

/-- A value. `depth` bounds the levels of arrays and inline tables, `fuel` the characters. -/
def readValue : Nat → Nat → Reader Toml
  | 0, _, _ => none
  | fuel + 1, depth, input =>
    match skipSpace input with
    | '"' :: input => (readBasic input).map fun (chars, input) =>
        (.text (String.ofList chars), input)
    | '\'' :: input => (readLiteralText input).map fun (chars, input) =>
        (.text (String.ofList chars), input)
    | '[' :: input =>
      match depth with
      | 0 => none
      | depth + 1 => (readItems fuel depth input).map fun (items, input) => (.list items, input)
    | '{' :: input =>
      match depth with
      | 0 => none
      | depth + 1 =>
        match skipSpace input with
        | '}' :: input => some (.table .inline [], input)
        | input => (readInline fuel depth [] input).map fun (entries, input) =>
            (.table .inline entries, input)
    | input => readWord input

/-- The items of an array with the bracket that closes it. Lines may end between them, and a comma
    may follow the last one. -/
def readItems : Nat → Nat → Reader (List Toml)
  | 0, _, _ => none
  | fuel + 1, depth, input =>
    match skipLines input.length input with
    | ']' :: input => some ([], input)
    | input => do
      let (item, input) ← readValue fuel depth input
      match skipLines input.length input with
      | ',' :: input =>
        let (items, input) ← readItems fuel depth input
        return (item :: items, input)
      | ']' :: input => return ([item], input)
      | _ => none

/-- The entries of an inline table with the brace that closes it. -/
def readInline : Nat → Nat → Entries Toml → Reader (Entries Toml)
  | 0, _, _, _ => none
  | fuel + 1, depth, entries, input => do
    let (keys, input) ← readKey fuel input
    match skipSpace input with
    | '=' :: input =>
      let (value, input) ← readValue fuel depth input
      let entries ← assign value keys entries
      match skipSpace input with
      | ',' :: input => readInline fuel depth entries input
      | '}' :: input => return (entries, input)
      | _ => none
    | _ => none

end

/-! ## Documents -/

/-- What has been read of a document: its entries, and the keys of the last header. -/
structure Progress where
  entries : Entries Toml
  current : List String

/-- A header taken in, its brackets left out. -/
def Progress.header (progress : Progress) (keys : List String) : Option Progress :=
  (takeHeader openHere keys progress.entries).map fun entries => ⟨entries, keys⟩

/-- The header of one more table of a list taken in. -/
def Progress.listHeader (progress : Progress) (keys : List String) : Option Progress :=
  (takeHeader appendHere keys progress.entries).map fun entries => ⟨entries, keys⟩

/-- An assignment taken in. -/
def Progress.assign (progress : Progress) (keys : List String) (value : Toml) : Option Progress :=
  (within (Toml.assign value keys) progress.current progress.entries).map fun entries =>
    { progress with entries }

/-- The statements of a document. -/
def readStatements : Nat → Progress → List Char → Option Progress
  | 0, _, _ => none
  | fuel + 1, progress, input =>
    match skipLines input.length input with
    | [] => some progress
    | '[' :: '[' :: input => do
      let (keys, input) ← readKey fuel input
      match skipSpace input with
      | ']' :: ']' :: input =>
        let input ← endLine? input
        let progress ← progress.listHeader keys
        readStatements fuel progress input
      | _ => none
    | '[' :: input => do
      let (keys, input) ← readKey fuel input
      match skipSpace input with
      | ']' :: input =>
        let input ← endLine? input
        let progress ← progress.header keys
        readStatements fuel progress input
      | _ => none
    | input => do
      let (keys, input) ← readKey fuel input
      match skipSpace input with
      | '=' :: input =>
        let (value, input) ← readValue fuel deepest input
        let input ← endLine? input
        let progress ← progress.assign keys value
        readStatements fuel progress input
      | _ => none

/-- The entries of a document; none when it is not well formed. A byte order mark at its front is
    passed over. -/
def read (text : String) : Option (Entries Toml) :=
  let input := Text.Chars.dropByteOrderMark text.toList
  (readStatements (input.length + 2) ⟨[], []⟩ input).map Progress.entries

end OpenApiTs.Toml
