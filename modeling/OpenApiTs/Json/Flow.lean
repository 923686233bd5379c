/-
  OpenApiTs.Json.Flow

  JSON text read as a YAML document in flow style. Beyond JSON, line breaks in a text are folded, a
  field's name and its colon stand on one line, and a tab cannot open a line outside of brackets.
-/
import OpenApiTs.Json.Read
import OpenApiTs.Text.Chars
import OpenApiTs.Text.Fold

namespace OpenApiTs.Json

open OpenApiTs.Number
open OpenApiTs.Text (isPadding isBreak isGap)

/-! ## Numbers -/

/-- What a number literal stands for in flow style. Minus zero is the whole number zero; a whole
    number beyond 64 bits is refused as long as it fits 128; every other number is the nearest
    double, and the literal itself as a text when there is none. -/
def flowNumber (literal : Literal) (chars : List Char) : Option Json :=
  let size := ofDigits literal.whole
  match literal.toWhole? with
  | some value => some (.number (.whole value))
  | none =>
    let fits := if literal.negative then size ≤ Nat.pow 2 127 else size < Nat.pow 2 128
    if literal.isWhole ∧ fits then none
    else
      match literal.nearestDouble with
      | some value => some (.number (.double value))
      | none => some (.text (String.ofList chars))

/-- Whether `c` may stand in a number literal. -/
def inLiteral (c : Char) : Bool :=
  c.isDigit || c == '-' || c == '+' || c == '.' || c == 'e' || c == 'E'

/-- A number in flow style. -/
def readFlowNumber (input : List Char) : Option (Json × List Char) := do
  let (literal, rest) ← readLiteral input
  let value ← flowNumber literal (input.takeWhile inLiteral)
  return (value, rest)

/-! ## Texts -/

/-- Whether the characters at the start of a line begin or end a document: three hyphens or three
    points, and no other word after them. -/
def marksDocument : List Char → Bool
  | '-' :: '-' :: '-' :: rest => rest.head?.all isGap
  | '.' :: '.' :: '.' :: rest => rest.head?.all isGap
  | _ => false

/-- The characters up to the closing quote with their lines folded, within `fuel` characters. An
    escape gives one character, and no line may mark a document. -/
def readFolded : Nat → Reader (List Char)
  | 0, _ => none
  | fuel + 1, input =>
    let gap := input.takeWhile isGap
    let folded := Text.Chars.fold gap
    match input.dropWhile isGap with
    | '"' :: rest => some (folded, rest)
    | '\\' :: rest => do
      let (c, rest) ← readEscape false rest
      let (others, rest) ← readFolded fuel rest
      return (folded ++ c :: others, rest)
    | c :: rest =>
      if gap.getLast?.any isBreak ∧ marksDocument (c :: rest) then none
      else do
        let (others, rest) ← readFolded fuel rest
        return (folded ++ c :: others, rest)
    | [] => none

/-- How many bytes a field's name may take, from the quote that opens it up to its colon. -/
def nameReach : Nat := 1024

/-- The name of a field with the colon after it, the quote that opens it taken off. Both stand on
    the line of the quote and within its reach. -/
def readFlowName (fuel : Nat) (input : List Char) : Option (List Char × List Char) := do
  let line := Text.Chars.lineWithin nameReach input
  let (name, rest) ← readFolded fuel line
  match rest.dropWhile isPadding with
  | ':' :: rest => return (name, input.drop (line.length - rest.length))
  | _ => none

/-! ## Documents -/

/-- YAML in flow style. -/
def Dialect.flow : Dialect := ⟨isGap, readFlowNumber, readFolded, readFlowName⟩

/-- The levels of arrays and objects that a document in flow style may have. -/
def deepestFlow : Nat := 128

/-- Whether `c` may stand in a document at all: no control character other than tab and breaks, and
    neither of the two code points that end the basic plane. -/
def isReadable (c : Char) : Bool :=
  c == '\t' || isBreak c || (32 ≤ c.toNat && c.toNat ≤ 0x7E) ||
    (0xA0 ≤ c.toNat && c.toNat ≠ 0xFFFE && c.toNat ≠ 0xFFFF)

/-- Whether `c` may stand on a line outside of brackets where a token may open: a space, or a break,
    and no tab. -/
def isLayout (c : Char) : Bool := c == ' ' || isBreak c

/-- Whether a text that starts like `opening` and has a value at its front may end with `rest` after
    the value. A value with brackets or quotes ends its line and no later one may have a tab; a bare
    word takes every gap after it. -/
def closes (opening : Option Char) (rest : List Char) : Bool :=
  if opening = some '"' ∨ opening = some '[' ∨ opening = some '{' then
    (rest.dropWhile isPadding).all isLayout
  else rest.all isGap

/-- The value that a text in flow style stands for; null when there is nothing in it. A byte order
    mark at its front is passed over. -/
def readFlow (text : String) : Option Json :=
  let input := (Text.Chars.dropByteOrderMark text.toList).dropWhile isLayout
  if !text.toList.all isReadable then none
  else
    match input.head? with
    | none => some .null
    | some '\t' => none
    | opening =>
      match readValue .flow (input.length + 1) deepestFlow input with
      | some (value, rest) => if closes opening rest then some value else none
      | none => none

end OpenApiTs.Json
