/-
  OpenApiTs.Name.Identifier

  TypeScript identifiers made of ASCII characters: the test whether a text is one, and the
  identifier that a schema name is declared under.
-/
import OpenApiTs.Name.Pascal

namespace OpenApiTs.Name

open OpenApiTs.Text

/-! ## The test -/

/-- Whether `c` may begin an identifier. -/
def beginsIdentifier (c : Char) : Bool := c.isAlpha || c == '_' || c == '$'

/-- Whether `c` may stand inside an identifier. -/
def inIdentifier (c : Char) : Bool := c.isAlphanum || c == '_' || c == '$'

/-- Whether a text can stand as a bare property name. -/
def Chars.isIdentifier : List Char → Bool
  | [] => false
  | c :: text => beginsIdentifier c && text.all inIdentifier

/-- Whether a text can stand as a bare property name. -/
def isIdentifier (text : String) : Bool := Chars.isIdentifier text.toList

/-! ## Making one -/

/-- Each character that no identifier holds becomes a blank. -/
def blankOut (text : List Char) : List Char :=
  text.map fun c => if inIdentifier c then c else ' '

/-- As `blankOut`, and a digit in the first place becomes a blank too. -/
def blankForeign : List Char → List Char
  | [] => []
  | c :: text => (if inIdentifier c && !c.isDigit then c else ' ') :: blankOut text

/-- An underscore and the small letter after it become that letter in upper case; underscores before
    anything else stay. -/
def foldUnderscores : List Char → List Char
  | [] => []
  | [c] => [c]
  | c :: d :: text =>
    if c = '_' ∧ d.isLower then d.toUpper :: foldUnderscores text
    else c :: foldUnderscores (d :: text)

/-- The identifier for a schema name: foreign characters break it into words, underscores fold into
    the letter after them, and the words run together, each with a capital. A name that leaves no
    word is called `NoName`. -/
def Chars.identifier (text : List Char) : List Char :=
  match Chars.words isBlank (foldUnderscores (blankForeign text)) with
  | [] => "NoName".toList
  | words => (words.map capitalize).flatten

/-- The identifier for a schema name. -/
def identifier (text : String) : String := String.ofList (Chars.identifier text.toList)

end OpenApiTs.Name
