/-
  OpenApiTs.Name.Pascal

  Pascal case: the words of a text, each with a capital first letter, run together.
-/
import OpenApiTs.Text.Blank
import OpenApiTs.Text.Case

namespace OpenApiTs.Name

open OpenApiTs.Text

/-- A word with its first letter in upper case. Words hold ASCII characters only, so the ASCII case
    map is the whole rule. -/
def capitalize : List Char → List Char
  | [] => []
  | c :: word => c.toUpper :: word

/-- The words of a text: its longest stretches of ASCII letters and digits. -/
def wordsOf (text : List Char) : List (List Char) :=
  Chars.words (fun c => !c.isAlphanum) text

/-- Pascal case of a text. Capitals inside a word stay, a text of one character is put in upper case
    whatever the character is, and a text without words is kept; blanks at the ends never count. -/
def Chars.pascal (text : List Char) : List Char :=
  match Chars.trim text with
  | [c] => Chars.upperOf c
  | trimmed =>
    match wordsOf trimmed with
    | [] => trimmed
    | words => (words.map capitalize).flatten

/-- Pascal case of a text. -/
def pascal (text : String) : String := String.ofList (Chars.pascal text.toList)

/-- Pascal case of a dotted name such as `inner_log.AttributeChange`, the dots being word breaks. -/
def Chars.ofDotted (text : List Char) : List Char :=
  Chars.pascal (text.map fun c => if c = '.' then ' ' else c)

/-- Pascal case of a dotted name such as `inner_log.AttributeChange`, the dots being word breaks. -/
def ofDotted (text : String) : String := String.ofList (Chars.ofDotted text.toList)

end OpenApiTs.Name
