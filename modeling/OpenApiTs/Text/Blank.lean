/-
  OpenApiTs.Text.Blank

  Blank characters (Unicode's White_Space property) and the removal of blanks at the ends of a
  text.
-/
import OpenApiTs.Text.Chars

namespace OpenApiTs.Text

/-- The blank characters, as inclusive ranges of code points. -/
def blankRanges : List (Nat × Nat) :=
  [(0x9, 0xD), (0x20, 0x20), (0x85, 0x85), (0xA0, 0xA0), (0x1680, 0x1680), (0x2000, 0x200A),
   (0x2028, 0x2029), (0x202F, 0x202F), (0x205F, 0x205F), (0x3000, 0x3000)]

/-- Whether `c` is a blank character. -/
def isBlank (c : Char) : Bool :=
  blankRanges.any fun range => range.1 ≤ c.toNat && c.toNat ≤ range.2

/-- The text without the blanks at its two ends. -/
def Chars.trim (text : List Char) : List Char :=
  Chars.dropWhileEnd isBlank (text.dropWhile isBlank)

/-- The text without the blanks at its two ends. -/
def trim (text : String) : String := String.ofList (Chars.trim text.toList)

end OpenApiTs.Text
