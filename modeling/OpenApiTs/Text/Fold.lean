/-
  OpenApiTs.Text.Fold

  Line breaks of every kind, and the folding of what surrounds them in a text that is written over
  several lines.
-/

namespace OpenApiTs.Text

/-- Whether `c` is a space or a tab. -/
def isPadding (c : Char) : Bool := c == ' ' || c == '\t'

/-- Whether `c` breaks a line: line feed, carriage return, next line, or one of the separators of
    lines and of paragraphs. -/
def isBreak (c : Char) : Bool :=
  c == '\n' || c == '\r' || c.toNat == 0x85 || c.toNat == 0x2028 || c.toNat == 0x2029

/-- Whether `c` is padding or a break. -/
def isGap (c : Char) : Bool := isPadding c || isBreak c

/-- The breaks of a text in order. The two separators stay as they are, every other break counts as
    a line feed, and a carriage return is one break with the line feed after it. -/
def Chars.breaks : List Char → List Char
  | '\r' :: '\n' :: text => '\n' :: Chars.breaks text
  | c :: text =>
    if !isBreak c then Chars.breaks text
    else if c.toNat = 0x2028 ∨ c.toNat = 0x2029 then c :: Chars.breaks text
    else '\n' :: Chars.breaks text
  | [] => []

/-- What a stretch of padding and breaks stands for. Without a break it stands for itself. Padding
    around breaks is dropped; a line feed that comes first is a space when it is alone, and only
    the breaks after it count when it is not. -/
def Chars.fold (gap : List Char) : List Char :=
  match Chars.breaks gap with
  | [] => gap
  | ['\n'] => [' ']
  | '\n' :: others => others
  | all => all

/-- The longest beginning of a text that has no break and takes at most `size` bytes. -/
def Chars.lineWithin (size : Nat) : List Char → List Char
  | [] => []
  | c :: text =>
    if isBreak c ∨ size < c.utf8Size then [] else c :: Chars.lineWithin (size - c.utf8Size) text

end OpenApiTs.Text
