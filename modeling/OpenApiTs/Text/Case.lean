/-
  OpenApiTs.Text.Case

  Upper and lower case of a text after the Unicode character database: a character may map to
  several, and a capital sigma that ends a word becomes the final form.
-/
import OpenApiTs.Text.CaseTable

namespace OpenApiTs.Text

/-! ## Single characters -/

/-- The code point that a table of runs maps `code` to, or `code` itself. -/
def imageOf (runs : List CaseRun) (code : Nat) : Nat :=
  (runs.findSome? fun run => run.image? code).getD code

/-- The upper-case form of a character. -/
def Chars.upperOf (c : Char) : List Char :=
  if c.toNat < 128 then [c.toUpper]
  else
    match upperExpansions.lookup c.toNat with
    | some codes => codes.map Char.ofNat
    | none => [Char.ofNat (imageOf upperRuns c.toNat)]

/-- The lower-case form of a character, its neighbours left aside. U+0130 is the one character whose
    form is two: a small i and a combining dot above. -/
def Chars.lowerOf (c : Char) : List Char :=
  if c.toNat < 128 then [c.toLower]
  else if c.toNat = 0x130 then ['i', Char.ofNat 0x307]
  else [Char.ofNat (imageOf lowerRuns c.toNat)]

/-! ## Texts -/

/-- Whether a code point lies in one of the ranges. -/
def inRanges (ranges : List (Nat × Nat)) (code : Nat) : Bool :=
  ranges.any fun range => range.1 ≤ code && code ≤ range.2

/-- Whether the first character that is not passed over takes part in case distinctions. -/
def Chars.meetsCased (text : List Char) : Bool :=
  match text.dropWhile fun c => inRanges caseIgnorableRanges c.toNat with
  | [] => false
  | c :: _ => inRanges casedRanges c.toNat

/-- Capital sigma. -/
def capitalSigma : Char := Char.ofNat 0x3A3

/-- The form of a capital sigma between the reversed text before it and the text after it: final
    when a letter precedes it and none follows. -/
def Chars.lowerSigma (before after : List Char) : Char :=
  if Chars.meetsCased before && !Chars.meetsCased after then Char.ofNat 0x3C2
  else Char.ofNat 0x3C3

/-- Lower case of a text, `before` being the reversed text in front of it. -/
def Chars.lowerFrom (before : List Char) : List Char → List Char
  | [] => []
  | c :: text =>
    (if c = capitalSigma then [Chars.lowerSigma before text] else Chars.lowerOf c)
      ++ Chars.lowerFrom (c :: before) text

/-- The text in upper case. -/
def upper (text : String) : String := String.ofList (text.toList.flatMap Chars.upperOf)

/-- The text in lower case. -/
def lower (text : String) : String := String.ofList (Chars.lowerFrom [] text.toList)

end OpenApiTs.Text
