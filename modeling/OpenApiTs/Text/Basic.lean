/-
  OpenApiTs.Text.Basic

  The functions of `OpenApiTs.Text.Chars` on `String`, and the lines of a text.
-/
import OpenApiTs.Text.Chars

namespace OpenApiTs.Text

/-! ## Openings -/

/-- What follows `lead` in `text`, when `text` opens with it. -/
def after? (lead text : String) : Option String :=
  (Chars.after? lead.toList text.toList).map String.ofList

/-- What stands before `tail` in `text`, when `text` closes with it. -/
def before? (tail text : String) : Option String :=
  (Chars.before? tail.toList text.toList).map String.ofList

/-- Whether `text` opens with `lead`. -/
def opensWith (lead text : String) : Bool := lead.toList.isPrefixOf text.toList

/-- Whether `text` closes with `tail`. -/
def closesWith (tail text : String) : Bool := tail.toList.isSuffixOf text.toList

/-- Whether `needle` occurs in `text`. -/
def contains (needle text : String) : Bool := Chars.occurs needle.toList text.toList

theorem after?_eq_some_iff {lead text rest : String} :
    after? lead text = some rest ↔ text = lead ++ rest := by
  simp only [after?, Option.map_eq_some_iff, Chars.after?_eq_some_iff]
  constructor
  · rintro ⟨chars, h_text, rfl⟩
    exact String.toList_inj.mp (by simp [h_text])
  · rintro rfl
    exact ⟨rest.toList, by simp⟩

/-! ## Splitting -/

/-- The stretches of a text between occurrences of the character `sep`, empty ones included. -/
def pieces (sep : Char) (text : String) : List String :=
  (Chars.pieces (· == sep) text.toList).map String.ofList

/-- What follows the last occurrence of `sep`, or the whole text when there is none. -/
def lastPiece (sep : Char) (text : String) : String :=
  String.ofList (Chars.lastPiece (· == sep) text.toList)

/-- A line without the carriage return that may close it. -/
def dropReturn (line : List Char) : List Char :=
  match line.getLast? with
  | some '\r' => line.dropLast
  | _ => line

/-- The lines that a list of pieces stands for: each but the last was closed by a line feed and
    loses a carriage return before it; an empty last piece is no line. -/
def linesOfPieces : List (List Char) → List (List Char)
  | [] => []
  | [piece] => if piece.isEmpty then [] else [piece]
  | piece :: next :: others => dropReturn piece :: linesOfPieces (next :: others)

/-- The lines of a text, without their ends. -/
def lines (text : String) : List String :=
  (linesOfPieces (Chars.pieces (· == '\n') text.toList)).map String.ofList

/-! ## Replacing -/

/-- Every occurrence of `needle` replaced by `put`, from the left and without overlap. -/
def replaceAll (needle put text : String) : String :=
  String.ofList (Chars.replaceAll [needle.toList] put.toList text.toList)

/-- The leftmost occurrence of `needle` replaced by `put`. -/
def replaceFirst (needle put text : String) : String :=
  String.ofList (Chars.replaceFirst needle.toList put.toList text.toList)

end OpenApiTs.Text
