/-
  OpenApiTs.Text.Chars

  Searching, splitting and replacing on lists of characters. Every function here is a recursion
  on the text, so that what it does to a text can be proved by following the text; the functions
  on `String` in `OpenApiTs.Text.Basic` are these ones behind `toList` and `ofList`.
-/

namespace OpenApiTs.Text.Chars

/-! ## Openings -/

/-- What follows `lead` in `text`, when `text` opens with it. -/
def after? : List Char → List Char → Option (List Char)
  | [], text => some text
  | _ :: _, [] => none
  | l :: lead, c :: text => if l = c then after? lead text else none

theorem after?_eq_some_iff {lead text rest : List Char} :
    after? lead text = some rest ↔ text = lead ++ rest := by
  induction lead generalizing text with
  | nil => simp [after?]
  | cons l lead ih =>
    cases text with
    | nil => simp [after?]
    | cons c text =>
      by_cases h_eq : l = c
      · simp [after?, h_eq, ih]
      · simp [after?, h_eq, Ne.symm h_eq]

theorem length_of_after? {lead text rest : List Char} (h_after : after? lead text = some rest) :
    text.length = lead.length + rest.length := by
  rw [after?_eq_some_iff.mp h_after, List.length_append]

/-- What stands before `tail` in `text`, when `text` closes with it. -/
def before? (tail text : List Char) : Option (List Char) :=
  (after? tail.reverse text.reverse).map List.reverse

theorem before?_eq_some_iff {tail text rest : List Char} :
    before? tail text = some rest ↔ text = rest ++ tail := by
  simp only [before?, Option.map_eq_some_iff, after?_eq_some_iff]
  constructor
  · rintro ⟨front, h_text, rfl⟩
    simpa using congrArg List.reverse h_text
  · rintro rfl
    exact ⟨rest.reverse, by simp⟩

/-- The text without the byte order mark at its front, if it has one. -/
def dropByteOrderMark : List Char → List Char
  | [] => []
  | c :: text => if c.toNat = 0xFEFF then text else c :: text

/-- Whether `needle` occurs in the text. -/
def occurs (needle : List Char) : List Char → Bool
  | [] => needle.isEmpty
  | c :: text => needle.isPrefixOf (c :: text) || occurs needle text

/-! ## Splitting -/

/-- The stretches of a text between the characters that `sep` picks, empty ones included: a text
    with `n` separators has `n + 1` pieces. -/
def pieces (sep : Char → Bool) : List Char → List (List Char)
  | [] => [[]]
  | c :: text =>
    if sep c then [] :: pieces sep text
    else
      match pieces sep text with
      | [] => [[c]]
      | piece :: others => (c :: piece) :: others

theorem pieces_ne_nil (sep : Char → Bool) (text : List Char) : pieces sep text ≠ [] := by
  cases text with
  | nil => simp [pieces]
  | cons c text =>
    rw [pieces]
    split
    · simp
    · split <;> simp

/-- The stretches that are not empty. -/
def words (sep : Char → Bool) (text : List Char) : List (List Char) :=
  (pieces sep text).filter fun piece => !piece.isEmpty

/-- What follows the last character that `sep` picks, or the whole text when it picks none. -/
def lastPiece (sep : Char → Bool) (text : List Char) : List Char :=
  (text.reverse.takeWhile fun c => !sep c).reverse

/-! ## Replacing -/

/-- Every occurrence of one of `needles` replaced by `put`, from the left and without overlap; where
    several begin at one place the first of the list counts. -/
def replaceAll (needles : List (List Char)) (put : List Char) : List Char → List Char
  | [] => []
  | c :: text =>
    match needles.find? fun needle => needle.isPrefixOf (c :: text) with
    | some needle => put ++ replaceAll needles put (text.drop (needle.length - 1))
    | none => c :: replaceAll needles put text
termination_by text => text.length
decreasing_by
  · simp only [List.length_drop, List.length_cons]; omega
  · simp

/-- The leftmost occurrence of `needle` replaced by `put`. -/
def replaceFirst (needle put : List Char) : List Char → List Char
  | [] => []
  | c :: text =>
    match after? needle (c :: text) with
    | some rest => put ++ rest
    | none => c :: replaceFirst needle put text

/-! ## Ends -/

/-- The text without the characters that `drop` picks at its end. -/
def dropWhileEnd (drop : Char → Bool) (text : List Char) : List Char :=
  (text.reverse.dropWhile drop).reverse

end OpenApiTs.Text.Chars
