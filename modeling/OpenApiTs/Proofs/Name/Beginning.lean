/-
  OpenApiTs.Proofs.Name.Beginning

  What the identifier for a name begins with. Foreign characters are blanked out, underscores folded
  and words given capitals, and none of this puts a digit in front or takes one away: the identifier
  begins with a digit exactly when the first character of the name that it may hold is one, where a
  digit in the first place of the name does not count.
-/
import OpenApiTs.Proofs.Name.Stable

namespace OpenApiTs.Name

open OpenApiTs.Text

/-! ## Openings -/

/-- The first character of a name that an identifier may hold. A digit in the first place does not
    count. -/
def opening? (name : List Char) : Option Char :=
  match name with
  | [] => none
  | c :: others => (if c.isDigit then others else name).find? inIdentifier

/-- Whether the first character of a name that an identifier may hold is a digit. -/
def opensWithDigit (name : String) : Bool := (opening? name.toList).any Char.isDigit

/-! ## Digits in front -/

theorem isDigit_iff {c : Char} : c.isDigit = true ↔ 48 ≤ c.toNat ∧ c.toNat ≤ 57 :=
  Char.isDigit_iff_toNat

/-- Capitals are made of letters only, so no digit comes or goes. -/
theorem isDigit_toUpper (c : Char) : c.toUpper.isDigit = c.isDigit := by
  cases h_lower : c.isLower with
  | false => rw [toUpper_of_not_isLower h_lower]
  | true =>
    have h_range := isLower_iff.mp h_lower
    rw [Bool.eq_iff_iff, isDigit_iff, isDigit_iff, toNat_toUpper h_lower]
    omega

/-- The words of a text begin with its first character that is no separator. -/
theorem head?_flatten_words (sep : Char → Bool) (text : List Char) :
    (Chars.words sep text).flatten.head? = text.find? fun c => !sep c := by
  have h_words (pieces : List (List Char)) :
      (pieces.filter fun piece => !piece.isEmpty).flatten = pieces.flatten := by
    induction pieces with
    | nil => rfl
    | cons piece pieces ih =>
      cases piece with
      | nil => simpa using ih
      | cons c piece => simpa using ih
  -- empty pieces add nothing to the text, so words may be read as pieces
  rw [Chars.words, h_words]
  induction text with
  | nil => rfl
  | cons c text ih =>
    rw [Chars.pieces, List.find?_cons]
    cases h_sep : sep c with
    | true => simpa using ih
    | false =>
      obtain ⟨first, others, h_pieces⟩ :=
        List.exists_cons_of_ne_nil (Chars.pieces_ne_nil sep text)
      simp [h_pieces]

/-- Capitals leave a digit in front a digit. -/
theorem any_head?_flatten_capitalize (words : List (List Char)) :
    (words.map capitalize).flatten.head?.any Char.isDigit =
      words.flatten.head?.any Char.isDigit := by
  induction words with
  | nil => rfl
  | cons word words ih =>
    cases word with
    | nil => simpa [capitalize] using ih
    | cons c word => simp [capitalize, isDigit_toUpper]

/-- The first character that is not blanked out is the first that an identifier may hold. -/
theorem find?_blankOut (text : List Char) :
    (blankOut text).find? (fun c => !isBlank c) = text.find? inIdentifier := by
  have h_space : isBlank ' ' = true := by decide
  induction text with
  | nil => rfl
  | cons c text ih =>
    rw [blankOut, List.map_cons, ← blankOut, List.find?_cons, List.find?_cons]
    cases h_inside : inIdentifier c with
    | false => simpa [h_space] using ih
    | true => simp [isBlank_of_inIdentifier h_inside]

theorem find?_blankForeign (text : List Char) :
    (blankForeign text).find? (fun c => !isBlank c) = opening? text := by
  have h_space : isBlank ' ' = true := by decide
  cases text with
  | nil => rfl
  | cons c text =>
    rw [blankForeign, opening?, List.find?_cons]
    -- only the first character is blanked for being a digit
    cases h_digit : c.isDigit with
    | true => simpa [h_space] using find?_blankOut text
    | false =>
      cases h_inside : inIdentifier c with
      | true => simp [h_inside, isBlank_of_inIdentifier h_inside]
      | false => simpa [h_inside, h_space] using find?_blankOut text

/-- Folding underscores leaves a digit in front a digit. -/
theorem any_find?_foldUnderscores (text : List Char) :
    ((foldUnderscores text).find? fun c => !isBlank c).any Char.isDigit =
      (text.find? fun c => !isBlank c).any Char.isDigit := by
  fun_induction foldUnderscores text with
  | case1 => rfl
  | case2 c => rfl
  | case3 c d text h_fold _ =>
    -- neither the letter that the underscore becomes nor the underscore is a digit
    obtain ⟨rfl, h_lower⟩ := h_fold
    have h_underscore : isBlank '_' = false := by decide
    have h_upper : isBlank d.toUpper = false :=
      isBlank_of_inIdentifier (inIdentifier_of_isAlpha (isAlpha_toUpper h_lower))
    have h_digit : d.isDigit = false := by
      have h_range := isLower_iff.mp h_lower
      rw [Bool.eq_false_iff, ne_eq, isDigit_iff]
      omega
    rw [List.find?_cons, List.find?_cons, h_upper, h_underscore]
    simp [isDigit_toUpper, h_digit]
  | case4 c d text _ ih =>
    rw [List.find?_cons, List.find?_cons]
    cases isBlank c with
    | false => rfl
    | true => exact ih

/-! ## Identifiers -/

/-- The identifier for a name begins with a digit exactly when the name opens with one. -/
theorem beginsWithDigit_identifier (text : String) :
    beginsWithDigit (identifier text) = opensWithDigit text := by
  have h_words : (Chars.words isBlank (foldUnderscores (blankForeign text.toList))).flatten.head?.any
      Char.isDigit = opensWithDigit text := by
    rw [head?_flatten_words, any_find?_foldUnderscores, find?_blankForeign, opensWithDigit]
  rw [beginsWithDigit, identifier, String.toList_ofList, Chars.identifier]
  split
  · next h_none =>
    rw [h_none] at h_words
    exact h_words
  · rw [any_head?_flatten_capitalize, h_words]

/-- An identifier is a word that begins with no digit. -/
theorem isIdentifier_iff {text : String} :
    isIdentifier text = true ↔ IsWord text ∧ beginsWithDigit text = false := by
  refine ⟨fun h_text => ⟨isWord_of_isIdentifier h_text, beginsWithDigit_of_isIdentifier h_text⟩, ?_⟩
  rintro ⟨h_word, h_digit⟩
  obtain ⟨c, chars, h_chars⟩ := List.exists_cons_of_ne_nil h_word.ne_nil
  have h_inside := h_word.inside
  rw [h_chars, List.forall_mem_cons] at h_inside
  rw [beginsWithDigit, h_chars, List.head?_cons, Option.any_some] at h_digit
  rw [isIdentifier, h_chars, Chars.isIdentifier, Bool.and_eq_true, List.all_eq_true]
  refine ⟨?_, h_inside.2⟩
  simpa [inIdentifier, beginsIdentifier, Char.isAlphanum, h_digit] using h_inside.1

/-- The identifier for a name is a legal one unless the name opens with a digit. -/
theorem isIdentifier_identifier_iff (text : String) :
    isIdentifier (identifier text) = true ↔ opensWithDigit text = false := by
  rw [isIdentifier_iff, beginsWithDigit_identifier]
  exact and_iff_right (isWord_identifier text)

end OpenApiTs.Name
