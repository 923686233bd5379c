/-
  OpenApiTs.Proofs.Name.Joined

  Identifiers of texts that are put together. What stands behind a character that is foreign to
  identifiers is made into words of its own, so the identifier for a text ends in what the
  identifier for its last piece is made of; only a digit in front is kept here and dropped there.
-/
import OpenApiTs.Proofs.Name.Stable
import OpenApiTs.Proofs.Text.Avoids

namespace OpenApiTs

variable {needle front back text : List Char} {c : Char}

/-! ## Words -/

namespace Text.Chars

/-- The words of a text are those before a separator and those behind it. -/
theorem words_append_cons {sep : Char → Bool} (h_sep : sep c = true) (front back : List Char) :
    words sep (front ++ c :: back) = words sep front ++ words sep back := by
  have h_pieces : pieces sep (front ++ c :: back) = pieces sep front ++ pieces sep back := by
    induction front with
    | nil => simp [pieces, h_sep]
    | cons f front ih =>
      rw [List.cons_append, pieces, pieces, ih]
      split
      · rfl
      · obtain ⟨piece, others, h_front⟩ := List.exists_cons_of_ne_nil (pieces_ne_nil sep front)
        rw [h_front]
        rfl
  rw [words, h_pieces, List.filter_append, words, words]

/-- A text is its last piece, or that piece behind a separator. -/
theorem eq_or_exists_lastPiece (sep : Char → Bool) (text : List Char) :
    lastPiece sep text = text ∨
      ∃ front c, sep c = true ∧ text = front ++ c :: lastPiece sep text := by
  have h_parts := List.takeWhile_append_dropWhile (p := fun c => !sep c) (l := text.reverse)
  have h_whole : text =
      (text.reverse.dropWhile fun c => !sep c).reverse ++ lastPiece sep text := by
    rw [lastPiece, ← List.reverse_append, h_parts, List.reverse_reverse]
  -- the text is cut from its end: nothing is left, or the separator is the first thing left
  cases h_rest : text.reverse.dropWhile fun c => !sep c with
  | nil =>
    rw [h_rest] at h_whole
    exact .inl h_whole.symm
  | cons c rest =>
    have h_first := List.head?_dropWhile_not (fun c => !sep c) text.reverse
    rw [h_rest] at h_first h_whole
    refine .inr ⟨rest.reverse, c, by simpa using h_first, ?_⟩
    rw [List.reverse_cons, List.append_assoc] at h_whole
    exact h_whole

end Text.Chars

namespace Name

open OpenApiTs.Text (Avoids Solid)

/-! ## Parts of an identifier -/

/-- Texts are folded apart when no small letter begins the second. -/
theorem foldUnderscores_append (h_back : ∀ c ∈ back.head?, c.isLower = false)
    (front : List Char) :
    foldUnderscores (front ++ back) = foldUnderscores front ++ foldUnderscores back := by
  fun_induction foldUnderscores front with
  | case1 => rfl
  | case2 c =>
    -- an underscore at the end is folded into a small letter only
    cases back with
    | nil => rfl
    | cons d back =>
      have h_lower : d.isLower = false := h_back d rfl
      rw [List.singleton_append, foldUnderscores, if_neg (by simp [h_lower])]
      rfl
  | case3 c d text h_fold ih =>
    rw [List.cons_append, List.cons_append, foldUnderscores, if_pos h_fold, ih]
    rfl
  | case4 c d text h_keep ih =>
    rw [List.cons_append, List.cons_append, foldUnderscores, if_neg h_keep, ← List.cons_append, ih]
    rfl

theorem foldUnderscores_cons (h_c : c ≠ '_') (text : List Char) :
    foldUnderscores (c :: text) = c :: foldUnderscores text := by
  cases text with
  | nil => rfl
  | cons d text => rw [foldUnderscores, if_neg fun h_both => h_c h_both.1]

/-- The identifier for a name with something behind it that is folded into nothing else ends in
    that. -/
theorem identifier_append {text tail : String} (h_word : IsWord text)
    (h_digit : beginsWithDigit text = false) (h_inside : ∀ c ∈ tail.toList, inIdentifier c = true)
    (h_lower : ∀ c ∈ tail.toList.head?, c.isLower = false)
    (h_tail : foldUnderscores tail.toList = tail.toList) :
    identifier (text ++ tail) = identifier text ++ tail := by
  obtain ⟨c, chars, h_chars⟩ := List.exists_cons_of_ne_nil h_word.ne_nil
  have h_whole : IsWord (text ++ tail) := by
    refine ⟨by simp [h_word.ne_nil], fun c h_c => ?_⟩
    rw [String.toList_append, List.mem_append] at h_c
    exact h_c.elim (h_word.inside c) (h_inside c)
  have h_begins : beginsWithDigit (text ++ tail) = false := by
    rw [beginsWithDigit, String.toList_append, h_chars]
    rwa [beginsWithDigit, h_chars] at h_digit
  apply String.toList_inj.mp
  rw [identifier_of_isWord h_whole h_begins, String.toList_append, String.toList_append,
    identifier_of_isWord h_word h_digit, foldUnderscores_append h_lower, h_tail]
  -- the name is not empty, so that the capital is in it
  rw [h_chars]
  obtain ⟨first, others, h_fold⟩ := List.exists_cons_of_ne_nil (foldUnderscores_ne_nil c chars)
  rw [h_fold]
  rfl

/-- The words of a text without foreign characters, each with a capital, run together. -/
def runTogether (text : List Char) : List Char :=
  ((Text.Chars.words Text.isBlank (foldUnderscores text)).map capitalize).flatten

theorem identifier_cases (text : List Char) :
    runTogether (blankForeign text) = [] ∧ Chars.identifier text = "NoName".toList ∨
      Chars.identifier text = runTogether (blankForeign text) := by
  rw [Chars.identifier, runTogether]
  split
  · next h_none => exact .inl ⟨by rw [h_none]; rfl, rfl⟩
  · exact .inr rfl

/-- A blank parts the words, so the two sides are run together apart. -/
theorem runTogether_append_blank (front back : List Char) :
    runTogether (front ++ ' ' :: back) = runTogether front ++ runTogether back := by
  have h_blank : ∀ c ∈ (' ' :: back).head?, c.isLower = false := by
    intro c h_c
    cases h_c
    rfl
  rw [runTogether, foldUnderscores_append h_blank, foldUnderscores_cons (by decide),
    Text.Chars.words_append_cons (by decide), List.map_append, List.flatten_append]
  rfl

/-- A foreign character in the middle becomes a blank, and what follows is not blanked for a
    digit. -/
theorem blankForeign_append_cons (h_c : inIdentifier c = false) (front back : List Char) :
    blankForeign (front ++ c :: back) = blankForeign front ++ ' ' :: blankOut back := by
  cases front with
  | nil => simp [blankForeign, h_c]
  | cons f front => simp [blankForeign, blankOut, h_c]

/-! ## Needles in identifiers -/

/-- A capital in front changes nothing that begins with an underscore. -/
theorem infix_of_infix_capitalize_append (h_head : needle.head? = some '_') {word rest : List Char}
    (h_inside : needle <:+: capitalize word ++ rest) : needle <:+: word ++ rest := by
  cases word with
  | nil => exact h_inside
  | cons first word =>
    rw [capitalize, List.cons_append] at h_inside
    rcases List.infix_cons_iff.mp h_inside with h_opens | h_later
    · obtain ⟨others, rfl⟩ := List.head?_eq_some_iff.mp h_head
      obtain ⟨h_first, h_others⟩ := List.cons_prefix_cons.mp h_opens
      rw [toUpper_eq_underscore h_first.symm]
      exact (List.cons_prefix_cons.mpr ⟨rfl, h_others⟩).isInfix
    · exact List.infix_cons h_later

/-- A digit in front of the words hides nothing that begins with an underscore. -/
theorem infix_runTogether_cons (h_head : needle.head? = some '_') (h_digit : c.isDigit = true)
    (h_inside : needle <:+: runTogether text) : needle <:+: runTogether (c :: text) := by
  have h_identifier : inIdentifier c = true := by simp [inIdentifier, Char.isAlphanum, h_digit]
  have h_underscore : c ≠ '_' := by
    rintro rfl
    exact absurd h_digit (by decide)
  obtain ⟨piece, others, h_pieces⟩ :=
    List.exists_cons_of_ne_nil (Text.Chars.pieces_ne_nil Text.isBlank (foldUnderscores text))
  -- the first word is that of the text, with the digit before it or not
  have h_text : runTogether text = capitalize piece ++
      ((others.filter fun piece => !piece.isEmpty).map capitalize).flatten := by
    rw [runTogether, Text.Chars.words, h_pieces]
    cases piece with
    | nil => simp [capitalize]
    | cons first piece => simp
  have h_cons : runTogether (c :: text) = c.toUpper :: (piece ++
      ((others.filter fun piece => !piece.isEmpty).map capitalize).flatten) := by
    rw [runTogether, foldUnderscores_cons h_underscore, Text.Chars.words, Text.Chars.pieces,
      isBlank_of_inIdentifier h_identifier, h_pieces]
    simp [capitalize]
  rw [h_text] at h_inside
  rw [h_cons]
  exact List.infix_cons (infix_of_infix_capitalize_append h_head h_inside)

theorem infix_runTogether_blankOut (h_head : needle.head? = some '_')
    (h_inside : needle <:+: runTogether (blankForeign text)) :
    needle <:+: runTogether (blankOut text) := by
  cases text with
  | nil => exact h_inside
  | cons c text =>
    rw [blankForeign] at h_inside
    rw [blankOut, List.map_cons, ← blankOut]
    cases h_digit : c.isDigit with
    | false => simpa [h_digit] using h_inside
    | true =>
      have h_identifier : inIdentifier c = true := by simp [inIdentifier, Char.isAlphanum, h_digit]
      have h_blank := runTogether_append_blank [] (blankOut text)
      rw [List.nil_append] at h_blank
      -- a digit in front is blanked on one side and kept on the other
      rw [h_identifier, h_digit, Bool.not_true, Bool.and_false, if_neg Bool.false_ne_true, h_blank]
        at h_inside
      rw [if_pos h_identifier]
      exact infix_runTogether_cons h_head h_digit h_inside

theorem infix_runTogether_of_infix_identifier (h_head : needle.head? = some '_') :
    needle <:+: Chars.identifier text ↔ needle <:+: runTogether (blankForeign text) := by
  have h_underscore : '_' ∈ needle := List.mem_of_mem_head? h_head
  -- the name for a text without words has no underscore, and neither has the empty text
  rcases identifier_cases text with ⟨h_none, h_name⟩ | h_name
  · rw [h_none, h_name]
    constructor
    · exact fun h_inside => absurd (h_inside.subset h_underscore) (by decide)
    · exact fun h_inside => absurd (h_inside.subset h_underscore) List.not_mem_nil
  · rw [h_name]

/-- What occurs in the identifier for what follows a foreign character occurs in that for the whole,
    if it begins with an underscore. -/
theorem infix_identifier_append_cons (h_head : needle.head? = some '_')
    (h_c : inIdentifier c = false) (h_inside : needle <:+: Chars.identifier back) :
    needle <:+: Chars.identifier (front ++ c :: back) := by
  rw [infix_runTogether_of_infix_identifier h_head] at h_inside ⊢
  rw [blankForeign_append_cons h_c, runTogether_append_blank]
  exact (infix_runTogether_blankOut h_head h_inside).trans (List.suffix_append _ _).isInfix

/-- The identifier for the last piece of a text avoids what the identifier for the text avoids. -/
theorem avoids_identifier_lastPiece {needle : List Char} (h_head : needle.head? = some '_')
    {text : String} (h_text : Avoids needle (identifier text).toList) :
    Avoids needle (identifier (Text.lastPiece '/' text)).toList := by
  rw [identifier, Text.lastPiece, String.toList_ofList, String.toList_ofList]
  rw [identifier, String.toList_ofList] at h_text
  rcases Text.Chars.eq_or_exists_lastPiece (· == '/') text.toList with h_whole | ⟨front, c, h_c, h_eq⟩
  · rwa [h_whole]
  · intro h_inside
    rw [beq_iff_eq.mp h_c] at h_eq
    rw [h_eq] at h_text
    exact h_text (infix_identifier_append_cons h_head (by decide) h_inside)

end Name

end OpenApiTs
