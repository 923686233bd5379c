/-
  OpenApiTs.Proofs.Name.Stable

  Names that are their own identifiers. The identifier for a schema name is one of them, also with a
  number after it, unless it begins with a digit.
-/
import OpenApiTs.Proofs.Name.Identifier
import Mathlib.Data.List.Chain

namespace OpenApiTs.Name

open OpenApiTs.Text

variable {text word : List Char}

/-- Whether `c` and `d` are no underscore with a small letter after it. -/
def Apart (c d : Char) : Prop := c = '_' → d.isLower = false

instance : DecidableRel Apart := fun c d =>
  inferInstanceAs (Decidable (c = '_' → d.isLower = false))

/-- Whether a text begins with a digit. -/
def beginsWithDigit (text : String) : Bool := text.toList.head?.any Char.isDigit

/-- Whether a text is a word that begins with no digit and no small letter and has no underscore
    before a small letter. -/
structure IsStable (text : String) : Prop where
  word : IsWord text
  digit : beginsWithDigit text = false
  capital : ∀ c ∈ text.toList.head?, c.isLower = false
  apart : text.toList.IsChain Apart

/-! ## Upper case -/

theorem toUpper_eq_underscore {c : Char} (h_upper : c.toUpper = '_') : c = '_' := by
  cases h_lower : c.isLower with
  | false => rwa [toUpper_of_not_isLower h_lower] at h_upper
  | true =>
    have h_alpha := isAlpha_toUpper h_lower
    rw [h_upper] at h_alpha
    exact absurd h_alpha (by decide)

/-! ## Underscores -/

/-- What folding leaves in front is the first character or no small letter. -/
theorem head?_foldUnderscores_cons (c : Char) (text : List Char) :
    ∀ d ∈ (foldUnderscores (c :: text)).head?, d = c ∨ d.isLower = false := by
  intro d h_head
  cases text with
  | nil =>
    rw [foldUnderscores, List.head?_cons, Option.mem_some] at h_head
    exact .inl h_head.symm
  | cons e text =>
    rw [foldUnderscores] at h_head
    split at h_head
    · rw [List.head?_cons, Option.mem_some] at h_head
      exact .inr (h_head ▸ isLower_toUpper e)
    · rw [List.head?_cons, Option.mem_some] at h_head
      exact .inl h_head.symm

theorem foldUnderscores_ne_nil (c : Char) (text : List Char) : foldUnderscores (c :: text) ≠ [] := by
  cases text with
  | nil => exact List.cons_ne_nil c []
  | cons d text =>
    rw [foldUnderscores]
    split <;> exact List.cons_ne_nil _ _

/-- Folding leaves no underscore before a small letter. -/
theorem isChain_foldUnderscores (text : List Char) : (foldUnderscores text).IsChain Apart := by
  fun_induction foldUnderscores text with
  | case1 => exact List.isChain_nil
  | case2 c => exact List.isChain_singleton c
  | case3 c d text h_fold ih =>
    rw [List.isChain_cons]
    refine ⟨fun e _ h_upper => ?_, ih⟩
    rw [toUpper_eq_underscore h_upper] at h_fold
    exact absurd h_fold.2 (by decide)
  | case4 c d text h_keep ih =>
    -- after an underscore that stays comes no small letter, before folding or after it
    rw [List.isChain_cons]
    refine ⟨fun e h_head h_underscore => ?_, ih⟩
    rcases head?_foldUnderscores_cons d text e h_head with rfl | h_lower
    · exact eq_false_of_ne_true fun h_lower => h_keep ⟨h_underscore, h_lower⟩
    · exact h_lower

/-- Nothing is folded when no small letter follows an underscore. -/
theorem foldUnderscores_of_isChain (h_apart : text.IsChain Apart) : foldUnderscores text = text := by
  fun_induction foldUnderscores text with
  | case1 => rfl
  | case2 c => rfl
  | case3 c d text h_fold ih =>
    rw [List.isChain_cons_cons] at h_apart
    -- an underscore that is folded is followed by a small letter, which is excluded
    rw [h_apart.1 h_fold.1] at h_fold
    exact absurd h_fold.2 (by decide)
  | case4 c d text h_keep ih =>
    rw [List.isChain_cons_cons] at h_apart
    rw [ih h_apart.2]

/-! ## Words -/

/-- The first stretch opens the text, and the others stand inside it. -/
theorem prefix_or_infix_of_mem_pieces (sep : Char → Bool) (text : List Char) :
    ∃ first others, Chars.pieces sep text = first :: others ∧ first <+: text ∧
      ∀ piece ∈ others, piece <:+: text := by
  induction text with
  | nil => exact ⟨[], [], rfl, List.prefix_refl [], by simp⟩
  | cons c text ih =>
    obtain ⟨first, others, h_pieces, h_first, h_others⟩ := ih
    have h_later : ∀ piece ∈ others, piece <:+: c :: text := fun piece h_piece =>
      (h_others piece h_piece).trans (List.suffix_cons c text).isInfix
    rw [Chars.pieces, h_pieces]
    split
    · refine ⟨[], first :: others, rfl, List.nil_prefix, ?_⟩
      rw [List.forall_mem_cons]
      exact ⟨h_first.isInfix.trans (List.suffix_cons c text).isInfix, h_later⟩
    · exact ⟨c :: first, others, rfl, List.cons_prefix_cons.mpr ⟨rfl, h_first⟩, h_later⟩

theorem infix_of_mem_words {sep : Char → Bool} (h_word : word ∈ Chars.words sep text) :
    word <:+: text := by
  obtain ⟨first, others, h_pieces, h_first, h_others⟩ := prefix_or_infix_of_mem_pieces sep text
  have h_piece := (List.mem_filter.mp h_word).1
  rw [h_pieces] at h_piece
  rcases List.mem_cons.mp h_piece with rfl | h_piece
  · exact h_first.isInfix
  · exact h_others word h_piece

theorem pieces_of_forall {sep : Char → Bool} (h_text : ∀ c ∈ text, sep c = false) :
    Chars.pieces sep text = [text] := by
  induction text with
  | nil => rfl
  | cons c text ih =>
    rw [List.forall_mem_cons] at h_text
    rw [Chars.pieces, h_text.1, ih h_text.2]
    rfl

/-- A text without separators is its only word. -/
theorem words_of_forall {sep : Char → Bool} (h_some : text ≠ [])
    (h_text : ∀ c ∈ text, sep c = false) : Chars.words sep text = [text] := by
  rw [Chars.words, pieces_of_forall h_text]
  simp [h_some]

/-! ## Capitals -/

/-- Making the first letter capital brings no underscore with it. -/
theorem isChain_capitalize (h_apart : word.IsChain Apart) : (capitalize word).IsChain Apart := by
  cases word with
  | nil => exact List.isChain_nil
  | cons c word =>
    rw [List.isChain_cons] at h_apart
    rw [capitalize, List.isChain_cons]
    exact ⟨fun d h_head h_upper => h_apart.1 d h_head (toUpper_eq_underscore h_upper), h_apart.2⟩

theorem isLower_head?_capitalize (word : List Char) :
    ∀ c ∈ (capitalize word).head?, c.isLower = false := by
  intro c h_head
  cases word with
  | nil => simp [capitalize] at h_head
  | cons d word =>
    rw [capitalize, List.head?_cons, Option.mem_some] at h_head
    exact h_head ▸ isLower_toUpper d

theorem capitalize_of_not_isLower (h_capital : ∀ c ∈ word.head?, c.isLower = false) :
    capitalize word = word := by
  cases word with
  | nil => rfl
  | cons c word => rw [capitalize, toUpper_of_not_isLower (h_capital c rfl)]

/-- Words that run together, each with a capital, keep underscores away from small letters. -/
theorem isChain_flatten_capitalize {words : List (List Char)}
    (h_words : ∀ word ∈ words, word.IsChain Apart) :
    (words.map capitalize).flatten.IsChain Apart ∧
      ∀ c ∈ (words.map capitalize).flatten.head?, c.isLower = false := by
  induction words with
  | nil => simp
  | cons word words ih =>
    rw [List.forall_mem_cons] at h_words
    obtain ⟨h_chain, h_head⟩ := ih h_words.2
    rw [List.map_cons, List.flatten_cons]
    -- where two words meet, the second begins with no small letter
    refine ⟨(isChain_capitalize h_words.1).append h_chain fun _ _ d h_d _ => h_head d h_d, ?_⟩
    intro c h_c
    rw [List.head?_append] at h_c
    rcases Option.or_eq_some_iff.mp h_c with h_own | ⟨-, h_later⟩
    · exact isLower_head?_capitalize word c h_own
    · exact h_head c h_later

/-! ## Identifiers -/

theorem beginsWithDigit_of_isIdentifier {text : String} (h_text : isIdentifier text = true) :
    beginsWithDigit text = false := by
  unfold isIdentifier at h_text
  rw [beginsWithDigit]
  cases h_chars : text.toList with
  | nil => rfl
  | cons first others =>
    rw [h_chars] at h_text
    have h_first := (Bool.and_eq_true_iff.mp h_text).1
    simp only [beginsIdentifier, Bool.or_eq_true, beq_iff_eq] at h_first
    rw [List.head?_cons, Option.any_some, Bool.eq_false_iff]
    intro h_digit
    have h_code : 48 ≤ first.toNat ∧ first.toNat ≤ 57 := Char.isDigit_iff_toNat.mp h_digit
    -- a letter, an underscore or a dollar sign, whose codes are none of a digit
    rcases h_first with (h_alpha | rfl) | rfl
    · rw [isAlpha_iff, isUpper_iff, isLower_iff] at h_alpha
      omega
    · exact absurd h_digit (by decide)
    · exact absurd h_digit (by decide)

/-- What stands behind a word does not change what it begins with. -/
theorem beginsWithDigit_append {text : String} (h_word : IsWord text) (more : String) :
    beginsWithDigit (text ++ more) = beginsWithDigit text := by
  obtain ⟨c, chars, h_chars⟩ := List.exists_cons_of_ne_nil h_word.ne_nil
  rw [beginsWithDigit, beginsWithDigit, String.toList_append, h_chars]
  rfl

/-- A word that does not begin with a digit is not broken: what folding leaves of it gets a capital. -/
theorem identifier_of_isWord {text : String} (h_word : IsWord text)
    (h_digit : beginsWithDigit text = false) :
    (identifier text).toList = capitalize (foldUnderscores text.toList) := by
  obtain ⟨c, chars, h_chars⟩ := List.exists_cons_of_ne_nil h_word.ne_nil
  have h_inside := h_word.inside
  rw [beginsWithDigit, h_chars] at h_digit
  rw [h_chars] at h_inside
  -- a word has nothing foreign, and it begins with no digit
  have h_foreign : blankForeign (c :: chars) = c :: chars := by
    rw [List.forall_mem_cons] at h_inside
    have h_rest : blankOut chars = chars := by
      rw [blankOut, List.map_congr_left fun d h_d => if_pos (h_inside.2 d h_d), List.map_id']
    have h_begin : c.isDigit = false := h_digit
    rw [blankForeign, h_rest, h_inside.1, h_begin]
    rfl
  have h_words : Chars.words isBlank (foldUnderscores (c :: chars)) =
      [foldUnderscores (c :: chars)] :=
    words_of_forall (foldUnderscores_ne_nil c chars) fun d h_d => isBlank_of_inIdentifier
      (forall_mem_foldUnderscores (fun _ => inIdentifier_of_isAlpha) h_inside d h_d)
  rw [identifier, String.toList_ofList, h_chars, Chars.identifier, h_foreign, h_words]
  simp

/-- A stable name is its own identifier. -/
theorem IsStable.identifier_eq {text : String} (h_stable : IsStable text) :
    identifier text = text := by
  have h_chars := identifier_of_isWord h_stable.word h_stable.digit
  rw [foldUnderscores_of_isChain h_stable.apart,
    capitalize_of_not_isLower h_stable.capital] at h_chars
  exact String.toList_inj.mp h_chars

/-- The identifier for a name is stable unless it begins with a digit. -/
theorem isStable_identifier {text : String} (h_digit : beginsWithDigit (identifier text) = false) :
    IsStable (identifier text) := by
  -- folding keeps underscores away from small letters, and each word is a stretch of its result
  have h_words : ∀ word ∈ Chars.words isBlank (foldUnderscores (blankForeign text.toList)),
      word.IsChain Apart := fun word h_word =>
    List.IsChain.infix (isChain_foldUnderscores _) (infix_of_mem_words h_word)
  obtain ⟨h_chain, h_capital⟩ := isChain_flatten_capitalize h_words
  refine ⟨isWord_identifier text, h_digit, ?_, ?_⟩
  · rw [identifier, String.toList_ofList, Chars.identifier]
    split
    · simp
    · exact h_capital
  · rw [identifier, String.toList_ofList, Chars.identifier]
    split
    · decide
    · exact h_chain

/-- Digits at the end keep a name stable. -/
theorem IsStable.append_digits {text : String} (h_stable : IsStable text) (number : Nat) :
    IsStable (text ++ String.ofList (Nat.toDigits 10 number)) := by
  have h_digits : ∀ c ∈ Nat.toDigits 10 number, c.isLower = false := by
    intro c h_mem
    have h_digit := Nat.isDigit_of_mem_toDigits (by decide) (by decide) h_mem
    have h_high : c.toNat ≤ 57 := (Char.isDigit_iff_toNat.mp h_digit).2
    rw [Bool.eq_false_iff, ne_eq, isLower_iff]
    omega
  obtain ⟨c, chars, h_chars⟩ := List.exists_cons_of_ne_nil h_stable.word.ne_nil
  have h_head : (text ++ String.ofList (Nat.toDigits 10 number)).toList.head? =
      text.toList.head? := by
    rw [String.toList_append, h_chars]
    rfl
  refine ⟨h_stable.word.append_digits number, ?_, ?_, ?_⟩
  · rw [beginsWithDigit_append h_stable.word]
    exact h_stable.digit
  · rw [h_head]
    exact h_stable.capital
  · rw [String.toList_append, String.toList_ofList]
    -- a digit is no small letter, so it may follow anything
    refine h_stable.apart.append ?_ fun _ _ d h_d _ => h_digits d (List.mem_of_mem_head? h_d)
    refine List.isChain_iff_getElem.mpr fun place h_place _ => ?_
    exact h_digits _ (List.getElem_mem h_place)

end OpenApiTs.Name
