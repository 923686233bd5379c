/-
  OpenApiTs.Proofs.Name.Identifier

  The identifier for a schema name is a word: it is not empty, and all of its characters may stand
  in an identifier.
-/
import OpenApiTs.Name.Identifier
import Mathlib.Data.List.Basic

namespace OpenApiTs.Name

open OpenApiTs.Text

/-- Whether a text is not empty and made of the characters of identifiers. -/
structure IsWord (text : String) : Prop where
  ne_nil : text.toList ≠ []
  inside : ∀ c ∈ text.toList, inIdentifier c = true

namespace IsWord

variable {text : String}

theorem not_mem (h_word : IsWord text) {c : Char} (h_c : inIdentifier c = false) :
    c ∉ text.toList := by
  intro h_mem
  rw [h_word.inside c h_mem] at h_c
  cases h_c

theorem append_digits (h_word : IsWord text) (number : Nat) :
    IsWord (text ++ String.ofList (Nat.toDigits 10 number)) := by
  refine ⟨?_, ?_⟩
  · simp [h_word.ne_nil]
  · intro c h_mem
    rw [String.toList_append, String.toList_ofList, List.mem_append] at h_mem
    rcases h_mem with h_mem | h_mem
    · exact h_word.inside c h_mem
    · have h_digit := Nat.isDigit_of_mem_toDigits (by decide) (by decide) h_mem
      simp [inIdentifier, Char.isAlphanum, h_digit]

end IsWord

/-! ## Characters -/

theorem isUpper_iff {c : Char} : c.isUpper = true ↔ 65 ≤ c.toNat ∧ c.toNat ≤ 90 := by
  change decide ('A'.val ≤ c.val ∧ c.val ≤ 'Z'.val) = true ↔ _
  rw [decide_eq_true_eq, UInt32.le_iff_toNat_le, UInt32.le_iff_toNat_le]
  rfl

theorem isLower_iff {c : Char} : c.isLower = true ↔ 97 ≤ c.toNat ∧ c.toNat ≤ 122 := by
  change (decide ('a'.val ≤ c.val) && decide (c.val ≤ 'z'.val)) = true ↔ _
  rw [Bool.and_eq_true, decide_eq_true_eq, decide_eq_true_eq, UInt32.le_iff_toNat_le,
    UInt32.le_iff_toNat_le]
  rfl

theorem isAlpha_iff {c : Char} : c.isAlpha = true ↔ c.isUpper = true ∨ c.isLower = true := by
  change (c.isUpper || c.isLower) = true ↔ _
  exact Bool.or_eq_true_iff

/-- The capital of a small letter stands 32 places before it. -/
theorem toNat_toUpper {c : Char} (h_lower : c.isLower = true) :
    c.toUpper.toNat = c.toNat - 32 := by
  obtain ⟨h_low, h_high⟩ : 97 ≤ c.val.toNat ∧ c.val.toNat ≤ 122 := isLower_iff.mp h_lower
  have h_range : 'a'.val ≤ c.val ∧ c.val ≤ 'z'.val :=
    ⟨UInt32.le_iff_toNat_le.mpr h_low, UInt32.le_iff_toNat_le.mpr h_high⟩
  have h_upper : c.toUpper.val = c.val + ('A'.val - 'a'.val) := by
    unfold Char.toUpper
    rw [dif_pos h_range]
  have h_shift : ('A'.val - 'a'.val).toNat = 2 ^ 32 - 32 := by decide
  -- the shift wraps around, so that it takes 32 away
  change c.toUpper.val.toNat = c.val.toNat - 32
  rw [h_upper, UInt32.toNat_add, h_shift]
  omega

theorem toUpper_of_not_isLower {c : Char} (h_lower : c.isLower = false) : c.toUpper = c := by
  unfold Char.toUpper
  rw [dif_neg]
  rintro ⟨h_low, h_high⟩
  have h_range : c.isLower = true :=
    isLower_iff.mpr ⟨UInt32.le_iff_toNat_le.mp h_low, UInt32.le_iff_toNat_le.mp h_high⟩
  rw [h_lower] at h_range
  cases h_range

theorem isAlpha_toUpper {c : Char} (h_lower : c.isLower = true) : c.toUpper.isAlpha = true := by
  have h_range := isLower_iff.mp h_lower
  rw [isAlpha_iff, isUpper_iff, toNat_toUpper h_lower]
  omega

theorem isLower_toUpper (c : Char) : c.toUpper.isLower = false := by
  cases h_lower : c.isLower with
  | false => rwa [toUpper_of_not_isLower h_lower]
  | true =>
    have h_range := isLower_iff.mp h_lower
    rw [Bool.eq_false_iff, ne_eq, isLower_iff, toNat_toUpper h_lower]
    omega

theorem inIdentifier_of_isAlpha {c : Char} (h_alpha : c.isAlpha = true) :
    inIdentifier c = true := by
  simp [inIdentifier, Char.isAlphanum, h_alpha]

theorem inIdentifier_toUpper {c : Char} (h_inside : inIdentifier c = true) :
    inIdentifier c.toUpper = true := by
  cases h_lower : c.isLower with
  | true => exact inIdentifier_of_isAlpha (isAlpha_toUpper h_lower)
  | false => rwa [toUpper_of_not_isLower h_lower]

/-- The characters of identifiers by their code points. -/
theorem toNat_of_inIdentifier {c : Char} (h_inside : inIdentifier c = true) :
    c.toNat = 36 ∨ c.toNat = 95 ∨ (48 ≤ c.toNat ∧ c.toNat ≤ 57) ∨
      (65 ≤ c.toNat ∧ c.toNat ≤ 90) ∨ (97 ≤ c.toNat ∧ c.toNat ≤ 122) := by
  simp only [inIdentifier, Char.isAlphanum, Bool.or_eq_true, isAlpha_iff, isUpper_iff,
    isLower_iff, Char.isDigit_iff_toNat, beq_iff_eq] at h_inside
  rcases h_inside with (((h_upper | h_lower) | h_digit) | rfl) | rfl
  · exact .inr (.inr (.inr (.inl h_upper)))
  · exact .inr (.inr (.inr (.inr h_lower)))
  · exact .inr (.inr (.inl h_digit))
  · exact .inr (.inl rfl)
  · exact .inl rfl

/-- No character of an identifier is a blank, so a word is not cut at one. -/
theorem isBlank_of_inIdentifier {c : Char} (h_inside : inIdentifier c = true) :
    isBlank c = false := by
  -- no range of blanks meets a range of characters of identifiers
  have h_code := toNat_of_inIdentifier h_inside
  rw [Bool.eq_false_iff]
  intro h_blank
  obtain ⟨range, h_range, h_within⟩ := List.any_eq_true.mp h_blank
  rw [Bool.and_eq_true, decide_eq_true_eq, decide_eq_true_eq] at h_within
  simp only [blankRanges, List.mem_cons, List.not_mem_nil, or_false] at h_range
  rcases h_range with rfl | rfl | rfl | rfl | rfl | rfl | rfl | rfl | rfl | rfl
  all_goals
    simp only at h_within
    omega

/-! ## Making an identifier -/

/-- Whether a character may stand in an identifier or is the blank between words. -/
def isInsideOrBlank (c : Char) : Bool := inIdentifier c || c == ' '

theorem isInsideOrBlank_of_mem_blankOut {text : List Char} :
    ∀ c ∈ blankOut text, isInsideOrBlank c = true := by
  intro c h_mem
  obtain ⟨own, -, rfl⟩ := List.mem_map.mp h_mem
  split
  · next h_inside => rw [isInsideOrBlank, h_inside, Bool.true_or]
  · rfl

/-- What is foreign to identifiers has become a blank. -/
theorem isInsideOrBlank_of_mem_blankForeign {text : List Char} :
    ∀ c ∈ blankForeign text, isInsideOrBlank c = true := by
  cases text with
  | nil => simp [blankForeign]
  | cons first text =>
    rw [blankForeign, List.forall_mem_cons]
    refine ⟨?_, fun c => isInsideOrBlank_of_mem_blankOut c⟩
    split
    · next h_inside => rw [isInsideOrBlank, (Bool.and_eq_true_iff.mp h_inside).1, Bool.true_or]
    · rfl

/-- Folding brings in nothing but letters. -/
theorem forall_mem_foldUnderscores {P : Char → Prop} (h_alpha : ∀ c, c.isAlpha = true → P c)
    {text : List Char} (h_text : ∀ c ∈ text, P c) : ∀ c ∈ foldUnderscores text, P c := by
  fun_induction foldUnderscores text with
  | case1 => simp
  | case2 c => exact h_text
  | case3 c d text h_fold ih =>
    simp only [List.forall_mem_cons] at h_text ⊢
    exact ⟨h_alpha _ (isAlpha_toUpper h_fold.2), ih h_text.2.2⟩
  | case4 c d text _ ih =>
    rw [List.forall_mem_cons] at h_text ⊢
    exact ⟨h_text.1, ih h_text.2⟩

/-- Folding underscores makes letters only. -/
theorem isInsideOrBlank_of_mem_foldUnderscores {text : List Char}
    (h_text : ∀ c ∈ text, isInsideOrBlank c = true) :
    ∀ c ∈ foldUnderscores text, isInsideOrBlank c = true := by
  refine forall_mem_foldUnderscores (fun c h_alpha => ?_) h_text
  rw [isInsideOrBlank, inIdentifier_of_isAlpha h_alpha, Bool.true_or]

/-- The stretches between separators are made of the characters of the text that are none. -/
theorem of_mem_pieces {sep : Char → Bool} {text piece : List Char}
    (h_piece : piece ∈ Chars.pieces sep text) : ∀ c ∈ piece, c ∈ text ∧ sep c = false := by
  induction text generalizing piece with
  | nil =>
    rw [Chars.pieces, List.mem_singleton] at h_piece
    simp [h_piece]
  | cons first text ih =>
    have h_later {own : List Char} (h_own : own ∈ Chars.pieces sep text) :
        ∀ c ∈ own, c ∈ first :: text ∧ sep c = false :=
      fun c h_mem => (ih h_own c h_mem).imp_left (List.mem_cons_of_mem first)
    rw [Chars.pieces] at h_piece
    -- a separator begins a new piece, anything else goes on with the first of the rest
    split at h_piece
    · rcases List.mem_cons.mp h_piece with rfl | h_piece
      · simp
      · exact h_later h_piece
    · next h_sep =>
      have h_first : first ∈ first :: text ∧ sep first = false :=
        ⟨List.mem_cons_self, eq_false_of_ne_true h_sep⟩
      split at h_piece
      · rw [List.mem_singleton] at h_piece
        simpa [h_piece] using eq_false_of_ne_true h_sep
      · next front others h_split =>
        rw [h_split] at h_later
        rcases List.mem_cons.mp h_piece with rfl | h_piece
        · rw [List.forall_mem_cons]
          exact ⟨h_first, h_later List.mem_cons_self⟩
        · exact h_later (List.mem_cons_of_mem _ h_piece)

theorem inIdentifier_of_not_isBlank {c : Char} (h_either : isInsideOrBlank c = true)
    (h_blank : isBlank c = false) : inIdentifier c = true := by
  rw [isInsideOrBlank, Bool.or_eq_true] at h_either
  rcases h_either with h_inside | h_eq
  · exact h_inside
  · rw [beq_iff_eq.mp h_eq] at h_blank
    exact absurd h_blank (by decide)

theorem inIdentifier_of_mem_capitalize {word : List Char}
    (h_word : ∀ c ∈ word, inIdentifier c = true) : ∀ c ∈ capitalize word, inIdentifier c = true := by
  cases word with
  | nil => simp [capitalize]
  | cons first word =>
    rw [List.forall_mem_cons] at h_word
    rw [capitalize, List.forall_mem_cons]
    exact ⟨inIdentifier_toUpper h_word.1, h_word.2⟩

/-- The identifier for a name is a word. -/
theorem isWord_identifier (text : String) : IsWord (identifier text) := by
  have h_foreign : ∀ c ∈ blankForeign text.toList, isInsideOrBlank c = true :=
    isInsideOrBlank_of_mem_blankForeign
  have h_chars := isInsideOrBlank_of_mem_foldUnderscores h_foreign
  rw [identifier, Chars.identifier]
  split
  · exact ⟨by simp, by simp; decide⟩
  · next h_some =>
    have h_words : ∀ word ∈ Chars.words isBlank (foldUnderscores (blankForeign text.toList)),
        word ≠ [] ∧ ∀ c ∈ word, inIdentifier c = true := by
      intro word h_word
      obtain ⟨h_piece, h_full⟩ := List.mem_filter.mp h_word
      refine ⟨by simpa using h_full, ?_⟩
      intro c h_mem
      obtain ⟨h_text, h_blank⟩ := of_mem_pieces h_piece c h_mem
      exact inIdentifier_of_not_isBlank (h_chars c h_text) h_blank
    refine ⟨?_, ?_⟩
    · obtain ⟨word, others, h_eq⟩ := List.exists_cons_of_ne_nil h_some
      rw [h_eq] at h_words ⊢
      have h_full := (h_words word List.mem_cons_self).1
      cases word with
      | nil => exact absurd rfl h_full
      | cons first word => simp [capitalize]
    · intro c h_mem
      rw [String.toList_ofList, List.mem_flatten] at h_mem
      obtain ⟨capital, h_capital, h_mem⟩ := h_mem
      obtain ⟨word, h_word, rfl⟩ := List.mem_map.mp h_capital
      exact inIdentifier_of_mem_capitalize (h_words word h_word).2 c h_mem

/-- What passes the test for identifiers is a word. -/
theorem isWord_of_isIdentifier {text : String} (h_text : isIdentifier text = true) :
    IsWord text := by
  unfold isIdentifier at h_text
  cases h_chars : text.toList with
  | nil =>
    rw [h_chars] at h_text
    cases h_text
  | cons first others =>
    rw [h_chars] at h_text
    obtain ⟨h_first, h_others⟩ := Bool.and_eq_true_iff.mp h_text
    refine ⟨by simp [h_chars], ?_⟩
    rw [h_chars, List.forall_mem_cons]
    refine ⟨?_, List.all_eq_true.mp h_others⟩
    -- what may begin an identifier may stand in it
    simp only [beginsIdentifier, Bool.or_eq_true] at h_first
    simp only [inIdentifier, Bool.or_eq_true, Char.isAlphanum]
    tauto

end OpenApiTs.Name
