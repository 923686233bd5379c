/-
  OpenApiTs.Proofs.Reference.Dotted

  Dotted names: where the one that a text opens with stops, and what its Pascal case is made of.
-/
import OpenApiTs.Proofs.Name.Stable
import OpenApiTs.Reference.Normal

namespace OpenApiTs

open OpenApiTs.Text

variable {text front back : List Char} {c : Char}

/-! ## Pascal case -/

namespace Name

/-- Whether a character is one of words or the blank between words. -/
def isWordOrBlank (c : Char) : Bool := isAsciiWord c || c == ' '

theorem isWordOrBlank_toUpper (h_either : isWordOrBlank c = true) :
    isWordOrBlank c.toUpper = true := by
  cases h_lower : c.isLower with
  | true =>
    have h_alpha := isAlpha_toUpper h_lower
    simp [isWordOrBlank, isAsciiWord, Char.isAlphanum, h_alpha]
  | false => rwa [toUpper_of_not_isLower h_lower]

/-- Word characters and the blank are of ASCII, so that each has one upper case. -/
theorem upperOf_of_isWordOrBlank (h_either : isWordOrBlank c = true) :
    Chars.upperOf c = [c.toUpper] := by
  have h_ascii : c.toNat < 128 := by
    rw [isWordOrBlank, isAsciiWord, Bool.or_eq_true, Bool.or_eq_true] at h_either
    rcases h_either with h_word | h_blank
    · have h_inside : inIdentifier c = true := by
        rcases h_word with h_alnum | h_line
        · simp [inIdentifier, h_alnum]
        · simp [inIdentifier, h_line]
      have h_code := toNat_of_inIdentifier h_inside
      omega
    · rw [beq_iff_eq.mp h_blank]
      decide
  rw [Chars.upperOf, if_pos h_ascii]

theorem trim_sublist (text : List Char) : (Chars.trim text).Sublist text := by
  have h_front := List.dropWhile_sublist (l := text) isBlank
  have h_back := List.dropWhile_sublist (l := (text.dropWhile isBlank).reverse) isBlank
  exact (List.reverse_sublist.mp (by simpa [Chars.trim, Chars.dropWhileEnd] using h_back)).trans
    h_front

theorem isLower_head?_flatten_capitalize (words : List (List Char)) :
    ∀ c ∈ (words.map capitalize).flatten.head?, c.isLower = false := by
  induction words with
  | nil => simp
  | cons word words ih =>
    cases word with
    | nil => exact ih
    | cons first word => exact isLower_head?_capitalize (first :: word)

theorem mem_capitalize_flatten {words : List (List Char)}
    (h_words : ∀ word ∈ words, ∀ c ∈ word, isWordOrBlank c = true) :
    ∀ c ∈ (words.map capitalize).flatten, isWordOrBlank c = true := by
  intro c h_mem
  obtain ⟨capital, h_capital, h_mem⟩ := List.mem_flatten.mp h_mem
  obtain ⟨word, h_word, rfl⟩ := List.mem_map.mp h_capital
  cases word with
  | nil => simp [capitalize] at h_mem
  | cons first word =>
    have h_inside := h_words _ h_word
    rw [List.forall_mem_cons] at h_inside
    rcases List.mem_cons.mp h_mem with rfl | h_mem
    · exact isWordOrBlank_toUpper h_inside.1
    · exact h_inside.2 c h_mem

theorem words_cons_ne_nil {sep : Char → Bool} (h_inside : sep c = false) :
    Chars.words sep (c :: text) ≠ [] := by
  rw [Chars.words, Chars.pieces, h_inside]
  simp only [Bool.false_eq_true, if_false]
  split <;> simp

/-- What Pascal case is made of, and that it does not open with a small letter. -/
theorem pascal_shape (h_text : ∀ c ∈ text, isWordOrBlank c = true) :
    (∀ c ∈ Chars.pascal text, isWordOrBlank c = true) ∧
      ∀ c ∈ (Chars.pascal text).head?, c.isLower = false := by
  have h_trim : ∀ c ∈ Chars.trim text, isWordOrBlank c = true :=
    fun c h_mem => h_text c ((trim_sublist text).subset h_mem)
  rw [Chars.pascal]
  split
  · next c h_one =>
    rw [h_one, List.forall_mem_singleton] at h_trim
    rw [upperOf_of_isWordOrBlank h_trim]
    refine ⟨?_, ?_⟩
    · exact List.forall_mem_singleton.mpr (isWordOrBlank_toUpper h_trim)
    · intro d h_head
      cases h_head
      exact isLower_toUpper c
  · split
    · next h_words =>
      refine ⟨h_trim, ?_⟩
      -- a letter in front would begin a word
      intro c h_head
      obtain ⟨rest, h_trimmed⟩ := List.head?_eq_some_iff.mp h_head
      rw [Bool.eq_false_iff]
      intro h_lower
      have h_letter : (!c.isAlphanum) = false := by
        simp [Char.isAlphanum, isAlpha_iff.mpr (.inr h_lower)]
      rw [h_trimmed] at h_words
      exact words_cons_ne_nil h_letter h_words
    · next words _ _ =>
      refine ⟨mem_capitalize_flatten ?_, isLower_head?_flatten_capitalize _⟩
      intro word h_word c h_mem
      have h_piece := (List.mem_filter.mp h_word).1
      exact h_trim c (of_mem_pieces h_piece c h_mem).1

/-- A dotted name is folded to characters of words and blanks, and the first is no small letter. -/
theorem ofDotted_shape (h_text : ∀ c ∈ text, isAsciiWord c = true ∨ c = '.') :
    (∀ c ∈ Chars.ofDotted text, isWordOrBlank c = true) ∧
      ∀ c ∈ (Chars.ofDotted text).head?, c.isLower = false := by
  apply pascal_shape
  intro c h_mem
  obtain ⟨own, h_own, rfl⟩ := List.mem_map.mp h_mem
  split
  · rfl
  · next h_point =>
    rw [isWordOrBlank, (h_text own h_own).resolve_right h_point, Bool.true_or]

theorem not_mem_ofDotted (h_text : ∀ c ∈ text, isAsciiWord c = true ∨ c = '.')
    (h_c : isWordOrBlank c = false) : c ∉ Chars.ofDotted text := by
  intro h_mem
  rw [(ofDotted_shape h_text).1 c h_mem] at h_c
  cases h_c

end Name

/-! ## Runs of words and points -/

namespace Reference

/-- A run goes on over a character of a word. -/
theorem takeDotted_cons_of_isAsciiWord (h_word : isAsciiWord c = true) :
    takeDotted (c :: text) = c :: takeDotted text := by
  cases text <;> simp [takeDotted, h_word]

theorem takeDotted_cons_of_not_isAsciiWord (h_word : isAsciiWord c = false) :
    takeDotted (c :: text) =
      if c = '.' ∧ text.head?.any isAsciiWord = true then c :: takeDotted text else [] := by
  rw [takeDotted.eq_def]
  cases text with
  | nil => simp [h_word]
  | cons d text =>
    by_cases h_point : c = '.' ∧ isAsciiWord d = true
    · simp [h_point]
    · simp [h_point, h_word]

/-- The dotted run is what a text begins with. -/
theorem prefix_takeDotted (text : List Char) : takeDotted text <+: text := by
  induction text with
  | nil => exact List.prefix_refl []
  | cons c text ih =>
    cases h_word : isAsciiWord c with
    | true =>
      rw [takeDotted_cons_of_isAsciiWord h_word]
      exact List.cons_prefix_cons.mpr ⟨rfl, ih⟩
    | false =>
      rw [takeDotted_cons_of_not_isAsciiWord h_word]
      split
      · exact List.cons_prefix_cons.mpr ⟨rfl, ih⟩
      · exact List.nil_prefix

theorem of_mem_takeDotted (h_mem : c ∈ takeDotted text) : isAsciiWord c = true ∨ c = '.' := by
  induction text with
  | nil => cases h_mem
  | cons first text ih =>
    cases h_word : isAsciiWord first with
    | true =>
      rw [takeDotted_cons_of_isAsciiWord h_word] at h_mem
      rcases List.mem_cons.mp h_mem with rfl | h_mem
      · exact .inl h_word
      · exact ih h_mem
    | false =>
      rw [takeDotted_cons_of_not_isAsciiWord h_word] at h_mem
      split at h_mem
      · next h_point =>
        rcases List.mem_cons.mp h_mem with rfl | h_mem
        · exact .inr h_point.1
        · exact ih h_mem
      · cases h_mem

/-- The run is as long as it can be. -/
theorem takeDotted_drop (text : List Char) :
    takeDotted (text.drop (takeDotted text).length) = [] := by
  induction text with
  | nil => rfl
  | cons c text ih =>
    cases h_word : isAsciiWord c with
    | true =>
      rw [takeDotted_cons_of_isAsciiWord h_word]
      exact ih
    | false =>
      by_cases h_point : c = '.' ∧ text.head?.any isAsciiWord = true
      · rw [takeDotted_cons_of_not_isAsciiWord h_word, if_pos h_point]
        exact ih
      · rw [takeDotted_cons_of_not_isAsciiWord h_word, if_neg h_point, List.length_nil,
          List.drop_zero, takeDotted_cons_of_not_isAsciiWord h_word, if_neg h_point]

theorem not_isAsciiWord_of_takeDotted_eq_nil (h_none : takeDotted text = []) :
    ∀ c ∈ text.head?, isAsciiWord c = false := by
  intro c h_head
  obtain ⟨rest, rfl⟩ := List.head?_eq_some_iff.mp h_head
  rw [Bool.eq_false_iff]
  intro h_word
  rw [takeDotted_cons_of_isAsciiWord h_word] at h_none
  cases h_none

/-- The length of a dotted name is read off the run. -/
theorem dottedLength_eq (text : List Char) :
    dottedLength text =
      if (takeDotted text).head?.any isAsciiWord = true ∧ '.' ∈ takeDotted text then
        (takeDotted text).length
      else 0 := by
  cases text with
  | nil => rfl
  | cons c text =>
    rw [dottedLength]
    cases h_word : isAsciiWord c with
    | true => simp [takeDotted_cons_of_isAsciiWord h_word, h_word]
    | false =>
      rw [takeDotted_cons_of_not_isAsciiWord h_word]
      split <;> simp [h_word]

/-- Texts that begin with one run have one length of it. -/
theorem dottedLength_congr (h_run : takeDotted front = takeDotted back) :
    dottedLength front = dottedLength back := by
  rw [dottedLength_eq, dottedLength_eq, h_run]

theorem dottedLength_eq_zero (h_point : '.' ∉ takeDotted text) : dottedLength text = 0 := by
  rw [dottedLength_eq, if_neg (fun h_both => h_point h_both.2)]

/-- A dotted name is the run that the text opens with, and it holds a point. -/
theorem of_dottedLength_pos (h_some : 0 < dottedLength text) :
    dottedLength text = (takeDotted text).length ∧ '.' ∈ takeDotted text ∧
      text.take (dottedLength text) = takeDotted text := by
  have h_both : (takeDotted text).head?.any isAsciiWord = true ∧ '.' ∈ takeDotted text := by
    by_contra h_not
    rw [dottedLength_eq, if_neg h_not] at h_some
    exact Nat.lt_irrefl 0 h_some
  have h_length : dottedLength text = (takeDotted text).length := by
    rw [dottedLength_eq, if_pos h_both]
  refine ⟨h_length, h_both.2, ?_⟩
  rw [h_length]
  exact (List.prefix_iff_eq_take.mp (prefix_takeDotted text)).symm

/-- No point comes into the run before a stretch without points, unless the rest brings one. -/
theorem not_mem_takeDotted_append (h_front : '.' ∉ front) (h_back : takeDotted back = []) :
    '.' ∉ takeDotted (front ++ back) := by
  induction front with
  | nil => simp [h_back]
  | cons c front ih =>
    rw [List.mem_cons, not_or] at h_front
    rw [List.cons_append]
    cases h_word : isAsciiWord c with
    | true =>
      rw [takeDotted_cons_of_isAsciiWord h_word, List.mem_cons, not_or]
      exact ⟨h_front.1, ih h_front.2⟩
    | false =>
      rw [takeDotted_cons_of_not_isAsciiWord h_word,
        if_neg (fun h_point => h_front.1 h_point.1.symm)]
      exact List.not_mem_nil

end Reference

end OpenApiTs
