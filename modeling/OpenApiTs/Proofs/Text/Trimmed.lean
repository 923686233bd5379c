/-
  OpenApiTs.Proofs.Text.Trimmed

  Texts without blanks at their ends. Trimming lines that are joined trims the last of them only,
  and the lines of trimmed texts that are joined are those of the one, then those of the others.
-/
import OpenApiTs.Proofs.Text.Lines

namespace OpenApiTs.Text

variable {text front last : List Char} {lines : List (List Char)} {c : Char}

namespace Chars

/-! ## Trimming -/

/-- A blank at the end is trimmed. -/
theorem trim_concat (h_c : isBlank c = true) (text : List Char) :
    trim (text ++ [c]) = trim text := by
  rw [trim, trim, List.dropWhile_append]
  -- all of the text is blank, or something in it stops the trimming at the front
  split
  · next h_all =>
    rw [List.isEmpty_iff.mp h_all, List.dropWhile_cons_of_pos h_c, List.dropWhile_nil]
  · rw [dropWhileEnd, List.reverse_append, List.reverse_singleton, List.singleton_append,
      List.dropWhile_cons_of_pos h_c]
    rfl

/-- What is kept at the end of a text has its last character. -/
theorem getLast?_dropWhileEnd {drop : Char → Bool}
    (h_last : (dropWhileEnd drop text).getLast? = some c) : drop c = false := by
  rw [dropWhileEnd, List.getLast?_reverse] at h_last
  have h_not := List.head?_dropWhile_not drop text.reverse
  rw [h_last] at h_not
  exact h_not

/-- A trimmed text does not end in a blank. -/
theorem isBlank_of_getLast?_trim (h_last : (trim text).getLast? = some c) : isBlank c = false :=
  getLast?_dropWhileEnd h_last

/-- Something is left of a text that is not all blank. -/
theorem trim_ne_nil (h_mem : c ∈ text) (h_c : isBlank c = false) : trim text ≠ [] := by
  obtain ⟨front, back, rfl⟩ := List.append_of_mem h_mem
  -- the character that is not blank survives the trimming at the front
  have h_kept : c ∈ (front ++ c :: back).dropWhile isBlank := by
    rw [List.dropWhile_append]
    split
    · rw [List.dropWhile_cons_of_neg (by simp [h_c])]
      exact List.mem_cons_self
    · exact List.mem_append_right _ List.mem_cons_self
  obtain ⟨lead, rest, h_split⟩ := List.append_of_mem h_kept
  rw [trim, h_split, dropWhileEnd_append_cons h_c]
  simp

/-- Dropping from the end does not reach over a part with something to keep. -/
theorem dropWhileEnd_append_of_mem {drop : Char → Bool} (h_mem : c ∈ last) (h_c : drop c = false)
    (front : List Char) : dropWhileEnd drop (front ++ last) = front ++ dropWhileEnd drop last := by
  obtain ⟨lead, back, rfl⟩ := List.append_of_mem h_mem
  rw [← List.append_assoc, dropWhileEnd_append_cons h_c, dropWhileEnd_append_cons h_c,
    List.append_assoc]

/-- A text that begins with no blank is trimmed at its end only. -/
theorem trim_of_head? (h_first : text.head? = some c) (h_c : isBlank c = false) :
    trim text = dropWhileEnd isBlank text := by
  obtain ⟨others, rfl⟩ := List.head?_eq_some_iff.mp h_first
  rw [trim, List.dropWhile_cons_of_neg (by simp [h_c])]

/-- Of lines that begin with no blank and end in a line that is not blank, the end of this one is
    trimmed. -/
theorem trim_intercalate {first other : Char}
    (h_first : (['\n'].intercalate (lines ++ [last])).head? = some first)
    (h_begins : isBlank first = false) (h_mem : other ∈ last) (h_other : isBlank other = false) :
    trim (['\n'].intercalate (lines ++ [last])) =
      ['\n'].intercalate (lines ++ [dropWhileEnd isBlank last]) := by
  rw [trim_of_head? h_first h_begins, intercalate_closed, intercalate_closed,
    List.intercalate_singleton, List.intercalate_singleton,
    dropWhileEnd_append_of_mem h_mem h_other]

end Chars

/-! ## Lines -/

/-- A carriage return at the end is dropped from what stands behind a text that ends in none. -/
theorem exists_dropReturn_append (h_front : front.getLast? ≠ some '\r') (back : List Char) :
    ∃ kept, dropReturn (front ++ back) = front ++ kept := by
  unfold dropReturn
  split
  · next h_last =>
    cases back with
    | nil => exact absurd (by rwa [List.append_nil] at h_last) h_front
    | cons c back =>
      exact ⟨_, List.dropLast_append_of_ne_nil (List.cons_ne_nil c back)⟩
  · exact ⟨back, rfl⟩

/-- A last stretch that is not empty is a line, though no line feed closes it. -/
theorem linesOfPieces_concat (h_last : last ≠ []) (lines : List (List Char)) :
    linesOfPieces (lines ++ [last]) = lines.map dropReturn ++ [last] := by
  induction lines with
  | nil => simp [linesOfPieces, h_last]
  | cons line lines ih =>
    obtain ⟨next, others, h_next⟩ := List.exists_cons_of_ne_nil
      (List.append_ne_nil_of_right_ne_nil lines (List.cons_ne_nil last []))
    rw [List.cons_append, h_next, linesOfPieces, ← h_next, ih, List.map_cons, List.cons_append]

/-- A text that does not end in a blank has its stretches between line feeds as lines. -/
theorem lines_of_getLast? {text : String} (h_last : text.toList.getLast? = some c)
    (h_c : isBlank c = false) :
    Text.lines text =
      (text.toList.splitOn '\n').map fun line => String.ofList (dropReturn line) := by
  obtain ⟨lines, last, h_split⟩ :=
    (List.eq_nil_or_concat' (text.toList.splitOn '\n')).resolve_left
      (List.splitOn_ne_nil '\n' text.toList)
  have h_text : text.toList = Chars.closed lines ++ last := by
    have h_joined := @List.intercalate_splitOn Char text.toList _ _ '\n'
    rw [h_split, Chars.intercalate_closed, List.intercalate_singleton] at h_joined
    exact h_joined.symm
  -- the last stretch is not empty, else a line feed would end the text
  have h_some : last ≠ [] := by
    rintro rfl
    rw [h_text, List.append_nil] at h_last
    rcases List.eq_nil_or_concat lines with rfl | ⟨init, line, rfl⟩
    · cases h_last
    · simp at h_last
      subst h_last
      exact absurd h_c (by decide)
  have h_end : last.getLast? = some c := by
    rw [h_text, List.getLast?_append_of_ne_nil _ h_some] at h_last
    exact h_last
  have h_kept : dropReturn last = last := by
    rw [dropReturn, h_end]
    split
    · next h_return =>
      rw [Option.some.inj h_return] at h_c
      exact absurd h_c (by decide)
    · rfl
  rw [Text.lines, Chars.pieces_eq_splitOn, h_split, linesOfPieces_concat h_some, List.map_append,
    List.map_append, List.map_map, List.map_singleton, List.map_singleton, h_kept]
  rfl

/-- Whether a text is not empty and does not end in a blank. -/
def EndsUnblank (text : String) : Prop :=
  ∃ c, text.toList.getLast? = some c ∧ isBlank c = false

/-- Joined texts end as the last of them does. -/
theorem endsUnblank_intercalate {texts : List String} (h_some : texts ≠ [])
    (h_texts : ∀ text ∈ texts, EndsUnblank text) : EndsUnblank ("\n".intercalate texts) := by
  -- the last text is set apart, since it is the one that the whole ends with
  rcases List.eq_nil_or_concat texts with rfl | ⟨front, text, rfl⟩
  · exact absurd rfl h_some
  · obtain ⟨c, h_last, h_c⟩ := h_texts text (by simp)
    have h_newline : "\n".toList = ['\n'] := rfl
    have h_ne : text.toList ≠ [] := by
      intro h_nil
      rw [h_nil] at h_last
      cases h_last
    refine ⟨c, ?_, h_c⟩
    rw [String.toList_intercalate, List.concat_eq_append, List.map_append, List.map_singleton,
      h_newline, Chars.intercalate_closed, List.intercalate_singleton,
      List.getLast?_append_of_ne_nil _ h_ne, h_last]

/-- Texts that do not end in blanks, joined by line feeds, are the lines of the one, then those of
    the others. -/
theorem lines_intercalate {texts : List String} (h_texts : ∀ text ∈ texts, EndsUnblank text) :
    Text.lines ("\n".intercalate texts) = texts.flatMap Text.lines := by
  by_cases h_some : texts = []
  · subst h_some
    decide
  · -- a text that ends in no blank has no line feed to lose at its end
    obtain ⟨c, h_last, h_c⟩ := endsUnblank_intercalate h_some h_texts
    have h_newline : "\n".toList = ['\n'] := rfl
    have h_chars : texts.map String.toList ≠ [] := by simpa using h_some
    rw [lines_of_getLast? h_last h_c, String.toList_intercalate, h_newline,
      Chars.splitOn_intercalate_flatMap h_chars, List.map_flatMap, List.flatMap_map]
    apply List.flatMap_congr
    intro text h_text
    obtain ⟨own, h_own, h_blank⟩ := h_texts text h_text
    rw [lines_of_getLast? h_own h_blank]

end OpenApiTs.Text
