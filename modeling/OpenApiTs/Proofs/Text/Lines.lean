/-
  OpenApiTs.Proofs.Text.Lines

  Texts as lists of lines. The stretches between line feeds are those of `List.splitOn`; a text that
  closes every line with a line feed has exactly these lines; and the blanks trimmed from the end of
  a text can only shorten its lines.
-/
import OpenApiTs.Text.Basic
import OpenApiTs.Text.Blank
import Mathlib.Data.List.Basic

namespace OpenApiTs.Text

variable {text front back rest lead : List Char} {lines others : List (List Char)}

theorem toList_append_append (front middle back : String) :
    (front ++ middle ++ back).toList = front.toList ++ (middle.toList ++ back.toList) := by
  rw [String.toList_append, String.toList_append, List.append_assoc]

/-! ## Stretches between separators -/

namespace Chars

/-- The pieces of a text are those of the standard library. -/
theorem pieces_eq_splitOn (sep : Char) (text : List Char) :
    pieces (· == sep) text = text.splitOn sep := by
  induction text with
  | nil => rfl
  | cons c text ih =>
    rw [pieces, List.splitOn_cons_eq_if_modifyHead, ih]
    -- a separator opens a new stretch; any other character goes to the first one
    by_cases h_sep : (c == sep) = true
    · rw [if_pos h_sep, if_pos h_sep]
    · rw [if_neg h_sep, if_neg h_sep]
      split
      · next h_none => exact absurd h_none (List.splitOn_ne_nil sep text)
      · next h_some => rw [h_some, List.modifyHead_cons]

/-- The separator is in no stretch. -/
theorem not_mem_of_mem_splitOn {sep : Char} {piece : List Char}
    (h_piece : piece ∈ text.splitOn sep) : sep ∉ piece := by
  induction text generalizing piece with
  | nil =>
    rw [List.splitOn_nil, List.mem_singleton] at h_piece
    rw [h_piece]
    exact List.not_mem_nil
  | cons c text ih =>
    rw [List.splitOn_cons_eq_if_modifyHead] at h_piece
    split at h_piece
    · rcases List.mem_cons.mp h_piece with rfl | h_piece
      · exact List.not_mem_nil
      · exact ih h_piece
    · next h_sep =>
      obtain ⟨first, others, h_split⟩ := List.exists_cons_of_ne_nil (List.splitOn_ne_nil sep text)
      rw [h_split, List.modifyHead_cons, List.mem_cons] at h_piece
      -- the first stretch has one more character, which is no separator
      rcases h_piece with rfl | h_piece
      · have h_first : sep ∉ first := ih (by rw [h_split]; exact List.mem_cons_self)
        simp only [beq_iff_eq] at h_sep
        intro h_mem
        exact (List.mem_cons.mp h_mem).elim (Ne.symm h_sep) h_first
      · exact ih (by rw [h_split]; exact List.mem_cons_of_mem _ h_piece)

/-- Joining texts with a separator puts their stretches one after the other. -/
theorem splitOn_intercalate_flatMap {sep : Char} {texts : List (List Char)} (h_some : texts ≠ []) :
    ([sep].intercalate texts).splitOn sep = texts.flatMap (List.splitOn sep) := by
  induction texts with
  | nil => exact absurd rfl h_some
  | cons text texts ih =>
    rw [List.flatMap_cons]
    by_cases h_last : texts = []
    · subst h_last
      rw [List.intercalate_singleton, List.flatMap_nil, List.append_nil]
    · rw [List.intercalate_cons_of_ne_nil h_last, List.append_assoc, List.singleton_append,
        List.splitOn_append_cons_self, ih h_last]

/-- The stretches of the beginning of a text are beginnings of its own, in the same places. -/
theorem splitOn_prefix (sep : Char) (front back : List Char) :
    ∃ shared more, (front ++ back).splitOn sep = shared ++ more ∧
      List.Forall₂ (· <+: ·) (front.splitOn sep) shared := by
  induction front with
  | nil =>
    obtain ⟨first, more, h_split⟩ := List.exists_cons_of_ne_nil (List.splitOn_ne_nil sep back)
    refine ⟨[first], more, by simpa using h_split, ?_⟩
    rw [List.splitOn_nil]
    exact .cons (List.nil_prefix) .nil
  | cons c front ih =>
    obtain ⟨shared, more, h_split, h_shared⟩ := ih
    rw [List.cons_append, List.splitOn_cons_eq_if_modifyHead,
      List.splitOn_cons_eq_if_modifyHead, h_split]
    by_cases h_sep : (c == sep) = true
    · rw [if_pos h_sep, if_pos h_sep]
      exact ⟨[] :: shared, more, rfl, .cons (List.prefix_refl []) h_shared⟩
    · rw [if_neg h_sep, if_neg h_sep]
      obtain ⟨first, others, h_front⟩ := List.exists_cons_of_ne_nil (List.splitOn_ne_nil sep front)
      rw [h_front] at h_shared ⊢
      -- the character goes to the first stretch on both sides
      cases h_shared with
      | @cons _ whole _ wholes h_first h_others =>
        exact ⟨(c :: whole) :: wholes, more, rfl,
          .cons ((List.prefix_cons_inj c).mpr h_first) h_others⟩

/-! ## Closed lines -/

/-- The text of lines, each closed by a line feed. -/
def closed (lines : List (List Char)) : List Char := lines.flatMap (· ++ ['\n'])

@[simp] theorem closed_nil : closed [] = [] := rfl

@[simp] theorem closed_cons (line : List Char) (lines : List (List Char)) :
    closed (line :: lines) = line ++ '\n' :: closed lines := by
  simp [closed]

@[simp] theorem closed_append (lines others : List (List Char)) :
    closed (lines ++ others) = closed lines ++ closed others := by
  simp [closed]

/-- A text after closed lines has their stretches before its own. -/
theorem splitOn_closed_append (h_lines : ∀ line ∈ lines, '\n' ∉ line) (rest : List Char) :
    (closed lines ++ rest).splitOn '\n' = lines ++ rest.splitOn '\n' := by
  induction lines with
  | nil => rfl
  | cons line lines ih =>
    rw [List.forall_mem_cons] at h_lines
    rw [closed_cons, List.append_assoc, List.cons_append, List.splitOn_append_cons_self,
      List.splitOn_eq_singleton h_lines.1, ih h_lines.2]
    rfl

/-- Lines that are joined with line feeds, and one more behind the last, are closed lines. -/
theorem intercalate_append_line (h_lines : lines ≠ []) :
    ['\n'].intercalate lines ++ ['\n'] = closed lines := by
  induction lines with
  | nil => exact absurd rfl h_lines
  | cons line lines ih =>
    by_cases h_last : lines = []
    · simp [h_last]
    · rw [List.intercalate_cons_of_ne_nil h_last, List.append_assoc, ih h_last, closed_cons]
      simp

/-! ## Blanks at the ends -/

/-- Nothing before a character that is kept is dropped from the end. -/
theorem dropWhileEnd_append_cons {drop : Char → Bool} {c : Char} (h_keep : drop c = false)
    (front back : List Char) :
    dropWhileEnd drop (front ++ c :: back) = front ++ c :: dropWhileEnd drop back := by
  simp only [dropWhileEnd, List.reverse_append, List.reverse_cons, List.append_assoc]
  rw [List.dropWhile_append]
  -- whether the back is dropped as a whole or not, the character stops it
  split
  · next h_all =>
    rw [List.isEmpty_iff] at h_all
    simp [h_all, h_keep]
  · simp

/-- Dropping from the end leaves a beginning. -/
theorem dropWhileEnd_prefix (drop : Char → Bool) (text : List Char) :
    dropWhileEnd drop text <+: text := by
  have h_suffix := List.reverse_prefix.mpr (List.dropWhile_suffix drop (l := text.reverse))
  rwa [List.reverse_reverse] at h_suffix

/-- Trimming keeps what begins and ends with characters that are no blanks. -/
theorem trim_append {first last : Char} (h_first : front.head? = some first)
    (h_last : front.getLast? = some last) (h_begins : isBlank first = false)
    (h_ends : isBlank last = false) (back : List Char) :
    trim (front ++ back) = front ++ dropWhileEnd isBlank back := by
  obtain ⟨others, rfl⟩ := List.head?_eq_some_iff.mp h_first
  obtain ⟨init, h_init⟩ := List.getLast?_eq_some_iff.mp h_last
  rw [trim, List.cons_append, List.dropWhile_cons_of_neg (by simp [h_begins]),
    ← List.cons_append, h_init, List.append_assoc, List.singleton_append,
    dropWhileEnd_append_cons h_ends, List.append_assoc, List.singleton_append]

/-- Of lines that are joined, all but the last are closed. -/
theorem intercalate_closed (lines : List (List Char)) (line : List Char)
    (others : List (List Char)) :
    ['\n'].intercalate (lines ++ line :: others) =
      closed lines ++ ['\n'].intercalate (line :: others) := by
  induction lines with
  | nil => rfl
  | cons first lines ih =>
    have h_some : lines ++ line :: others ≠ [] := by simp
    rw [List.cons_append, List.intercalate_cons_of_ne_nil h_some, ih, closed_cons]
    simp

end Chars

/-! ## Lines -/

/-- Closed lines end in an empty stretch, which is no line. -/
theorem linesOfPieces_closed (lines : List (List Char)) :
    linesOfPieces (lines ++ [[]]) = lines.map dropReturn := by
  induction lines with
  | nil => rfl
  | cons line lines ih =>
    -- the line is not the last stretch, so it counts as a line
    obtain ⟨next, others, h_next⟩ : ∃ next others, lines ++ [[]] = next :: others := by
      cases lines with
      | nil => exact ⟨[], [], rfl⟩
      | cons next others => exact ⟨next, others ++ [[]], rfl⟩
    rw [List.cons_append, h_next, linesOfPieces, ← h_next, ih, List.map_cons]

/-- A text of closed lines has these lines, carriage returns at their ends left out. -/
theorem lines_closed (h_lines : ∀ line ∈ lines, '\n' ∉ line) :
    Text.lines (String.ofList (Chars.closed lines)) =
      lines.map fun line => String.ofList (dropReturn line) := by
  -- after the last line feed there is one more stretch, which is empty
  have h_split := Chars.splitOn_closed_append h_lines []
  rw [List.append_nil, List.splitOn_nil] at h_split
  rw [Text.lines, String.toList_ofList, Chars.pieces_eq_splitOn, h_split, linesOfPieces_closed,
    List.map_map]
  rfl

theorem dropReturn_prefix (line : List Char) : dropReturn line <+: line := by
  unfold dropReturn
  split
  · exact List.dropLast_prefix line
  · exact List.prefix_refl line

/-- A carriage return at the end is dropped from what stands after a character that is none. -/
theorem dropReturn_append (front : List Char) {c : Char} (h_c : c ≠ '\r') (back : List Char) :
    dropReturn (front ++ c :: back) = front ++ c :: dropReturn back := by
  -- the last character is that of the back, or `c` when the back is empty
  unfold dropReturn
  cases h_back : back.getLast? with
  | none =>
    rw [List.getLast?_eq_none_iff.mp h_back]
    have h_last : (front ++ [c]).getLast? = some c := by simp
    rw [h_last]
    split
    · next h_eq => exact absurd (Option.some.inj h_eq) h_c
    · rfl
  | some last =>
    have h_ne : back ≠ [] := by
      rintro rfl
      simp at h_back
    have h_last : (front ++ c :: back).getLast? = some last := by
      rw [← h_back, List.getLast?_append_of_ne_nil _ (List.cons_ne_nil c back),
        List.getLast?_cons_of_ne_nil h_ne]
    rw [h_last]
    by_cases h_return : last = '\r'
    · subst h_return
      simp [List.dropLast_append_of_ne_nil, List.dropLast_cons_of_ne_nil h_ne]
    · simp [h_return]

end OpenApiTs.Text
