/-
  OpenApiTs.Proofs.Output.Names

  The names that a text of declarations exports, read off its lines, and the one name that the text
  of a single declaration exports once its ends are trimmed.
-/
import OpenApiTs.Proofs.Name.Identifier
import OpenApiTs.Proofs.Outcome
import OpenApiTs.Proofs.TypeScript.Lines

namespace OpenApiTs.Output

open OpenApiTs.TypeScript
open OpenApiTs.Text.Chars (closed after?)

variable {line front rest : List Char} {lines tail : List (List Char)} {name : String} {form : Form}

/-! ## Exported names -/

/-- How the line of a declaration begins. -/
def exportKeyword : Form → List Char
  | .interface => "export interface ".toList
  | .alias => "export type ".toList

/-- The word that a text begins with. -/
def leadingWord (text : List Char) : String := String.ofList (text.takeWhile Name.inIdentifier)

/-- The name that a line exports, if it declares one. -/
def exportedName? (line : List Char) : Option String :=
  match after? (exportKeyword .interface) line with
  | some rest => some (leadingWord rest)
  | none => (after? (exportKeyword .alias) line).map leadingWord

/-- The names that a text exports, in order. -/
def exportedNames (text : String) : List String :=
  (Text.Chars.pieces (· == '\n') text.toList).filterMap exportedName?

/-! ## Lines -/

theorem exportedName?_of_silent (h_silent : ¬ exportOpening <+: line) :
    exportedName? line = none := by
  -- both keywords begin with the export, which the line does not
  have h_none (form : Form) : after? (exportKeyword form) line = none := by
    rw [Option.eq_none_iff_forall_not_mem]
    intro rest h_rest
    rw [Option.mem_def, Text.Chars.after?_eq_some_iff] at h_rest
    apply h_silent
    rw [h_rest]
    match form with
    | .interface => exact ⟨"interface ".toList ++ rest, rfl⟩
    | .alias => exact ⟨"type ".toList ++ rest, rfl⟩
  rw [exportedName?, h_none, h_none]
  rfl

theorem filterMap_exportedName?_of_silent (h_silent : ∀ line ∈ lines, ¬ exportOpening <+: line) :
    lines.filterMap exportedName? = [] := by
  rw [List.filterMap_eq_nil_iff]
  intro line h_line
  exact exportedName?_of_silent (h_silent line h_line)

/-- A word ends where a character stands that is in no word. -/
theorem leadingWord_append (h_word : Name.IsWord name)
    (h_rest : rest = [] ∨ ∃ more, rest = ' ' :: more) :
    leadingWord (name.toList ++ rest) = name := by
  rw [leadingWord, List.takeWhile_append_of_pos h_word.inside]
  have h_none : rest.takeWhile Name.inIdentifier = [] := by
    rcases h_rest with rfl | ⟨more, rfl⟩
    · rfl
    · rw [List.takeWhile_cons_of_neg (by decide)]
  rw [h_none, List.append_nil, String.ofList_toList]

/-- A line with a head exports the name in it. -/
theorem exportedName?_head (h_word : Name.IsWord name)
    (h_rest : rest = [] ∨ ∃ more, rest = ' ' :: more) :
    exportedName? (exportKeyword form ++ (name.toList ++ rest)) = some name := by
  have h_after : after? (exportKeyword form) (exportKeyword form ++ (name.toList ++ rest)) =
      some (name.toList ++ rest) := Text.Chars.after?_eq_some_iff.mpr rfl
  match form with
  | .interface =>
    simp only [exportedName?, h_after]
    rw [leadingWord_append h_word h_rest]
  | .alias =>
    have h_other : after? (exportKeyword .interface)
        (exportKeyword .alias ++ (name.toList ++ rest)) = none := rfl
    simp only [exportedName?, h_other, h_after, Option.map_some]
    rw [leadingWord_append h_word h_rest]

/-! ## Texts -/

/-- The exported names are read line by line. -/
theorem exportedNames_eq (text : String) :
    exportedNames text = (text.toList.splitOn '\n').filterMap exportedName? := by
  rw [exportedNames, Text.Chars.pieces_eq_splitOn]

/-- Texts joined by line feeds export their names one after the other. -/
theorem exportedNames_intercalate (texts : List String) :
    exportedNames ("\n".intercalate texts) = texts.flatMap exportedNames := by
  by_cases h_some : texts = []
  · subst h_some
    decide
  · have h_chars : texts.map String.toList ≠ [] := by simpa using h_some
    have h_split := @Text.Chars.splitOn_intercalate_flatMap '\n' _ h_chars
    have h_line : "\n".toList = ['\n'] := rfl
    rw [exportedNames_eq, String.toList_intercalate, h_line, h_split, List.filterMap_flatMap,
      List.flatMap_map]
    congr 1
    funext text
    rw [exportedNames_eq]

/-- What stands before the first line feed of a text is put before its first stretch. -/
theorem splitOn_append_of_not_mem (h_front : '\n' ∉ front) (rest : List Char) :
    (front ++ rest).splitOn '\n' = (rest.splitOn '\n').modifyHead (front ++ ·) := by
  induction front with
  | nil =>
    obtain ⟨first, others, h_rest⟩ := List.exists_cons_of_ne_nil (List.splitOn_ne_nil '\n' rest)
    rw [List.nil_append, h_rest, List.modifyHead_cons, List.nil_append]
  | cons c front ih =>
    rw [List.mem_cons, not_or] at h_front
    rw [List.cons_append, List.splitOn_cons_eq_if_modifyHead,
      if_neg (by simpa using Ne.symm h_front.1), ih h_front.2, List.modifyHead_modifyHead]
    rfl

/-- What is left of silent lines when the end of a text is dropped is silent. -/
theorem silent_of_prefix {text whole : List Char} (h_grown : text <+: whole)
    (h_silent : ∀ line ∈ (whole.splitOn '\n').tail, ¬ exportOpening <+: line) :
    ∀ line ∈ (text.splitOn '\n').tail, ¬ exportOpening <+: line := by
  obtain ⟨back, rfl⟩ := h_grown
  obtain ⟨shared, more, h_split, h_shared⟩ := Text.Chars.splitOn_prefix '\n' text back
  obtain ⟨first, others, h_text⟩ := List.exists_cons_of_ne_nil (List.splitOn_ne_nil '\n' text)
  intro line h_line h_opening
  rw [h_split] at h_silent
  rw [h_text] at h_shared h_line
  cases h_shared with
  | cons h_first h_others =>
    obtain ⟨whole, h_whole, h_shorter⟩ := Outcome.exists_partner h_others h_line
    exact h_silent whole (List.mem_append_left _ h_whole) (h_opening.trans h_shorter)

/-! ## Trimmed declarations -/

theorem newline_not_mem_exportKeyword (form : Form) : '\n' ∉ exportKeyword form := by
  match form with
  | .interface => decide
  | .alias => decide

theorem exists_exportKeyword (form : Form) :
    ∃ rest, exportKeyword form = 'e' :: rest ∧ exportOpening <+: exportKeyword form := by
  match form with
  | .interface => exact ⟨_, rfl, by decide⟩
  | .alias => exact ⟨_, rfl, by decide⟩

/-- Whether a line stands on one line and exports nothing. -/
abbrev AllInner (lines : List (List Char)) : Prop := ∀ line ∈ lines, IsInner line

/-- The stretches of a text that begins like a declaration: the first exports the name, the others
    are those of what follows. -/
theorem exportedNames_of_start (h_word : Name.IsWord name)
    (h_rest : rest = [] ∨ ∃ more, rest = ' ' :: more)
    (h_silent : ∀ line ∈ ((exportKeyword form ++ (name.toList ++ rest)).splitOn '\n').tail,
      ¬ exportOpening <+: line) :
    ((exportKeyword form ++ (name.toList ++ rest)).splitOn '\n').filterMap exportedName? =
      [name] := by
  have h_start : '\n' ∉ exportKeyword form ++ name.toList := by
    have h_name := h_word.not_mem (c := '\n') (by decide)
    simp [newline_not_mem_exportKeyword form, h_name]
  obtain ⟨first, others, h_split⟩ := List.exists_cons_of_ne_nil (List.splitOn_ne_nil '\n' rest)
  have h_whole : (exportKeyword form ++ (name.toList ++ rest)).splitOn '\n' =
      (exportKeyword form ++ (name.toList ++ first)) :: others := by
    rw [← List.append_assoc, splitOn_append_of_not_mem h_start, h_split, List.modifyHead_cons,
      List.append_assoc]
  -- the name ends where the line does, or at a blank
  have h_first : first = [] ∨ ∃ more, first = ' ' :: more := by
    rcases h_rest with rfl | ⟨more, rfl⟩
    · rw [List.splitOn_nil] at h_split
      exact .inl (List.cons.inj h_split).1.symm
    · obtain ⟨word, words, h_more⟩ := List.exists_cons_of_ne_nil (List.splitOn_ne_nil '\n' more)
      rw [← List.singleton_append, splitOn_append_of_not_mem (by decide), h_more,
        List.modifyHead_cons] at h_split
      exact .inr ⟨word, (List.cons.inj h_split).1.symm⟩
  rw [h_whole, List.tail_cons] at h_silent
  rw [h_whole, List.filterMap_cons_some (exportedName?_head h_word h_first),
    filterMap_exportedName?_of_silent h_silent]

/-- What stands after the name of a declaration is one text, however many lines it has. -/
theorem exists_afterName (form : Form) (name : String) (more : List Char)
    (below : List (List Char)) :
    ∃ back, ['\n'].intercalate ((exportKeyword form ++ (name.toList ++ ' ' :: more)) :: below) =
      exportKeyword form ++ (name.toList ++ ' ' :: back) := by
  by_cases h_none : below = []
  · exact ⟨more, by rw [h_none, List.intercalate_singleton]⟩
  · refine ⟨more ++ '\n' :: ['\n'].intercalate below, ?_⟩
    rw [List.intercalate_cons_of_ne_nil h_none]
    simp

/-- Up to its name a declaration has no blanks at its ends, with or without a comment above it. -/
theorem exists_ends {comment : List (List Char)} (form : Form) (h_word : Name.IsWord name)
    (h_comment : comment = [] ∨ ∃ line others, comment = ('/' :: line) :: others) :
    ∃ first last, (closed comment ++ (exportKeyword form ++ name.toList)).head? = some first ∧
      (closed comment ++ (exportKeyword form ++ name.toList)).getLast? = some last ∧
      Text.isBlank first = false ∧ Text.isBlank last = false := by
  obtain ⟨keyword, h_keyword, -⟩ := exists_exportKeyword form
  have h_last : (closed comment ++ (exportKeyword form ++ name.toList)).getLast? =
      some (name.toList.getLast h_word.ne_nil) := by
    rw [← List.append_assoc, List.getLast?_append_of_ne_nil _ h_word.ne_nil,
      List.getLast?_eq_getLast_of_ne_nil]
  have h_last_blank : Text.isBlank (name.toList.getLast h_word.ne_nil) = false :=
    Name.isBlank_of_inIdentifier (h_word.inside _ (List.getLast_mem h_word.ne_nil))
  -- the text begins with the comment, or else with the keyword
  rcases h_comment with rfl | ⟨line, others, rfl⟩
  · exact ⟨'e', _, by simp [h_keyword], h_last, by decide, h_last_blank⟩
  · exact ⟨'/', _, by simp, h_last, by decide, h_last_blank⟩

/-- A declaration exports its name and no other once its ends are trimmed: what the trimming drops
    stands after the name. -/
theorem exportedNames_trim {comment below : List (List Char)} {more : List Char}
    (h_word : Name.IsWord name)
    (h_comment : comment = [] ∨ ∃ line others, comment = ('/' :: line) :: others)
    (h_above : AllInner comment) (h_below : AllInner below) (h_more : '\n' ∉ more) :
    exportedNames (String.ofList (Text.Chars.trim (['\n'].intercalate (comment ++
      (exportKeyword form ++ (name.toList ++ ' ' :: more)) :: below)))) = [name] := by
  obtain ⟨back, h_body⟩ := exists_afterName form name more below
  have h_text : ['\n'].intercalate
        (comment ++ (exportKeyword form ++ (name.toList ++ ' ' :: more)) :: below) =
      closed comment ++ (exportKeyword form ++ name.toList) ++ ' ' :: back := by
    rw [Text.Chars.intercalate_closed, h_body]
    simp
  -- the trimming keeps everything up to the name and drops some of the end
  obtain ⟨first, last, h_first, h_last, h_first_blank, h_last_blank⟩ :=
    exists_ends form h_word h_comment
  rw [h_text, Text.Chars.trim_append h_first h_last h_first_blank h_last_blank]
  have h_shorter := Text.Chars.dropWhileEnd_prefix Text.isBlank (' ' :: back)
  generalize Text.Chars.dropWhileEnd Text.isBlank (' ' :: back) = rest at h_shorter ⊢
  have h_rest : rest = [] ∨ ∃ more, rest = ' ' :: more := by
    cases rest with
    | nil => exact .inl rfl
    | cons c others => exact .inr ⟨others, by rw [(List.cons_prefix_cons.mp h_shorter).1]⟩
  -- the lines of the comment export nothing, and neither do those below the name
  rw [exportedNames_eq, String.toList_ofList, List.append_assoc, List.append_assoc,
    Text.Chars.splitOn_closed_append (fun line h_line => (h_above line h_line).unbroken),
    List.filterMap_append,
    filterMap_exportedName?_of_silent (fun line h_line => (h_above line h_line).silent),
    List.nil_append]
  refine exportedNames_of_start h_word h_rest ?_
  have h_whole : exportKeyword form ++ (name.toList ++ rest) <+:
      exportKeyword form ++ (name.toList ++ ' ' :: back) :=
    (List.prefix_append_right_inj _).mpr ((List.prefix_append_right_inj _).mpr h_shorter)
  refine silent_of_prefix h_whole ?_
  have h_name : '\n' ∉ name.toList := h_word.not_mem (by decide)
  have h_head : '\n' ∉ exportKeyword form ++ (name.toList ++ ' ' :: more) := by
    simp [newline_not_mem_exportKeyword form, h_name, h_more]
  rw [← h_body, List.splitOn_intercalate '\n' ?_ (List.cons_ne_nil _ below)]
  · exact fun line h_line => (h_below line h_line).silent
  · rw [List.forall_mem_cons]
    exact ⟨h_head, fun line h_line => (h_below line h_line).unbroken⟩

end OpenApiTs.Output
