/-
  OpenApiTs.Proofs.Output.Declaring

  What it is for a text to declare a type: one of its lines begins as the declaration does. A text
  keeps what it declares when it is written at the start of a line of another one.
-/
import OpenApiTs.Proofs.Output.Declarations
import Mathlib.Data.List.TakeWhile

namespace OpenApiTs.Output

open OpenApiTs.Text.Chars (closed closed_append closed_cons closed_nil)
open OpenApiTs.TypeScript

variable {front back line rest blanks : List Char} {lines : List (List Char)} {name text : String}
  {form : Form}

/-! ## Declared types -/

/-- Whether a line, blanks before it left aside, begins as a declaration of a type does. -/
def beginsDeclaration (name : String) (line : List Char) : Bool :=
  [Form.interface, .alias].any fun form =>
    (Declaration.head form name).toList.isPrefixOf (line.dropWhile (· == ' '))

/-- Whether one of the lines of a text begins as a declaration of a type does. -/
def declares (name text : String) : Bool :=
  (Text.Chars.pieces (· == '\n') text.toList).any (beginsDeclaration name)

example : declares "Body" "/** A pet. */\nexport type Body = Types.Pet" = true := by decide

/-- Whether a text ends at the start of a line, or behind blanks at the start of one. -/
def AtStart (front : List Char) : Prop :=
  ∃ blanks, (∀ c ∈ blanks, c = ' ') ∧ (front = blanks ∨ ∃ before, front = before ++ '\n' :: blanks)

theorem atStart_nil : AtStart [] := ⟨[], List.forall_mem_nil _, .inl rfl⟩

theorem atStart_indent (before : List Char) (h_blanks : ∀ c ∈ blanks, c = ' ') :
    AtStart (before ++ '\n' :: blanks) :=
  ⟨blanks, h_blanks, .inr ⟨before, rfl⟩⟩

theorem atStart_line (before : List Char) : AtStart (before ++ ['\n']) :=
  atStart_indent before (List.forall_mem_nil _)

/-- The start of a line is one whatever stands in front. -/
theorem AtStart.append (h_front : AtStart front) (h_back : AtStart back) :
    AtStart (front ++ back) := by
  obtain ⟨blanks, h_blanks, h_front⟩ := h_front
  -- blanks alone go on with the line in front, otherwise they begin a new one
  obtain ⟨blanks', h_blanks', rfl | ⟨before', rfl⟩⟩ := h_back
  · refine ⟨blanks ++ back, List.forall_mem_append.mpr ⟨h_blanks, h_blanks'⟩, ?_⟩
    rcases h_front with rfl | ⟨before, rfl⟩
    · exact .inl rfl
    · exact .inr ⟨before, by simp⟩
  · exact ⟨blanks', h_blanks', .inr ⟨front ++ before', by simp⟩⟩

theorem atStart_closed (lines : List (List Char)) : AtStart (closed lines) := by
  rcases List.eq_nil_or_concat lines with rfl | ⟨others, line, rfl⟩
  · exact atStart_nil
  · rw [List.concat_eq_append, closed_append, closed_cons, closed_nil, ← List.append_assoc]
    exact atStart_line _

/-! ## Where declarations stand -/

theorem exists_cons_head (form : Form) (name : String) :
    ∃ more, (Declaration.head form name).toList = 'e' :: more := by
  obtain ⟨rest, h_keyword, -⟩ := exists_exportKeyword form
  rw [head_eq, h_keyword]
  exact ⟨_, rfl⟩

theorem newline_not_mem_head (h_name : '\n' ∉ name.toList) (form : Form) :
    '\n' ∉ (Declaration.head form name).toList := by
  have h_after : '\n' ∉ afterName form := by cases form <;> decide
  rw [head_eq]
  simp [newline_not_mem_exportKeyword form, h_name, h_after]

/-- A line begins a declaration when a head with its name comes first behind the blanks. -/
theorem beginsDeclaration_iff : beginsDeclaration name line = true ↔
    ∃ blanks form rest, (∀ c ∈ blanks, c = ' ') ∧
      line = blanks ++ ((Declaration.head form name).toList ++ rest) := by
  rw [beginsDeclaration, List.any_eq_true]
  constructor
  · rintro ⟨form, -, h_opens⟩
    obtain ⟨rest, h_rest⟩ := List.isPrefixOf_iff_prefix.mp h_opens
    refine ⟨line.takeWhile (· == ' '), form, rest, ?_, ?_⟩
    · intro c h_c
      have h_blank := List.mem_takeWhile_imp h_c
      exact beq_iff_eq.mp h_blank
    · rw [h_rest, List.takeWhile_append_dropWhile]
  · rintro ⟨blanks, form, rest, h_blanks, rfl⟩
    refine ⟨form, by cases form <;> simp, ?_⟩
    obtain ⟨more, h_head⟩ := exists_cons_head form name
    have h_all : ∀ c ∈ blanks, (c == ' ') = true := fun c h_c => beq_iff_eq.mpr (h_blanks c h_c)
    -- the head begins with a letter, so no blank of it is dropped
    rw [List.isPrefixOf_iff_prefix, List.dropWhile_append_of_pos h_all, h_head, List.cons_append,
      List.dropWhile_cons_of_neg (by decide), ← List.cons_append]
    exact List.prefix_append _ _

/-- Every line of a text stands at the start of one. -/
theorem exists_of_mem_splitOn {text : List Char} (h_line : line ∈ text.splitOn '\n') :
    ∃ front back, text = front ++ (line ++ back) ∧ AtStart front := by
  obtain ⟨lines, others, h_split⟩ := List.append_of_mem h_line
  have h_text : ['\n'].intercalate (text.splitOn '\n') = text := List.intercalate_splitOn '\n'
  rw [h_split, Text.Chars.intercalate_closed] at h_text
  obtain ⟨back, h_back⟩ : ∃ back, ['\n'].intercalate (line :: others) = line ++ back := by
    cases others with
    | nil => exact ⟨[], by rw [List.intercalate_singleton, List.append_nil]⟩
    | cons next others =>
      rw [List.intercalate_cons_of_ne_nil (List.cons_ne_nil next others), List.append_assoc]
      exact ⟨_, rfl⟩
  exact ⟨closed lines, back, by rw [← h_text, h_back], atStart_closed lines⟩

/-- What stands at the start of a line begins one of the lines of the text, up to blanks. -/
theorem mem_splitOn_of_atStart {text : List Char} (h_line : '\n' ∉ line) (h_front : AtStart front)
    (h_text : text = front ++ (line ++ rest)) :
    ∃ blanks more, (∀ c ∈ blanks, c = ' ') ∧ blanks ++ (line ++ more) ∈ text.splitOn '\n' := by
  obtain ⟨blanks, h_blanks, h_front⟩ := h_front
  obtain ⟨first, others, h_rest⟩ := List.exists_cons_of_ne_nil (List.splitOn_ne_nil '\n' rest)
  have h_flat : '\n' ∉ blanks ++ line := by
    rw [List.mem_append, not_or]
    exact ⟨fun h_mem => absurd (h_blanks _ h_mem) (by decide), h_line⟩
  have h_tail : blanks ++ (line ++ first) ∈ (blanks ++ (line ++ rest)).splitOn '\n' := by
    rw [← List.append_assoc blanks line rest, splitOn_append_of_not_mem h_flat, h_rest,
      List.modifyHead_cons, List.append_assoc]
    exact List.mem_cons_self
  refine ⟨blanks, first, h_blanks, ?_⟩
  -- the first line of the text, or one behind a line feed
  rcases h_front with rfl | ⟨before, rfl⟩
  · rwa [h_text]
  · rw [h_text, List.append_assoc, List.cons_append, List.splitOn_append_cons_self]
    exact List.mem_append_right _ h_tail

/-- A text declares what it has the head of a declaration for at the start of a line. -/
theorem declares_iff (h_name : '\n' ∉ name.toList) : declares name text = true ↔
    ∃ front form rest, text.toList = front ++ ((Declaration.head form name).toList ++ rest) ∧
      AtStart front := by
  rw [declares, Text.Chars.pieces_eq_splitOn, List.any_eq_true]
  constructor
  · rintro ⟨line, h_line, h_begins⟩
    obtain ⟨blanks, form, rest, h_blanks, rfl⟩ := beginsDeclaration_iff.mp h_begins
    obtain ⟨front, back, h_text, h_front⟩ := exists_of_mem_splitOn h_line
    refine ⟨front ++ blanks, form, rest ++ back, by rw [h_text]; simp, ?_⟩
    exact h_front.append ⟨blanks, h_blanks, .inl rfl⟩
  · rintro ⟨front, form, rest, h_text, h_front⟩
    obtain ⟨blanks, more, h_blanks, h_mem⟩ :=
      mem_splitOn_of_atStart (newline_not_mem_head h_name form) h_front h_text
    exact ⟨_, h_mem, beginsDeclaration_iff.mpr ⟨blanks, form, more, h_blanks, rfl⟩⟩

/-- A text goes on declaring a name when more is written behind it. -/
theorem declares_append_left (h_name : '\n' ∉ name.toList) (h_text : declares name text = true)
    (after : String) : declares name (text ++ after) = true := by
  obtain ⟨front, form, rest, h_text, h_front⟩ := (declares_iff h_name).mp h_text
  refine (declares_iff h_name).mpr ⟨front, form, rest ++ after.toList, ?_, h_front⟩
  rw [String.toList_append, h_text, List.append_assoc, List.append_assoc]

/-- What a text declares is declared where it is written at the start of a line. -/
theorem declares_append_right {before : String} (h_name : '\n' ∉ name.toList)
    (h_before : AtStart before.toList) (h_text : declares name text = true) :
    declares name (before ++ text) = true := by
  obtain ⟨front, form, rest, h_text, h_front⟩ := (declares_iff h_name).mp h_text
  refine (declares_iff h_name).mpr
    ⟨before.toList ++ front, form, rest, ?_, h_before.append h_front⟩
  rw [String.toList_append, h_text, List.append_assoc]

theorem exists_of_mem_intercalate {texts : List (List Char)} (h_blanks : ∀ c ∈ blanks, c = ' ')
    (h_line : line ∈ texts) :
    ∃ front back, ('\n' :: blanks).intercalate texts = front ++ (line ++ back) ∧ AtStart front := by
  induction texts with
  | nil => cases h_line
  | cons first texts ih =>
    by_cases h_last : texts = []
    · subst h_last
      rw [List.mem_singleton.mp h_line, List.intercalate_singleton]
      exact ⟨[], [], by simp, atStart_nil⟩
    · rw [List.intercalate_cons_of_ne_nil h_last]
      rcases List.mem_cons.mp h_line with rfl | h_line
      · exact ⟨[], _, by rw [List.nil_append, List.append_assoc], atStart_nil⟩
      · obtain ⟨front, back, h_rest, h_front⟩ := ih h_line
        refine ⟨(first ++ '\n' :: blanks) ++ front, back, by simp [h_rest], ?_⟩
        exact (atStart_indent first h_blanks).append h_front

/-- What one of several texts declares is declared where they stand on lines one below the other. -/
theorem declares_intercalate {sep : String} {texts : List String} (h_name : '\n' ∉ name.toList)
    (h_sep : sep.toList = '\n' :: blanks) (h_blanks : ∀ c ∈ blanks, c = ' ')
    (h_text : text ∈ texts) (h_declares : declares name text = true) :
    declares name (sep.intercalate texts) = true := by
  obtain ⟨front, back, h_split, h_front⟩ :=
    exists_of_mem_intercalate h_blanks (List.mem_map_of_mem (f := String.toList) h_text)
  have h_whole : sep.intercalate texts = String.ofList front ++ text ++ String.ofList back := by
    rw [← String.toList_inj, String.toList_intercalate, h_sep, h_split,
      Text.toList_append_append, String.toList_ofList, String.toList_ofList]
  rw [h_whole]
  have h_start : AtStart (String.ofList front).toList := by rwa [String.toList_ofList]
  exact declares_append_left h_name (declares_append_right h_name h_start h_declares) _

end OpenApiTs.Output
