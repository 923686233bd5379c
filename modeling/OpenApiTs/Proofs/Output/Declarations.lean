/-
  OpenApiTs.Proofs.Output.Declarations

  Rendered declarations in the shared file. The text of declarations, one after the other, is cut
  into exactly these declarations, and each exports its own name and no other.
-/
import OpenApiTs.Proofs.Output.Cutting
import OpenApiTs.Proofs.Output.Names

namespace OpenApiTs.Output

open OpenApiTs.TypeScript
open OpenApiTs.Text (dropReturn)
open OpenApiTs.Text.Chars (closed closed_append closed_cons)

variable {declaration : Declaration String} {declarations : List (Declaration String)}

/-- The text of a declaration in the shared file. -/
def written (declaration : Declaration String) : String :=
  Text.trim ("\n".intercalate (Text.lines declaration.render))

/-! ## Lines -/

/-- What follows the name in the line of a declaration, before the type. -/
def afterName : Form → List Char
  | .interface => []
  | .alias => "= ".toList

theorem head_eq (form : Form) (name : String) :
    (Declaration.head form name).toList =
      exportKeyword form ++ (name.toList ++ ' ' :: afterName form) := by
  match form with
  | .interface => exact Text.toList_append_append "export interface " name " "
  | .alias => exact Text.toList_append_append "export type " name " = "

/-- The lines of a legible declaration: of the comment above it, its export, and those inside. -/
structure Laid (declaration : Declaration String) (first : List Char) (tail : List (List Char)) :
    Prop where
  render_eq : declaration.render.toList =
    closed (commentLinesOf declaration.description ++
      (exportKeyword declaration.form ++ (declaration.name.toList ++ ' ' :: first)) :: tail)
  first_flat : '\n' ∉ first
  tail_inner : ∀ line ∈ tail, IsInner line
  tail_last : ∀ last ∈ tail.getLast?, ∃ rest, last = '\x7d' :: rest

/-- The lines of a legible declaration behind its comment: the head and what is indented below
    it. -/
theorem exists_laid (h_legible : Legible declaration) :
    ∃ first tail, Laid declaration first tail := by
  obtain ⟨first, tail, h_render, h_first, h_tail, h_last⟩ :=
    exists_lines_render declaration h_legible.flat
  refine ⟨afterName declaration.form ++ first, tail, ?_, ?_, h_tail, h_last⟩
  · rw [h_render, head_eq]
    simp
  · intro h_mem
    rcases List.mem_append.mp h_mem with h_mem | h_mem
    · revert h_mem
      cases declaration.form <;> decide
    · exact h_first h_mem

variable {first : List Char} {tail : List (List Char)}

/-- They are single lines. -/
theorem Laid.newline_not_mem (h_laid : Laid declaration first tail)
    (h_name : Name.IsWord declaration.name) :
    ∀ line ∈ commentLinesOf declaration.description ++
      (exportKeyword declaration.form ++ (declaration.name.toList ++ ' ' :: first)) :: tail,
        '\n' ∉ line := by
  intro line h_line
  rcases List.mem_append.mp h_line with h_line | h_line
  · exact (isInner_of_mem_commentLinesOf h_line).unbroken
  · rcases List.mem_cons.mp h_line with rfl | h_line
    · have h_keyword : '\n' ∉ exportKeyword declaration.form := by
        cases declaration.form <;> decide
      have h_word := h_name.not_mem (c := '\n') (by decide)
      simp [h_keyword, h_word, h_laid.first_flat]
    · exact (h_laid.tail_inner line h_line).unbroken

/-- A line without its carriage return, as a text. -/
def lineText (line : List Char) : String := String.ofList (dropReturn line)

/-- The line of the export, with what follows the name on it. -/
def headText (declaration : Declaration String) (first : List Char) : String :=
  String.ofList (exportKeyword declaration.form ++
    (declaration.name.toList ++ ' ' :: dropReturn first))

/-- Reading a declaration's text line by line gives these lines. -/
theorem Laid.lines_render (h_laid : Laid declaration first tail)
    (h_name : Name.IsWord declaration.name) :
    Text.lines declaration.render =
      (commentLinesOf declaration.description).map lineText ++
        headText declaration first :: tail.map lineText := by
  have h_text : declaration.render = String.ofList (closed
      (commentLinesOf declaration.description ++
        (exportKeyword declaration.form ++ (declaration.name.toList ++ ' ' :: first)) :: tail)) := by
    rw [← h_laid.render_eq, String.ofList_toList]
  -- a carriage return can only be dropped from what follows the name
  have h_head : dropReturn
      (exportKeyword declaration.form ++ (declaration.name.toList ++ ' ' :: first)) =
        exportKeyword declaration.form ++ (declaration.name.toList ++ ' ' :: dropReturn first) := by
    rw [← List.append_assoc, Text.dropReturn_append _ (by decide), List.append_assoc]
  rw [h_text, Text.lines_closed (h_laid.newline_not_mem h_name), List.map_append, List.map_cons,
    h_head]
  rfl

/-! ## Blocks -/

theorem isExport_iff (line : String) : isExport line = true ↔ exportOpening <+: line.toList := by
  rw [isExport, Text.opensWith, List.isPrefixOf_iff_prefix]
  rfl

theorem isExport_eq_false {line : List Char} (h_silent : ¬ exportOpening <+: line) :
    isExport (lineText line) = false := by
  have h_chars : (lineText line).toList = dropReturn line := String.toList_ofList
  rw [Bool.eq_false_iff, ne_eq, isExport_iff, h_chars]
  intro h_opening
  exact h_silent (h_opening.trans (Text.dropReturn_prefix line))

/-- A line that begins with anything but a blank closes no comment. -/
theorem ofList_cons_ne {c : Char} (h_c : c ≠ ' ') (line : List Char) :
    String.ofList (c :: line) ≠ " */" := by
  intro h_eq
  have h_closing : " */".toList = [' ', '*', '/'] := rfl
  have h_chars := congrArg String.toList h_eq
  rw [String.toList_ofList, h_closing] at h_chars
  exact h_c (List.cons.inj h_chars).1

theorem lineText_commentLinesOf (description : Option String) :
    (commentLinesOf description).map lineText = [] ∨
      ∃ words, (commentLinesOf description).map lineText = "/**" :: words ++ [" */"] ∧
        "/**" ∉ words := by
  cases description with
  | none => exact .inl rfl
  | some text =>
    refine .inr ⟨((text.toList.splitOn '\n').map (" * ".toList ++ ·)).map lineText, ?_, ?_⟩
    · rw [commentLinesOf, commentLines, List.map_append, List.map_cons]
      rfl
    · -- the lines between begin with a blank, the opening of a comment does not
      intro h_mem
      obtain ⟨line, h_line, h_text⟩ := List.mem_map.mp h_mem
      obtain ⟨piece, -, rfl⟩ := List.mem_map.mp h_line
      have h_blank : dropReturn (" * ".toList ++ piece) = " *".toList ++ ' ' :: dropReturn piece :=
        Text.dropReturn_append " *".toList (by decide) piece
      have h_chars := congrArg String.toList h_text
      rw [lineText, String.toList_ofList, h_blank] at h_chars
      have h_opening : "/**".toList = ['/', '*', '*'] := rfl
      rw [h_opening] at h_chars
      exact absurd (List.cons.inj h_chars).1 (by decide)

/-- A comment or none, a line that exports something, and inner lines, the last of which begins with
    the brace that closes a type, are a block. -/
theorem exists_block_of_lines (description : Option String) (form : Form) (more : List Char)
    (h_tail : ∀ line ∈ tail, IsInner line)
    (h_last : ∀ last ∈ tail.getLast?, ∃ rest, last = '\x7d' :: rest) :
    ∃ block : Block, block.lines = (commentLinesOf description).map lineText ++
      String.ofList (exportKeyword form ++ more) :: tail.map lineText := by
  obtain ⟨keyword, h_keyword, h_opening⟩ := exists_exportKeyword form
  refine ⟨⟨(commentLinesOf description).map lineText, String.ofList (exportKeyword form ++ more),
    tail.map lineText, lineText_commentLinesOf description, ?_, ?_, ?_, ?_⟩, rfl⟩
  · intro line h_line
    obtain ⟨own, h_own, rfl⟩ := List.mem_map.mp h_line
    exact isExport_eq_false (isInner_of_mem_commentLinesOf h_own).silent
  · rw [isExport_iff, String.toList_ofList]
    exact h_opening.trans (List.prefix_append _ _)
  · intro line h_line
    obtain ⟨own, h_own, rfl⟩ := List.mem_map.mp h_line
    exact isExport_eq_false (h_tail own h_own).silent
  · intro h_closing
    -- the last line is the export itself or begins with the brace that closes the type
    cases h_end : tail.getLast? with
    | none =>
      rw [List.getLast?_eq_none_iff.mp h_end, h_keyword] at h_closing
      exact ofList_cons_ne (by decide) _ (Option.some.inj h_closing)
    | some last =>
      obtain ⟨rest, rfl⟩ := h_last last h_end
      have h_ne : tail.map lineText ≠ [] := by
        intro h_none
        rw [List.map_eq_nil_iff.mp h_none] at h_end
        cases h_end
      rw [List.getLast?_cons_of_ne_nil h_ne, List.getLast?_map, h_end, Option.map_some,
        Option.some.injEq, lineText] at h_closing
      have h_brace : dropReturn ('\x7d' :: rest) = '\x7d' :: dropReturn rest :=
        Text.dropReturn_append [] (by decide) rest
      rw [h_brace] at h_closing
      exact ofList_cons_ne (by decide) _ h_closing

/-- The lines of a legible declaration are a block. -/
theorem exists_block (h_legible : Legible declaration) :
    ∃ block : Block, block.lines = Text.lines declaration.render := by
  obtain ⟨first, tail, h_laid⟩ := exists_laid h_legible
  rw [h_laid.lines_render h_legible.name]
  exact exists_block_of_lines declaration.description declaration.form _ h_laid.tail_inner
    h_laid.tail_last

/-! ## The name -/

theorem isInner_dropReturn {line : List Char} (h_inner : IsInner line) :
    IsInner (dropReturn line) :=
  h_inner.shortened (Text.dropReturn_prefix line)

theorem allInner_dropReturn {lines : List (List Char)} (h_lines : AllInner lines) :
    AllInner (lines.map dropReturn) := by
  intro line h_line
  obtain ⟨own, h_own, rfl⟩ := List.mem_map.mp h_line
  exact isInner_dropReturn (h_lines own h_own)

/-- The text of a declaration: its lines without their carriage returns, trimmed at the ends. -/
theorem Laid.toList_written (h_laid : Laid declaration first tail)
    (h_name : Name.IsWord declaration.name) :
    (written declaration).toList = Text.Chars.trim (['\n'].intercalate
      ((commentLinesOf declaration.description).map dropReturn ++
        (exportKeyword declaration.form ++ (declaration.name.toList ++ ' ' :: dropReturn first)) ::
          tail.map dropReturn)) := by
  have h_lineText : String.toList ∘ lineText = dropReturn := by
    funext line
    exact String.toList_ofList
  have h_headText : (headText declaration first).toList = exportKeyword declaration.form ++
      (declaration.name.toList ++ ' ' :: dropReturn first) := String.toList_ofList
  have h_newline : "\n".toList = ['\n'] := rfl
  rw [written, Text.trim, String.toList_ofList, String.toList_intercalate,
    h_laid.lines_render h_name, List.map_append, List.map_cons, List.map_map, List.map_map,
    h_lineText, h_headText, h_newline]

/-- The text of a declaration exports its name and no other. -/
theorem exportedNames_written (h_legible : Legible declaration) :
    exportedNames (written declaration) = [declaration.name] := by
  obtain ⟨first, tail, h_laid⟩ := exists_laid h_legible
  rw [← String.ofList_toList (s := written declaration), h_laid.toList_written h_legible.name]
  refine exportedNames_trim h_legible.name ?_ ?_ ?_ ?_
  · cases declaration.description with
    | none => exact .inl rfl
    | some words => exact .inr ⟨_, _, rfl⟩
  · exact allInner_dropReturn fun line => isInner_of_mem_commentLinesOf
  · exact allInner_dropReturn h_laid.tail_inner
  · intro h_mem
    exact h_laid.first_flat ((Text.dropReturn_prefix first).subset h_mem)

/-! ## Several declarations -/

theorem exists_closed (h_legible : Legible declaration) :
    ∃ lines, declaration.render.toList = closed lines ∧ (∀ line ∈ lines, '\n' ∉ line) ∧
      Text.lines declaration.render = lines.map lineText := by
  obtain ⟨first, tail, h_laid⟩ := exists_laid h_legible
  refine ⟨_, h_laid.render_eq, h_laid.newline_not_mem h_legible.name, ?_⟩
  have h_lines := Text.lines_closed (h_laid.newline_not_mem h_legible.name)
  rwa [← h_laid.render_eq, String.ofList_toList] at h_lines

/-- Declarations one after the other are the lines of the one, then those of the others. -/
theorem exists_closed_join (h_legible : ∀ declaration ∈ declarations, Legible declaration) :
    ∃ lines, (String.join (declarations.map Declaration.render)).toList = closed lines ∧
      (∀ line ∈ lines, '\n' ∉ line) ∧
      (declarations.flatMap fun declaration => Text.lines declaration.render) =
        lines.map lineText := by
  induction declarations with
  | nil => exact ⟨[], rfl, by simp, rfl⟩
  | cons declaration declarations ih =>
    rw [List.forall_mem_cons] at h_legible
    -- each text ends in a line feed, so no line runs over into the next declaration
    obtain ⟨lines, h_render, h_flat, h_lines⟩ := exists_closed h_legible.1
    obtain ⟨others, h_join, h_others, h_rest⟩ := ih h_legible.2
    refine ⟨lines ++ others, ?_, ?_, ?_⟩
    · rw [List.map_cons, String.join_cons, String.toList_append, h_render, h_join,
        closed_append]
    · intro line h_line
      exact (List.mem_append.mp h_line).elim (h_flat line) (h_others line)
    · rw [List.flatMap_cons, h_lines, h_rest, List.map_append]

/-- The lines of several declarations are those of each, one after the other. -/
theorem lines_join_render (h_legible : ∀ declaration ∈ declarations, Legible declaration) :
    Text.lines (String.join (declarations.map Declaration.render)) =
      declarations.flatMap fun declaration => Text.lines declaration.render := by
  obtain ⟨lines, h_join, h_flat, h_lines⟩ := exists_closed_join h_legible
  have h_closed := Text.lines_closed h_flat
  rw [← h_join, String.ofList_toList] at h_closed
  rw [h_lines, h_closed]
  rfl

/-- The lines of a declaration export its name and no other. -/
theorem Laid.filterMap_exportedName? (h_laid : Laid declaration first tail)
    (h_name : Name.IsWord declaration.name) :
    (commentLinesOf declaration.description ++
      (exportKeyword declaration.form ++ (declaration.name.toList ++ ' ' :: first)) ::
        tail).filterMap exportedName? = [declaration.name] := by
  have h_comment : (commentLinesOf declaration.description).filterMap exportedName? = [] :=
    filterMap_exportedName?_of_silent
      fun line h_line => (isInner_of_mem_commentLinesOf h_line).silent
  have h_tail : tail.filterMap exportedName? = [] :=
    filterMap_exportedName?_of_silent fun line h_line => (h_laid.tail_inner line h_line).silent
  have h_head : exportedName?
      (exportKeyword declaration.form ++ (declaration.name.toList ++ ' ' :: first)) =
        some declaration.name :=
    exportedName?_head h_name (.inr ⟨first, rfl⟩)
  rw [List.filterMap_append, h_comment, List.nil_append, List.filterMap_cons_some h_head, h_tail]

/-- Declarations one after the other export their names, one for each. -/
theorem exportedNames_join (h_legible : ∀ declaration ∈ declarations, Legible declaration) :
    exportedNames (String.join (declarations.map Declaration.render)) =
      declarations.map Declaration.name := by
  induction declarations with
  | nil => decide
  | cons declaration declarations ih =>
    rw [List.forall_mem_cons] at h_legible
    obtain ⟨first, tail, h_laid⟩ := exists_laid h_legible.1
    have h_rest := ih h_legible.2
    rw [exportedNames_eq] at h_rest
    -- the texts are closed lines, so the rest is read on its own
    rw [exportedNames_eq, List.map_cons, String.join_cons, String.toList_append,
      h_laid.render_eq,
      Text.Chars.splitOn_closed_append (h_laid.newline_not_mem h_legible.1.name),
      List.filterMap_append, h_laid.filterMap_exportedName? h_legible.1.name, h_rest]
    rfl

/-- Legible declarations are blocks, one for each. -/
theorem exists_blocks (h_legible : ∀ declaration ∈ declarations, Legible declaration) :
    ∃ blocks : List Block, blocks.map Block.lines =
      declarations.map fun declaration => Text.lines declaration.render := by
  induction declarations with
  | nil => exact ⟨[], rfl⟩
  | cons declaration declarations ih =>
    rw [List.forall_mem_cons] at h_legible
    obtain ⟨block, h_block⟩ := exists_block h_legible.1
    obtain ⟨blocks, h_blocks⟩ := ih h_legible.2
    refine ⟨block :: blocks, ?_⟩
    rw [List.map_cons, List.map_cons, h_block, h_blocks]

/-- A legible declaration leaves a text: it exports a name, and the empty text exports none. -/
theorem written_ne_empty (h_legible : Legible declaration) : written declaration ≠ "" := by
  intro h_empty
  have h_name := exportedNames_written h_legible
  have h_none : exportedNames "" = [] := by decide
  rw [h_empty, h_none] at h_name
  cases h_name

/-- A text with the lines of blocks is cut into the texts of these blocks. -/
theorem splitDeclarations?_of_blocks {compiled : String} {blocks : List Block} {texts : List String}
    (h_lines : Text.lines compiled = linesOf blocks)
    (h_texts : (blocks.map fun block => Text.trim ("\n".intercalate block.lines)) = texts)
    (h_some : ∀ text ∈ texts, text ≠ "") : splitDeclarations? compiled = some texts := by
  have h_parts : (blocks.map Block.lines).map (fun part => Text.trim ("\n".intercalate part)) =
      texts := by
    rw [List.map_map, ← h_texts]
    rfl
  rw [splitDeclarations?, h_lines]
  simp only [cutAt?_linesOf, Option.map_some, h_parts]
  -- what is left is the filter for empty texts
  congr 1
  rw [List.filter_eq_self]
  intro text h_text
  rw [decide_eq_true_eq]
  exact h_some text h_text

/-- The text of declarations is cut into these declarations. -/
theorem splitDeclarations?_join (h_legible : ∀ declaration ∈ declarations, Legible declaration) :
    splitDeclarations? (String.join (declarations.map Declaration.render)) =
      some (declarations.map written) := by
  obtain ⟨blocks, h_blocks⟩ := exists_blocks h_legible
  have h_lines : Text.lines (String.join (declarations.map Declaration.render)) =
      linesOf blocks := by
    rw [lines_join_render h_legible, linesOf, List.flatMap_def, List.flatMap_def, h_blocks]
  refine splitDeclarations?_of_blocks h_lines ?_ ?_
  · have h_texts := congrArg (List.map fun part => Text.trim ("\n".intercalate part)) h_blocks
    rw [List.map_map, List.map_map] at h_texts
    exact h_texts
  · intro text h_text
    obtain ⟨declaration, h_mem, rfl⟩ := List.mem_map.mp h_text
    exact written_ne_empty (h_legible declaration h_mem)

end OpenApiTs.Output
