/-
  OpenApiTs.Proofs.Output.SharedOrder

  The file of shared declarations for definitions in another order. A definition is compiled to the
  same declarations wherever it stands, so the compiled texts are cut into the same ones, and only
  their order differs; so are the files when they are cut again.
-/
import OpenApiTs.Proofs.Output.SharedFile
import OpenApiTs.Proofs.Schema.KeyOrder

namespace OpenApiTs

open OpenApiTs.Definitions (ofDocument)
open OpenApiTs.Json (Reordered)
open OpenApiTs.Schema (Compilation DefinitionsReordered compile declaresAlike_reordered nodeDocument
  typeScript)
open OpenApiTs.Text (EndsUnblank dropReturn)
open OpenApiTs.TypeScript

variable {definitions definitions' : Definitions} {compilations : List Compilation}

/-! ## Definitions in another order -/

/-- Whether definitions have the same entries in any order, and the same recorded references. -/
structure Definitions.SameEntries (definitions definitions' : Definitions) : Prop where
  schemas : definitions.schemas.Perm definitions'.schemas
  recorded : ∀ own, own ∈ definitions.selfReferential ↔ own ∈ definitions'.selfReferential

namespace Definitions.SameEntries

theorem wellFormed (h_same : definitions.SameEntries definitions')
    (h_definitions : (Json.object definitions.schemas).WellFormed) :
    (Json.object definitions'.schemas).WellFormed :=
  Reordered.wellFormed_of_perm h_definitions h_same.schemas

theorem reordered (h_same : definitions.SameEntries definitions')
    (h_definitions : (Json.object definitions.schemas).WellFormed) :
    DefinitionsReordered definitions definitions' where
  wellFormed := Json.wellFormedFields_iff.mpr (Json.wellFormed_object_iff.mp h_definitions).2
  wellFormed' := Json.wellFormedFields_iff.mpr
    (Json.wellFormed_object_iff.mp (h_same.wellFormed h_definitions)).2
  schemas := by
    intro name
    have h_lookup := Entries.lookup_perm (Json.wellFormed_object_iff.mp h_definitions).1
      h_same.schemas name
    rw [Definitions.get?, Definitions.get?, ← h_lookup]
    cases h_found : definitions.schemas.lookup name with
    | none => exact .none
    | some value =>
      exact .some (.refl ((Json.wellFormed_object_iff.mp h_definitions).2 _
        (Entries.mem_of_lookup h_found)))
  selfReferential := by
    intro own
    rw [Bool.eq_iff_iff, Definitions.isSelfReferential, Definitions.isSelfReferential,
      List.contains_iff_mem, List.contains_iff_mem]
    exact h_same.recorded own

theorem marksPlaceholders (h_same : definitions.SameEntries definitions')
    (h_marks : definitions.MarksPlaceholders) : definitions'.MarksPlaceholders where
  names := fun entry h_entry => h_marks.names entry (h_same.schemas.mem_iff.mpr h_entry)
  schemas := by
    intro entry h_entry
    refine (h_marks.schemas entry (h_same.schemas.mem_iff.mpr h_entry)).mono ?_
    rintro title fields ⟨own, h_own, h_title⟩
    exact ⟨own, (h_same.recorded own).mp h_own, h_title⟩
  recorded := fun own h_own => h_marks.recorded own ((h_same.recorded own).mpr h_own)

end Definitions.SameEntries

namespace Output

/-! ## Declarations of definitions -/

/-- The declarations that a definition is compiled to; none when it is malformed. -/
def madeOf? (definitions : Definitions) (entry : String × Json) :
    Option (List (Declaration String)) :=
  match compile definitions entry.1 entry.2 with
  | .ok compilation => some compilation.made
  | .error _ => none

/-- A definition is compiled to the same declarations wherever it stands. -/
theorem madeOf?_eq (h_same : definitions.SameEntries definitions')
    (h_definitions : (Json.object definitions.schemas).WellFormed) {entry : String × Json}
    (h_entry : entry ∈ definitions.schemas) :
    madeOf? definitions entry = madeOf? definitions' entry := by
  have h_both := h_same.reordered h_definitions
  have h_schema : entry.2.WellFormed :=
    (Json.wellFormed_object_iff.mp h_definitions).2 entry h_entry
  have h_outcomes := (declaresAlike_reordered h_both (Name.identifier entry.1)).compile h_schema
    h_schema h_both.wellFormed h_both.wellFormed' ⟨rfl, Reordered.refl h_schema⟩
  rw [madeOf?, madeOf?]
  generalize compile definitions entry.1 entry.2 = outcome at h_outcomes
  generalize compile definitions' entry.1 entry.2 = outcome' at h_outcomes
  cases h_outcomes with
  | error _ => rfl
  | ok h_made => exact congrArg some h_made.made

theorem compileAll_succeeds_iff :
    (∃ compilations, compileAll definitions = .ok compilations) ↔
      ∀ entry ∈ definitions.schemas, (madeOf? definitions entry).isSome = true := by
  constructor
  · rintro ⟨compilations, h_compile⟩ entry h_entry
    obtain ⟨compilation, -, h_own⟩ := Outcome.exists_mem_of_mapM h_compile h_entry
    rw [madeOf?, h_own]
    rfl
  · intro h_each
    apply Outcome.exists_mapM_of_forall
    intro entry h_entry
    have h_some := h_each entry h_entry
    rw [madeOf?] at h_some
    split at h_some
    · next compilation h_own => exact ⟨compilation, h_own⟩
    · cases h_some

/-- The declarations of all definitions are collected entry by entry. -/
theorem declarationsOf_eq (h_compile : compileAll definitions = .ok compilations) :
    declarationsOf compilations =
      definitions.schemas.flatMap fun entry => (madeOf? definitions entry).getD [] := by
  have h_match := Outcome.mapM_eq_ok_iff.mp h_compile
  -- the induction is on the entries, so the compile of all of them is let go
  clear h_compile
  generalize definitions.schemas = entries at h_match
  induction h_match with
  | nil => rfl
  | @cons entry compilation entries compilations h_own _ ih =>
    have h_made : madeOf? definitions entry = some compilation.made := by rw [madeOf?, h_own]
    rw [List.flatMap_cons, ← ih, h_made]
    rfl

/-- Definitions in another order are compiled to the same declarations in another order. -/
theorem declarationsOf_perm (h_same : definitions.SameEntries definitions')
    (h_definitions : (Json.object definitions.schemas).WellFormed)
    {compilations' : List Compilation} (h_compile : compileAll definitions = .ok compilations)
    (h_compile' : compileAll definitions' = .ok compilations') :
    (declarationsOf compilations).Perm (declarationsOf compilations') := by
  rw [declarationsOf_eq h_compile, declarationsOf_eq h_compile']
  have h_each : (definitions.schemas.flatMap fun entry => (madeOf? definitions entry).getD []) =
      definitions.schemas.flatMap fun entry => (madeOf? definitions' entry).getD [] :=
    List.flatMap_congr fun entry h_entry => by rw [madeOf?_eq h_same h_definitions h_entry]
  rw [h_each]
  exact h_same.schemas.flatMap_right _

theorem eraseDups_perm {texts texts' : List String} (h_texts : texts.Perm texts') :
    texts.eraseDups.Perm texts'.eraseDups := by
  rw [List.perm_ext_iff_of_nodup (nodup_eraseDups texts) (nodup_eraseDups texts')]
  intro text
  rw [List.mem_eraseDups, List.mem_eraseDups, h_texts.mem_iff]

/-! ## Files that are cut again -/

/-- The text of a declaration when the file that it stands in is cut: what its lines lose are the
    carriage returns at their ends. -/
def recut (text : String) : String := Text.trim ("\n".intercalate (Text.lines text))

theorem map_dropReturn_commentLinesOf (description : Option String) :
    ∃ description', (commentLinesOf description).map dropReturn = commentLinesOf description' := by
  cases description with
  | none => exact ⟨none, rfl⟩
  | some words =>
    have h_flat : ∀ line ∈ (words.toList.splitOn '\n').map dropReturn, '\n' ∉ line := by
      intro line h_line
      obtain ⟨own, h_own, rfl⟩ := List.mem_map.mp h_line
      exact fun h_mem => Text.Chars.not_mem_of_mem_splitOn h_own
        ((Text.dropReturn_prefix own).subset h_mem)
    have h_some : (words.toList.splitOn '\n').map dropReturn ≠ [] := by simp
    let shortened := ['\n'].intercalate ((words.toList.splitOn '\n').map dropReturn)
    refine ⟨some (String.ofList shortened), ?_⟩
    rw [commentLinesOf, commentLinesOf, commentLines, commentLines,
      @String.toList_ofList shortened, List.splitOn_intercalate '\n' h_flat h_some,
      List.map_append, List.map_cons, List.map_map, List.map_map]
    congr 2
    apply List.map_congr_left
    intro piece _
    exact Text.dropReturn_append " *".toList (by decide) piece

/-- A declaration begins with its comment or with its export, and not with a blank. -/
theorem head?_lines (description : Option String) (form : Form) (more : List Char)
    (tail : List (List Char)) :
    ∃ c, (['\n'].intercalate (commentLinesOf description ++
      (exportKeyword form ++ more) :: tail)).head? = some c ∧ Text.isBlank c = false := by
  obtain ⟨keyword, h_keyword, -⟩ := exists_exportKeyword form
  rw [Text.Chars.intercalate_closed]
  cases description with
  | some words => exact ⟨'/', rfl, by decide⟩
  | none =>
    refine ⟨'e', ?_, by decide⟩
    cases tail with
    | nil =>
      rw [List.intercalate_singleton, h_keyword]
      rfl
    | cons line tail =>
      rw [List.intercalate_cons_of_ne_nil (List.cons_ne_nil line tail), h_keyword]
      rfl

/-- The lines of a text: a comment or none, an export, and inner lines, the last of which begins
    with the brace that closes a type. -/
structure Kept (text : List Char) (description : Option String) (form : Form) (more : List Char)
    (tail : List (List Char)) : Prop where
  text_eq : text =
    ['\n'].intercalate (commentLinesOf description ++ (exportKeyword form ++ more) :: tail)
  more_flat : '\n' ∉ more
  tail_inner : ∀ line ∈ tail, IsInner line
  tail_last : ∀ last ∈ tail.getLast?, ∃ rest, last = '\x7d' :: rest

/-- Where the export is the last line, what is trimmed stands behind the name. -/
theorem kept_of_head (description : Option String) (form : Form) {name : String}
    (h_name : Name.IsWord name) {first : List Char} (h_first : '\n' ∉ first) :
    ∃ more, Kept (Text.Chars.trim (['\n'].intercalate (commentLinesOf description ++
      [exportKeyword form ++ (name.toList ++ ' ' :: first)]))) description form more [] := by
  obtain ⟨c, h_c, h_blank⟩ := head?_lines description form (name.toList ++ ' ' :: first) []
  obtain ⟨front, letter, h_letters⟩ :=
    (List.eq_nil_or_concat' name.toList).resolve_left h_name.ne_nil
  -- the name has a last letter, and trimming stops at it at the latest
  have h_letter : Text.isBlank letter = false :=
    Name.isBlank_of_inIdentifier (h_name.inside letter (by simp [h_letters]))
  have h_mem : letter ∈ exportKeyword form ++ (name.toList ++ ' ' :: first) := by simp [h_letters]
  refine ⟨front ++ letter :: Text.Chars.dropWhileEnd Text.isBlank (' ' :: first), ?_, ?_,
    by simp, by simp⟩
  · rw [Text.Chars.trim_intercalate h_c h_blank h_mem h_letter, h_letters, List.append_assoc,
      ← List.append_assoc, List.singleton_append, Text.Chars.dropWhileEnd_append_cons h_letter,
      List.append_assoc]
  · intro h_newline
    rcases List.mem_append.mp h_newline with h_front | h_back
    · have h_word : '\n' ∉ name.toList := h_name.not_mem (by decide)
      exact h_word (by rw [h_letters]; exact List.mem_append_left _ h_front)
    · rcases List.mem_cons.mp h_back with rfl | h_back
      · exact absurd h_letter (by decide)
      · have h_kept := (Text.Chars.dropWhileEnd_prefix _ _).subset h_back
        exact h_first (by simpa using h_kept)

/-- Where the brace that closes a type is on the last line, what is trimmed stands behind it. -/
theorem kept_of_tail (description : Option String) (form : Form) {more rest : List Char}
    {init : List (List Char)} (h_more : '\n' ∉ more)
    (h_tail : ∀ line ∈ init ++ ['\x7d' :: rest], IsInner line) :
    ∃ tail, Kept (Text.Chars.trim (['\n'].intercalate (commentLinesOf description ++
      (exportKeyword form ++ more) :: (init ++ ['\x7d' :: rest])))) description form more tail := by
  obtain ⟨c, h_c, h_blank⟩ := head?_lines description form more (init ++ ['\x7d' :: rest])
  have h_trimmed : Text.Chars.dropWhileEnd Text.isBlank ('\x7d' :: rest) =
      '\x7d' :: Text.Chars.dropWhileEnd Text.isBlank rest :=
    Text.Chars.dropWhileEnd_append_cons (by decide) [] rest
  have h_last : IsInner ('\x7d' :: Text.Chars.dropWhileEnd Text.isBlank rest) := by
    rw [← h_trimmed]
    exact (h_tail ('\x7d' :: rest) (by simp)).shortened (Text.Chars.dropWhileEnd_prefix _ _)
  rw [← List.cons_append, ← List.append_assoc] at h_c
  refine ⟨init ++ ['\x7d' :: Text.Chars.dropWhileEnd Text.isBlank rest], ?_, h_more, ?_, by simp⟩
  · rw [← List.cons_append, ← List.append_assoc,
      Text.Chars.trim_intercalate h_c h_blank List.mem_cons_self (by decide), h_trimmed,
      List.append_assoc, List.cons_append]
  · intro line h_line
    rcases List.mem_append.mp h_line with h_line | h_line
    · exact h_tail line (List.mem_append_left _ h_line)
    · rw [List.mem_singleton.mp h_line]
      exact h_last

/-- The text of a legible declaration keeps its lines. -/
theorem exists_kept_written {declaration : Declaration String} (h_legible : Legible declaration) :
    ∃ description more tail,
      Kept (written declaration).toList description declaration.form more tail := by
  obtain ⟨first, tail, h_laid⟩ := exists_laid h_legible
  obtain ⟨description, h_comment⟩ := map_dropReturn_commentLinesOf declaration.description
  have h_first : '\n' ∉ dropReturn first := fun h_mem =>
    h_laid.first_flat ((Text.dropReturn_prefix first).subset h_mem)
  rw [h_laid.toList_written h_legible.name, h_comment]
  -- the declaration is one line, or ends in a line with a closing brace
  rcases List.eq_nil_or_concat' tail with rfl | ⟨init, last, rfl⟩
  · obtain ⟨more, h_kept⟩ :=
      kept_of_head description declaration.form h_legible.name h_first
    exact ⟨description, more, [], h_kept⟩
  · obtain ⟨rest, rfl⟩ := h_laid.tail_last last (by simp)
    have h_brace : dropReturn ('\x7d' :: rest) = '\x7d' :: dropReturn rest :=
      Text.dropReturn_append [] (by decide) rest
    have h_tail := allInner_dropReturn h_laid.tail_inner
    rw [List.map_append, List.map_singleton, h_brace] at h_tail ⊢
    have h_name : '\n' ∉ declaration.name.toList := h_legible.name.not_mem (by decide)
    have h_more : '\n' ∉ declaration.name.toList ++ ' ' :: dropReturn first := by
      simp [h_name, h_first]
    obtain ⟨tail, h_kept⟩ := kept_of_tail description declaration.form h_more h_tail
    exact ⟨description, _, tail, h_kept⟩

/-- A trimmed text ends in no blank. -/
theorem endsUnblank_written {declaration : Declaration String} (h_legible : Legible declaration) :
    EndsUnblank (written declaration) := by
  cases h_last : (written declaration).toList.getLast? with
  | none =>
    have h_empty := String.toList_eq_nil_iff.mp (List.getLast?_eq_none_iff.mp h_last)
    exact absurd h_empty (written_ne_empty h_legible)
  | some c =>
    refine ⟨c, h_last, ?_⟩
    rw [written, Text.trim, String.toList_ofList] at h_last
    exact Text.Chars.isBlank_of_getLast?_trim h_last

/-- The lines of the text of a legible declaration are a block again. -/
theorem exists_block_written {declaration : Declaration String} (h_legible : Legible declaration) :
    ∃ block : Block, block.lines = Text.lines (written declaration) := by
  obtain ⟨description, more, tail, h_kept⟩ := exists_kept_written h_legible
  obtain ⟨c, h_last, h_c⟩ := endsUnblank_written h_legible
  have h_flat : ∀ line ∈ commentLinesOf description ++
      (exportKeyword declaration.form ++ more) :: tail, '\n' ∉ line := by
    intro line h_line
    rcases List.mem_append.mp h_line with h_comment | h_line
    · exact (isInner_of_mem_commentLinesOf h_comment).unbroken
    · rcases List.mem_cons.mp h_line with rfl | h_line
      · simp [newline_not_mem_exportKeyword declaration.form, h_kept.more_flat]
      · exact (h_kept.tail_inner line h_line).unbroken
  -- a carriage return at the end of the export stands behind the keyword
  have h_keyword : (exportKeyword declaration.form).getLast? ≠ some '\r' := by
    cases declaration.form <;> decide
  obtain ⟨more', h_head⟩ := Text.exists_dropReturn_append h_keyword more
  obtain ⟨block, h_block⟩ := exists_block_of_lines description declaration.form more'
    h_kept.tail_inner h_kept.tail_last
  refine ⟨block, ?_⟩
  rw [h_block, Text.lines_of_getLast? h_last h_c, h_kept.text_eq,
    List.splitOn_intercalate '\n' h_flat (by simp), List.map_append, List.map_cons, h_head]
  rfl

/-- Cutting again leaves a text: one of the lines is an export. -/
theorem recut_ne_empty {declaration : Declaration String} (h_legible : Legible declaration) :
    recut (written declaration) ≠ "" := by
  obtain ⟨block, h_block⟩ := exists_block_written h_legible
  have h_line : block.head ∈ Text.lines (written declaration) := by
    rw [← h_block, Block.lines]
    exact List.mem_append_right _ List.mem_cons_self
  obtain ⟨more, h_head⟩ := (isExport_iff block.head).mp block.head_opens
  -- the export in the block's head is no blank, and trimming keeps it
  have h_mem : 'e' ∈ ("\n".intercalate (Text.lines (written declaration))).toList := by
    have h_newline : "\n".toList = ['\n'] := rfl
    rw [String.toList_intercalate, h_newline]
    refine (Text.Chars.infix_intercalate ['\n'] (List.mem_map_of_mem h_line)).subset ?_
    rw [← h_head]
    exact List.mem_append_left _ (by decide)
  intro h_empty
  rw [recut, Text.trim] at h_empty
  exact Text.Chars.trim_ne_nil h_mem (by decide) (by simpa using congrArg String.toList h_empty)

/-- A file of texts of legible declarations is cut into these texts again. -/
theorem splitDeclarations?_intercalate {texts : List String}
    (h_texts : ∀ text ∈ texts, ∃ declaration, Legible declaration ∧ written declaration = text) :
    splitDeclarations? ("\n".intercalate texts) = some (texts.map recut) := by
  have h_unblank : ∀ text ∈ texts, EndsUnblank text := by
    intro text h_text
    obtain ⟨declaration, h_legible, rfl⟩ := h_texts text h_text
    exact endsUnblank_written h_legible
  obtain ⟨blocks, h_blocks⟩ : ∃ blocks : List Block,
      blocks.map Block.lines = texts.map Text.lines := by
    clear h_unblank
    induction texts with
    | nil => exact ⟨[], rfl⟩
    | cons text texts ih =>
      rw [List.forall_mem_cons] at h_texts
      obtain ⟨declaration, h_legible, rfl⟩ := h_texts.1
      obtain ⟨block, h_block⟩ := exists_block_written h_legible
      obtain ⟨blocks, h_rest⟩ := ih h_texts.2
      exact ⟨block :: blocks, by rw [List.map_cons, List.map_cons, h_block, h_rest]⟩
  refine @splitDeclarations?_of_blocks _ blocks _ ?_ ?_ ?_
  · rw [Text.lines_intercalate h_unblank, linesOf, List.flatMap_def, List.flatMap_def, h_blocks]
  · have h_parts := congrArg (List.map fun part => Text.trim ("\n".intercalate part)) h_blocks
    rw [List.map_map, List.map_map] at h_parts
    exact h_parts
  · intro text h_text
    obtain ⟨own, h_own, rfl⟩ := List.mem_map.mp h_text
    obtain ⟨declaration, h_legible, rfl⟩ := h_texts own h_own
    exact recut_ne_empty h_legible

/-! ## Files of definitions in another order -/

/-- The texts that the content of a file is cut into; none where there is no file. -/
def cutFile? (file? : Option OutputFile) : Option (List String) :=
  match file? with
  | some file => splitDeclarations? file.content
  | none => some []

/-- How the texts of declarations make the file: what the definitions are compiled to is cut into
    them, the file has the different ones among them, and it is cut into these again. -/
structure MadeOf (definitions : Definitions) (file? : Option OutputFile) (texts : List String) :
    Prop where
  compiled : ∃ outputs,
    (definitions.schemas.mapM fun entry => typeScript.clean entry.2 entry.1 definitions) =
      .ok outputs ∧ splitDeclarations? (String.join outputs) = some texts
  file : file? = fileOf texts.eraseDups
  again : cutFile? file? = some (texts.eraseDups.map recut)

theorem cutFile?_fileOf {texts : List String}
    (h_texts : ∀ text ∈ texts, ∃ declaration, Legible declaration ∧ written declaration = text) :
    cutFile? (fileOf texts) = some (texts.map recut) := by
  cases texts with
  | nil => rfl
  | cons text texts =>
    rw [fileOf_eq_some (List.cons_ne_nil text texts), cutFile?]
    exact splitDeclarations?_intercalate h_texts

/-- A shared file is made of the declarations that its definitions are compiled to. -/
theorem madeOf_sharedFile? (h_marks : definitions.MarksPlaceholders) {file? : Option OutputFile}
    (h_file : sharedFile? typeScript definitions = .ok file?) :
    ∃ compilations, compileAll definitions = .ok compilations ∧
      MadeOf definitions file? ((declarationsOf compilations).map written) := by
  obtain ⟨compilations, h_compile⟩ := exists_compileAll h_file
  have h_unmarked := unmarked_of_compileAll h_marks h_compile
  have h_legible := legible_of_compileAll h_compile
  rw [sharedFile?_eq h_compile h_unmarked, Except.ok.injEq] at h_file
  subst h_file
  refine ⟨compilations, h_compile, ⟨_, clean_eq_render h_compile h_unmarked, ?_⟩, rfl, ?_⟩
  · rw [join_render, splitDeclarations?_join h_legible]
  · apply cutFile?_fileOf
    intro text h_text
    obtain ⟨declaration, h_mem, rfl⟩ := List.mem_map.mp (List.mem_eraseDups.mp h_text)
    exact ⟨declaration, h_legible declaration h_mem, rfl⟩

/-- The file is made exactly when each definition compiles on its own. -/
theorem sharedFile?_succeeds_iff (h_marks : definitions.MarksPlaceholders) :
    (∃ file?, sharedFile? typeScript definitions = .ok file?) ↔
      ∀ entry ∈ definitions.schemas, (madeOf? definitions entry).isSome = true := by
  rw [← compileAll_succeeds_iff]
  constructor
  · rintro ⟨file?, h_file⟩
    exact exists_compileAll h_file
  · rintro ⟨compilations, h_compile⟩
    exact ⟨_, sharedFile?_eq h_compile (unmarked_of_compileAll h_marks h_compile)⟩

/-- Where the marker stands in placeholders only, the shared file of definitions in another order is
    written when that of the definitions is. The texts of declarations that the two are made of are
    the same, and so are those that the two files are cut into; only their order differs. -/
theorem sharedFile?_perm (definitions definitions' : Definitions)
    (h_same : definitions.SameEntries definitions')
    (h_definitions : (Json.object definitions.schemas).WellFormed)
    (h_marks : definitions.MarksPlaceholders) :
    ((∃ file?, sharedFile? typeScript definitions = .ok file?) ↔
      ∃ file?, sharedFile? typeScript definitions' = .ok file?) ∧
    ∀ file? file?', sharedFile? typeScript definitions = .ok file? →
      sharedFile? typeScript definitions' = .ok file?' →
      ∃ texts texts', MadeOf definitions file? texts ∧ MadeOf definitions' file?' texts' ∧
        texts.Perm texts' ∧ texts.eraseDups.Perm texts'.eraseDups ∧
        ∃ cut cut', cutFile? file? = some cut ∧ cutFile? file?' = some cut' ∧ cut.Perm cut' := by
  have h_marks' := h_same.marksPlaceholders h_marks
  constructor
  · rw [sharedFile?_succeeds_iff h_marks, sharedFile?_succeeds_iff h_marks']
    constructor
    · intro h_each entry h_entry
      have h_mem := h_same.schemas.mem_iff.mpr h_entry
      rw [← madeOf?_eq h_same h_definitions h_mem]
      exact h_each entry h_mem
    · intro h_each entry h_entry
      rw [madeOf?_eq h_same h_definitions h_entry]
      exact h_each entry (h_same.schemas.mem_iff.mp h_entry)
  · intro file? file?' h_file h_file'
    obtain ⟨compilations, h_compile, h_made⟩ := madeOf_sharedFile? h_marks h_file
    obtain ⟨compilations', h_compile', h_made'⟩ := madeOf_sharedFile? h_marks' h_file'
    have h_texts := (declarationsOf_perm h_same h_definitions h_compile h_compile').map written
    -- a declaration that is repeated is kept once in either file
    have h_once := eraseDups_perm h_texts
    exact ⟨_, _, h_made, h_made', h_texts, h_once, _, _, h_made.again, h_made'.again,
      h_once.map recut⟩

/-- The definitions of a name and of a number. -/
def nameAndNumber : Definitions :=
  ⟨[("Name", .object [("type", .text "string")]), ("Number", .object [("type", .text "number")])],
    []⟩

/-- Two definitions in both orders: the files differ, and what they are cut into is the same. -/
theorem nameAndNumber_sharedFile?_perm :
    ∃ file? file?', sharedFile? typeScript nameAndNumber = .ok file? ∧
      sharedFile? typeScript ⟨nameAndNumber.schemas.reverse, []⟩ = .ok file?' ∧
      file? ≠ file?' ∧
      ∃ cut cut', cutFile? file? = some cut ∧ cutFile? file?' = some cut' ∧ cut.Perm cut' := by
  have h_same : nameAndNumber.SameEntries ⟨nameAndNumber.schemas.reverse, []⟩ :=
    ⟨(List.reverse_perm _).symm, fun _ => Iff.rfl⟩
  have h_definitions : (Json.object nameAndNumber.schemas).WellFormed := by
    simp [nameAndNumber, Json.WellFormed, Json.WellFormedFields]
  have h_inert : ∀ entry ∈ nameAndNumber.schemas, Definitions.AllInert entry.2 := by
    decide +kernel
  have h_marks : nameAndNumber.MarksPlaceholders :=
    ⟨by decide +kernel, fun entry h_entry => Definitions.tidy_of_allInert (h_inert entry h_entry),
      by simp [nameAndNumber]⟩
  obtain ⟨h_iff, h_files⟩ := sharedFile?_perm _ _ h_same h_definitions h_marks
  obtain ⟨file?, h_file⟩ := (sharedFile?_succeeds_iff h_marks).mpr (by decide +kernel)
  obtain ⟨file?', h_file'⟩ := h_iff.mp ⟨file?, h_file⟩
  obtain ⟨_, _, -, -, -, -, h_cut⟩ := h_files file? file?' h_file h_file'
  refine ⟨file?, file?', h_file, h_file', ?_, h_cut⟩
  have h_differ : (sharedFile? typeScript nameAndNumber).toOption ≠
      (sharedFile? typeScript ⟨nameAndNumber.schemas.reverse, []⟩).toOption := by decide +kernel
  rw [h_file, h_file'] at h_differ
  rintro rfl
  exact h_differ rfl

end Output

end OpenApiTs
