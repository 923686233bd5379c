/-
  OpenApiTs.Proofs.Endpoint.Inline

  Parameters in signatures. A schema that is neither a list nor a reference is compiled, and the
  head of its declaration is replaced by the name of the parameter. That leaves a fragment where one
  alias is declared, under a name of word characters; an interface, or anything else that is
  declared, keeps its export.
-/
import OpenApiTs.Proofs.Endpoint.Undescribed
import OpenApiTs.Proofs.Output.Declaring
import OpenApiTs.Proofs.Schema.Legible
import OpenApiTs.Proofs.Schema.Pulled
import OpenApiTs.Proofs.Schema.Scrub
import OpenApiTs.Proofs.Text.Trimmed
import OpenApiTs.Proofs.TypeScript.Heads

namespace OpenApiTs.Endpoint

open OpenApiTs.Name (IsWord)
open OpenApiTs.Output
open OpenApiTs.Schema
open OpenApiTs.Text.Chars (closed dropWhileEnd trim)
open OpenApiTs.TypeScript

variable {definitions : Definitions} {parameter : Parameter} {name text : String} {form : Form}
  {compilation : Compilation} {put before more rest : List Char} {c : Char}

/-! ## Fragments -/

/-- The schema of a parameter; any value when it has none. -/
def schemaOf (parameter : Parameter) : Json := parameter.schema.getD (.object [])

/-- What stands before the type of a parameter: its name, a question mark if it may be left out, and
    a colon. -/
def argumentHead (parameter : Parameter) : String :=
  argumentName parameter ++ (if parameter.required then "" else "?") ++ ": "

/-- The type of a parameter: of a list, that of its items; of a reference, the shared type; else the
    type that its schema is declared with. -/
def argumentType? (definitions : Definitions) (parameter : Parameter) : Option String :=
  let schema := schemaOf parameter
  if schema.textAt? "type" = some "array" then
    let items := itemsOf schema
    some ((Reference.name? items).getD (primitive (items.textAt? "type")) ++ "[]")
  else
    match Reference.name? schema with
    | some shared => some shared
    | none =>
      match compile definitions (argumentName parameter) (withoutDescription schema) with
      | .ok compilation => compilation.made.head?.map fun declaration => declaration.type.render
      | .error _ => none

/-- Whether a text is the fragment for a parameter: its name, a question mark if it may be left out,
    and its type, with no export left in it. -/
def IsFragment (definitions : Definitions) (parameter : Parameter) (text : String) : Prop :=
  ∃ type, argumentType? definitions parameter = some type ∧ type ≠ "" ∧
    text = argumentHead parameter ++ type ∧ exportedNames text = []

/-- Whether a schema is written without being compiled: that of a list, and a reference. -/
def IsDirect (schema : Json) : Prop :=
  schema.textAt? "type" = some "array" ∨ (Reference.name? schema).isSome = true

/-- Whether the schema of a parameter is compiled to one alias, under a name of word characters, and
    the fragment for it has no blanks at its ends. -/
def FoldsAlias (definitions : Definitions) (parameter : Parameter) (type : String) : Prop :=
  (∃ roster declaration, compile definitions (argumentName parameter)
      (withoutDescription (schemaOf parameter)) = .ok ⟨roster, [declaration]⟩ ∧
    declaration.form = .alias ∧ '$' ∉ declaration.name.toList) ∧
  Text.trim (argumentHead parameter ++ type) = argumentHead parameter ++ type

/-- Whether a parameter folds into a fragment: it has a type, neither its name nor a shared type
    writes an export, and its schema is written directly or compiled to one alias. -/
def Folds (definitions : Definitions) (parameter : Parameter) : Prop :=
  ∃ type, argumentType? definitions parameter = some type ∧ type ≠ "" ∧
    exportedNames (argumentHead parameter ++ type) = [] ∧
    (IsDirect (schemaOf parameter) ∨ FoldsAlias definitions parameter type)

/-! ## Heads of declarations -/

theorem isWord_of_inIdentifier (h_inside : Name.inIdentifier c = true) (h_c : c ≠ '$') :
    Text.isWord c = true := by
  have h_range := Name.toNat_of_inIdentifier h_inside
  rw [Text.isWord, if_pos (by omega), Text.isAsciiWord]
  simpa [Name.inIdentifier, h_c] using h_inside

/-- What follows a keyword is a head when it is word characters up to the first blank, and an equals
    sign. -/
theorem afterHead?_keyword (h_name : IsWord name) (form : Form) (rest : List Char) :
    afterHead? (exportKeyword form ++ (name.toList ++ ' ' :: rest)) =
      if '$' ∈ name.toList then none else Text.Chars.after? "= ".toList rest := by
  have h_keyword : (Text.Chars.after? "export type ".toList
      (exportKeyword form ++ (name.toList ++ ' ' :: rest))).or
        (Text.Chars.after? "export interface ".toList
          (exportKeyword form ++ (name.toList ++ ' ' :: rest))) =
      some (name.toList ++ ' ' :: rest) := by
    cases form <;> rfl
  rw [afterHead?, h_keyword]
  simp only [Option.bind_eq_bind, Option.bind_some]
  by_cases h_dollar : '$' ∈ name.toList
  · -- the word characters end before the dollar sign
    obtain ⟨front, back, h_split, h_front⟩ := List.eq_append_cons_of_mem h_dollar
    have h_words : ∀ c ∈ front, Text.isWord c = true := by
      intro c h_c
      refine isWord_of_inIdentifier (h_name.inside c (by simp [h_split, h_c])) ?_
      rintro rfl
      exact h_front h_c
    rw [if_pos h_dollar, h_split, List.append_assoc, List.dropWhile_append_of_pos h_words]
    split <;> rfl
  · have h_words : ∀ c ∈ name.toList, Text.isWord c = true := by
      intro c h_c
      refine isWord_of_inIdentifier (h_name.inside c h_c) ?_
      rintro rfl
      exact h_dollar h_c
    rw [if_neg h_dollar, List.dropWhile_append_of_pos h_words,
      List.takeWhile_append_of_pos h_words, if_neg (by simp [h_name.ne_nil])]
    rfl

/-- The head of a declaration is one that is replaced when it is that of an alias under a name of
    word characters. -/
theorem afterHead?_head (h_name : IsWord name)
    (h_rest : form = .interface → rest.head? ≠ some '=') :
    afterHead? ((Declaration.head form name).toList ++ rest) =
      if form = .alias ∧ '$' ∉ name.toList then some rest else none := by
  rw [head_eq, List.append_assoc, List.append_assoc, List.cons_append, afterHead?_keyword h_name]
  match form with
  | .alias =>
    by_cases h_dollar : '$' ∈ name.toList <;> simp [h_dollar, afterName, Text.Chars.after?]
  | .interface =>
    have h_none : Text.Chars.after? "= ".toList rest = none := by
      rw [Option.eq_none_iff_forall_not_mem]
      intro back h_back
      rw [Option.mem_def, Text.Chars.after?_eq_some_iff] at h_back
      exact h_rest rfl (by rw [h_back]; rfl)
    rw [afterName, List.nil_append, h_none]
    simp

theorem replaceHead_alias (h_name : IsWord name) (h_dollar : '$' ∉ name.toList)
    (put rest : List Char) :
    replaceHead put ((Declaration.head .alias name).toList ++ rest) = put ++ rest := by
  have h_after := @afterHead?_head name .alias rest h_name (fun h_form => by cases h_form)
  obtain ⟨chars, h_head⟩ := exists_cons_head .alias name
  rw [if_pos ⟨rfl, h_dollar⟩, h_head, List.cons_append] at h_after
  rw [h_head, List.cons_append, replaceHead, h_after]

/-- Where a text does not begin with a head, the keyword that it begins with stays. -/
theorem replaceHead_keyword (put : List Char)
    (h_none : afterHead? (exportKeyword form ++ more) = none) :
    replaceHead put (exportKeyword form ++ more) = exportKeyword form ++ replaceHead put more := by
  obtain ⟨keyword, h_keyword, -⟩ := exists_exportKeyword form
  rw [h_keyword, List.cons_append] at h_none ⊢
  rw [replaceHead, h_none]
  -- no other place of the keyword is that of a head
  match form with
  | .alias =>
    obtain rfl := (List.cons.inj h_keyword).2
    rfl
  | .interface =>
    obtain rfl := (List.cons.inj h_keyword).2
    rfl

/-- A text has something that is no blank once heads are replaced, when it begins with that, and so
    does what heads are replaced by. -/
theorem exists_unblank_replaceHead (h_put : ∃ c ∈ put, Text.isBlank c = false)
    (h_c : Text.isBlank c = false) (more : List Char) :
    ∃ own ∈ replaceHead put (c :: more), Text.isBlank own = false := by
  obtain ⟨own, h_own, h_blank⟩ := h_put
  rw [replaceHead]
  split
  · exact ⟨own, List.mem_append_left _ h_own, h_blank⟩
  · exact ⟨c, List.mem_cons_self, h_c⟩

/-! ## Exports that stay -/

/-- Whether a text ends at the start of a line. -/
def EndsLine (before : List Char) : Prop := before = [] ∨ ∃ front, before = front ++ ['\n']

theorem exportedNames_ne_nil (h_before : EndsLine before) (form : Form) (more : List Char) :
    exportedNames (String.ofList (before ++ (exportKeyword form ++ more))) ≠ [] := by
  obtain ⟨first, others, h_more⟩ := List.exists_cons_of_ne_nil (List.splitOn_ne_nil '\n' more)
  have h_line : exportKeyword form ++ first ∈
      (before ++ (exportKeyword form ++ more)).splitOn '\n' := by
    have h_head : exportKeyword form ++ first ∈ (exportKeyword form ++ more).splitOn '\n' := by
      rw [splitOn_append_of_not_mem (newline_not_mem_exportKeyword form), h_more,
        List.modifyHead_cons]
      exact List.mem_cons_self
    rcases h_before with rfl | ⟨front, rfl⟩
    · exact h_head
    · rw [List.append_assoc, List.singleton_append, List.splitOn_append_cons_self]
      exact List.mem_append_right _ h_head
  obtain ⟨own, h_own⟩ : ∃ own, exportedName? (exportKeyword form ++ first) = some own := by
    match form with
    | .interface => exact ⟨_, rfl⟩
    | .alias => exact ⟨_, rfl⟩
  rw [exportedNames_eq, String.toList_ofList]
  exact List.ne_nil_of_mem (List.mem_filterMap.mpr ⟨_, h_line, h_own⟩)

theorem endsLine_dropWhile (h_before : EndsLine before) :
    EndsLine (before.dropWhile Text.isBlank) := by
  rcases h_before with rfl | ⟨front, rfl⟩
  · exact .inl rfl
  · rw [List.dropWhile_append]
    split
    · exact .inl rfl
    · exact .inr ⟨_, rfl⟩

theorem exists_dropSemicolon_append (h_more : more ≠ []) (front : List Char) :
    ∃ kept, dropSemicolon (front ++ more) = front ++ kept := by
  rw [dropSemicolon]
  cases h_before : Text.Chars.before? [';'] (front ++ more) with
  | none => exact ⟨more, rfl⟩
  | some kept =>
    rw [Text.Chars.before?_eq_some_iff] at h_before
    obtain ⟨init, last, rfl⟩ := (List.eq_nil_or_concat' more).resolve_left h_more
    rw [← List.append_assoc] at h_before
    exact ⟨init, (List.append_inj_left' h_before rfl).symm⟩

/-- An export at the start of a line stays when the ends of the text are trimmed. -/
theorem exportedNames_fold_ne_nil (h_before : EndsLine before)
    (h_more : ∃ c ∈ more, Text.isBlank c = false) (form : Form) :
    exportedNames (String.ofList (dropSemicolon (trim (before ++ (exportKeyword form ++ more))))) ≠
      [] := by
  obtain ⟨c, h_c, h_unblank⟩ := h_more
  obtain ⟨keyword, h_keyword, -⟩ := exists_exportKeyword form
  have h_front : (before ++ (exportKeyword form ++ more)).dropWhile Text.isBlank =
      before.dropWhile Text.isBlank ++ (exportKeyword form ++ more) := by
    have h_stays : (exportKeyword form ++ more).dropWhile Text.isBlank =
        exportKeyword form ++ more := by
      rw [h_keyword, List.cons_append, List.dropWhile_cons_of_neg (by decide)]
    rw [List.dropWhile_append, h_stays]
    split
    · next h_none => rw [List.isEmpty_iff.mp h_none, List.nil_append]
    · rfl
  have h_kept : dropWhileEnd Text.isBlank more ≠ [] := by
    obtain ⟨lead, back, rfl⟩ := List.append_of_mem h_c
    rw [Text.Chars.dropWhileEnd_append_cons h_unblank]
    simp
  rw [trim, h_front, ← List.append_assoc, Text.Chars.dropWhileEnd_append_of_mem h_c h_unblank]
  obtain ⟨kept, h_text⟩ := exists_dropSemicolon_append h_kept
    (before.dropWhile Text.isBlank ++ exportKeyword form)
  rw [h_text, List.append_assoc]
  exact exportedNames_ne_nil (endsLine_dropWhile h_before) form kept

/-! ## The first declaration -/

theorem description?_withoutDescription {schema : Json} (h_schema : schema.WellFormed) :
    description? (withoutDescription schema) = none := by
  cases schema with
  | object fields =>
    have h_none : (Json.object (Entries.remove fields "description")).field? "description" = none :=
      Entries.lookup_remove (Json.wellFormed_object_iff.mp h_schema).1
    rw [description?, withoutDescription, Json.wordsAt?, Json.textAt?, h_none]
    rfl
  | _ => rfl

/-- An interface has an object as its type. -/
theorem exists_record_of_interface {schema : Json} {plain : Declaration Mention}
    (h_declare : declare name schema = .ok plain) (h_form : plain.form = .interface) :
    ∃ members, plain.type = .record members := by
  unfold declare at h_declare
  split at h_declare
  · obtain ⟨type, h_type, h_made⟩ := Outcome.bind_eq_ok_iff.mp h_declare
    cases h_made
    rw [recordShape] at h_type
    obtain ⟨properties, -, h_index⟩ := Outcome.bind_eq_ok_iff.mp h_type
    obtain ⟨index, -, h_record⟩ := Outcome.bind_eq_ok_iff.mp h_index
    cases h_record
    exact ⟨_, rfl⟩
  · obtain ⟨type, -, h_made⟩ := Outcome.bind_eq_ok_iff.mp h_declare
    cases h_made
    cases h_form

/-- What stands first in a text that is compiled for a parameter: a declaration without a comment,
    whose type begins with a brace when it is an interface. -/
structure Leads (declaration : Declaration String) : Prop where
  legible : Legible declaration
  plain : declaration.description = none
  braced : declaration.form = .interface → declaration.type.render.toList.head? = some '\x7b'
  closed : declaration.type.render.toList.getLast? ≠ some ';'

theorem getLast?_ne_of_isSchemaWord {word : String} (h_word : IsSchemaWord word) :
    word.toList.getLast? ≠ some ';' := by
  rcases h_word with h_primitive | ⟨value, rfl⟩
  · have h_each : ∀ word ∈ ["string", "number", "boolean", "null", "never", "any"],
        word.toList.getLast? ≠ some ';' := by decide
    exact h_each word h_primitive
  · cases value with
    | null => decide
    | bool value => cases value <;> decide
    | number value =>
      intro h_last
      exact absurd (Number.isNumeric_of_mem_print value _ (List.mem_of_getLast? h_last)) (by decide)
    | text value =>
      have h_quoted : (literal (.text value)).toList =
          ('"' :: value.toList.flatMap Json.escape) ++ ['"'] := String.toList_ofList
      rw [h_quoted, List.getLast?_concat]
      decide
    | array items => exact (by decide : "any".toList.getLast? ≠ some ';')
    | object fields => exact (by decide : "any".toList.getLast? ≠ some ';')

theorem getLast?_render_ne (h_compile : compile definitions name schema = .ok compilation) :
    ∀ declaration ∈ compilation.made, declaration.type.render.toList.getLast? ≠ some ';' := by
  intro declaration h_mem
  refine (spreads_getLast?_ne (by decide)).render declaration.type fun text h_text => ?_
  rcases List.mem_append.mp h_text with h_spoken | h_head
  · rcases spoken_of_compile h_compile declaration h_mem text h_spoken with h_word | h_coined
    · exact getLast?_ne_of_isSchemaWord h_word
    · intro h_last
      exact h_coined.isWord.not_mem (by decide) (List.mem_of_getLast? h_last)
  · obtain ⟨head, -, rfl⟩ := List.mem_map.mp h_head
    cases head <;> simp [MemberHead.render]

/-- What is compiled for a parameter begins with the declaration of its schema. -/
theorem exists_leads {schema : Json} (h_schema : schema.WellFormed)
    (h_compile : compile definitions name (withoutDescription schema) = .ok compilation) :
    ∃ declaration others, compilation.made = declaration :: others ∧ Leads declaration ∧
      declaration.name = Name.identifier name ∧
      declaration.form = formOf (withoutDescription schema) := by
  obtain ⟨plain, roster, others, h_declare, h_made⟩ := exists_made_cons h_compile
  have h_first : (nameIn definitions (Name.identifier name) plain roster).1 ∈ compilation.made := by
    rw [h_made]
    exact List.mem_cons_self
  have h_plain := h_declare
  rw [declare_eq] at h_plain
  obtain ⟨type, -, rfl⟩ := Outcome.map_eq_ok_iff.mp h_plain
  refine ⟨_, others, h_made, ⟨legible_of_compile h_compile _ h_first,
    description?_withoutDescription h_schema, ?_, getLast?_render_ne h_compile _ h_first⟩, rfl, rfl⟩
  · intro h_form
    -- an interface is of a record, which is written in braces
    obtain ⟨members, h_type⟩ := exists_record_of_interface h_declare h_form
    obtain rfl : type = .record members := h_type
    simp only [nameIn, TypeExpr.rename, TypeExpr.render, braces]
    split <;> simp

/-! ## Folding -/

/-- A compiled text with the first head of a declaration replaced, its ends trimmed. -/
def folded (head compiled : String) : String :=
  String.ofList (dropSemicolon (trim (replaceHead head.toList compiled.toList)))

theorem toList_render_append (declaration : Declaration String)
    (h_plain : declaration.description = none) (others : String) :
    (declaration.render ++ others).toList =
      (Declaration.head declaration.form declaration.name).toList ++
        (declaration.type.render.toList ++ '\n' :: others.toList) := by
  rw [Declaration.render, h_plain]
  simp [docCommentOf]

/-- What is left when the head of the first declaration of a text is replaced. -/
theorem replaceHead_render {declaration : Declaration String} (h_leads : Leads declaration)
    (put : List Char) (others : String) :
    (declaration.form = .alias ∧ '$' ∉ declaration.name.toList ∧
      replaceHead put (declaration.render ++ others).toList =
        put ++ (declaration.type.render.toList ++ '\n' :: others.toList)) ∨
    (¬ (declaration.form = .alias ∧ '$' ∉ declaration.name.toList) ∧
      ∃ first more, Text.isBlank first = false ∧
        replaceHead put (declaration.render ++ others).toList =
          exportKeyword declaration.form ++ replaceHead put (first :: more)) := by
  rw [toList_render_append declaration h_leads.plain others]
  by_cases h_word : declaration.form = .alias ∧ '$' ∉ declaration.name.toList
  · refine .inl ⟨h_word.1, h_word.2, ?_⟩
    rw [h_word.1]
    exact replaceHead_alias h_leads.legible.name h_word.2 put _
  · have h_rest : declaration.form = .interface →
        (declaration.type.render.toList ++ '\n' :: others.toList).head? ≠ some '=' := by
      intro h_form
      rw [List.head?_append, h_leads.braced h_form]
      exact fun h_brace => absurd (Option.some.inj h_brace) (by decide)
    have h_after := afterHead?_head h_leads.legible.name h_rest
    rw [if_neg h_word] at h_after
    obtain ⟨first, chars, h_name⟩ := List.exists_cons_of_ne_nil h_leads.legible.name.ne_nil
    have h_first := h_leads.legible.name.inside first (by simp [h_name])
    rw [head_eq, List.append_assoc] at h_after
    have h_kept := replaceHead_keyword put h_after
    rw [← List.append_assoc, ← head_eq, h_name, List.cons_append, List.cons_append] at h_kept
    exact .inr ⟨h_word, first, _, Name.isBlank_of_inIdentifier h_first, h_kept⟩

/-- Where more than one declaration is compiled, an export is left. -/
theorem exportedNames_next_ne_nil {next : Declaration String} (h_legible : Legible next)
    (front : List Char) (others : String) :
    exportedNames (String.ofList (dropSemicolon (trim
      (front ++ '\n' :: (next.render ++ others).toList)))) ≠ [] := by
  obtain ⟨first, tail, h_laid⟩ := exists_laid h_legible
  obtain ⟨c, chars, h_name⟩ := List.exists_cons_of_ne_nil h_legible.name.ne_nil
  have h_unblank : Text.isBlank c = false :=
    Name.isBlank_of_inIdentifier (h_legible.name.inside c (by simp [h_name]))
  have h_text : front ++ '\n' :: (next.render ++ others).toList =
      (front ++ '\n' :: closed (commentLinesOf next.description)) ++
        (exportKeyword next.form ++
          (next.name.toList ++ ' ' :: (first ++ '\n' :: (closed tail ++ others.toList)))) := by
    rw [String.toList_append, h_laid.render_eq, Text.Chars.closed_append, Text.Chars.closed_cons]
    simp
  rw [h_text]
  refine exportedNames_fold_ne_nil ?_ ⟨c, by simp [h_name], h_unblank⟩ next.form
  rcases List.eq_nil_or_concat' (commentLinesOf next.description) with
    h_none | ⟨lines, line, h_lines⟩
  · exact .inr ⟨front, by rw [h_none]; rfl⟩
  · refine .inr ⟨front ++ '\n' :: (closed lines ++ line), ?_⟩
    rw [h_lines, Text.Chars.closed_append, Text.Chars.closed_cons]
    simp

theorem dropSemicolon_of_getLast? {text : List Char} (h_last : text.getLast? ≠ some ';') :
    dropSemicolon text = text := by
  rw [dropSemicolon]
  cases h_before : Text.Chars.before? [';'] text with
  | none => rfl
  | some kept =>
    rw [Text.Chars.before?_eq_some_iff] at h_before
    exact absurd (by rw [h_before, List.getLast?_concat]) h_last

theorem length_dropSemicolon_le (text : List Char) : (dropSemicolon text).length ≤ text.length := by
  rw [dropSemicolon]
  cases h_before : Text.Chars.before? [';'] text with
  | none => exact Nat.le_refl _
  | some kept =>
    rw [Text.Chars.before?_eq_some_iff] at h_before
    simp [h_before]

/-- Trimming the ends of a text that ends in no semicolon leaves it alone when it has no blanks
    there, and only then. -/
theorem dropSemicolon_trim_iff {text : List Char} (h_last : text.getLast? ≠ some ';') :
    dropSemicolon (trim text) = text ↔ trim text = text := by
  constructor
  · intro h_same
    have h_dropped := length_dropSemicolon_le (trim text)
    rw [h_same] at h_dropped
    have h_front := List.dropWhile_suffix Text.isBlank (l := text)
    have h_back := Text.Chars.dropWhileEnd_prefix Text.isBlank (text.dropWhile Text.isBlank)
    have h_whole : text.dropWhile Text.isBlank = text :=
      h_front.eq_of_length_le (Nat.le_trans h_dropped h_back.length_le)
    rw [trim, h_whole] at h_dropped ⊢
    rw [h_whole] at h_back
    exact h_back.eq_of_length_le h_dropped
  · intro h_same
    rw [h_same, dropSemicolon_of_getLast? h_last]

/-- A head and a type that are folded, without the line feed behind them, are all of the text when
    no other blanks are trimmed. -/
theorem folded_type_iff {type : String} (h_type : type ≠ "")
    (h_last : type.toList.getLast? ≠ some ';') (head : String) :
    String.ofList (dropSemicolon (trim (head.toList ++ (type.toList ++ ['\n'])))) = head ++ type ↔
      Text.trim (head ++ type) = head ++ type := by
  have h_chars : type.toList ≠ [] := fun h_nil => h_type (String.toList_eq_nil_iff.mp h_nil)
  have h_whole : (head.toList ++ type.toList).getLast? ≠ some ';' := by
    rw [List.getLast?_append_of_ne_nil _ h_chars]
    exact h_last
  rw [← List.append_assoc, Text.Chars.trim_concat (by decide), Text.trim, ← String.toList_inj,
    ← String.toList_inj, String.toList_ofList, String.toList_ofList, String.toList_append]
  exact dropSemicolon_trim_iff h_whole

/-- What is compiled is folded into the head and the type of its first declaration when this is the
    only one, an alias under a name of word characters, and no blanks are trimmed. Else the text is
    another one, or has an export. -/
theorem folded_render_iff {declaration : Declaration String}
    {others : List (Declaration String)} (h_leads : Leads declaration)
    (h_legible : ∀ next ∈ others, Legible next) {head : String} (h_head : ':' ∈ head.toList)
    (h_type : declaration.type.render ≠ "") :
    (folded head (String.join ((declaration :: others).map Declaration.render)) =
        head ++ declaration.type.render ∧
      exportedNames (folded head
        (String.join ((declaration :: others).map Declaration.render))) = []) ↔
    exportedNames (head ++ declaration.type.render) = [] ∧ others = [] ∧
      (declaration.form = .alias ∧ '$' ∉ declaration.name.toList) ∧
      Text.trim (head ++ declaration.type.render) = head ++ declaration.type.render := by
  have h_put : ∃ c ∈ head.toList, Text.isBlank c = false := ⟨':', h_head, by decide⟩
  rw [folded, List.map_cons, String.join_cons]
  -- the head is replaced, or it stays and what is folded exports it
  rcases replaceHead_render h_leads head.toList (String.join (others.map Declaration.render)) with
    ⟨h_form, h_dollar, h_text⟩ | ⟨h_word, first, more, h_first, h_text⟩
  · cases others with
    | nil =>
      have h_end : (String.join (([] : List (Declaration String)).map Declaration.render)).toList =
          [] := rfl
      have h_same := folded_type_iff h_type h_leads.closed head
      rw [h_text, h_end]
      constructor
      · rintro ⟨h_folded, h_exports⟩
        rw [h_folded] at h_exports
        exact ⟨h_exports, rfl, ⟨h_form, h_dollar⟩, h_same.mp h_folded⟩
      · rintro ⟨h_exports, -, -, h_blanks⟩
        have h_folded := h_same.mpr h_blanks
        rw [h_folded]
        exact ⟨rfl, h_exports⟩
    | cons next others =>
      rw [h_text, List.map_cons, String.join_cons, ← List.append_assoc]
      have h_exports := exportedNames_next_ne_nil (h_legible next List.mem_cons_self)
        (head.toList ++ declaration.type.render.toList)
        (String.join (others.map Declaration.render))
      constructor
      · rintro ⟨-, h_none⟩
        exact absurd h_none h_exports
      · rintro ⟨-, h_single, -⟩
        cases h_single
  · have h_exports := exportedNames_fold_ne_nil (.inl rfl)
      (exists_unblank_replaceHead h_put h_first more) declaration.form
    rw [List.nil_append] at h_exports
    rw [h_text]
    constructor
    · rintro ⟨-, h_none⟩
      exact absurd h_none h_exports
    · rintro ⟨-, -, h_alias, -⟩
      exact absurd h_alias h_word

/-! ## Parameters -/

/-- A parameter that is written directly is its name, a question mark if it may be left out, and its
    type. -/
theorem argument_of_isDirect (h_direct : IsDirect (schemaOf parameter)) :
    ∃ type, argumentType? definitions parameter = some type ∧
      argument typeScript definitions parameter = .ok (argumentHead parameter ++ type) := by
  simp only [argumentType?, argument]
  by_cases h_array : (schemaOf parameter).textAt? "type" = some "array"
  · refine ⟨_, if_pos h_array, ?_⟩
    rw [schemaOf] at h_array ⊢
    rw [if_pos h_array, argumentHead, ← String.append_assoc]
  · have h_some := h_direct.resolve_left h_array
    obtain ⟨shared, h_shared⟩ := Option.isSome_iff_exists.mp h_some
    refine ⟨shared, by rw [if_neg h_array, h_shared], ?_⟩
    rw [schemaOf] at h_array h_shared
    rw [if_neg h_array, h_shared]
    rfl

/-- Whether nothing that is compiled for a parameter has the marker of placeholders. -/
def IsUnmarked (definitions : Definitions) (parameter : Parameter) : Prop :=
  ∀ compiled, typeScript (withoutDescription (schemaOf parameter)) (argumentName parameter)
    definitions = .ok compiled → Text.contains Definitions.marker compiled = false

/-- Any other parameter is folded from what its schema is compiled to, placeholders scrubbed. -/
theorem argument_of_compiled (h_direct : ¬ IsDirect (schemaOf parameter))
    (h_text : argument typeScript definitions parameter = .ok text) :
    ∃ compilation, compile definitions (argumentName parameter)
        (withoutDescription (schemaOf parameter)) = .ok compilation ∧
      argumentType? definitions parameter =
        compilation.made.head?.map (fun declaration => declaration.type.render) ∧
      text = folded (argumentHead parameter) (scrub compilation.render) := by
  rw [IsDirect, not_or, Option.isSome_iff_ne_none, ne_eq, not_not] at h_direct
  obtain ⟨h_array, h_reference⟩ := h_direct
  simp only [argumentType?]
  rw [if_neg h_array, h_reference]
  rw [schemaOf] at h_array h_reference
  simp only [argument] at h_text
  rw [if_neg h_array, h_reference] at h_text
  obtain ⟨cleaned, h_clean, h_folded⟩ := Outcome.bind_eq_ok_iff.mp h_text
  obtain ⟨compilation, h_compile, rfl⟩ := clean_eq_ok_iff.mp h_clean
  rw [← schemaOf] at h_compile
  exact ⟨compilation, h_compile, by rw [h_compile], (Except.ok.inj h_folded).symm⟩

/-- Without the marker, nothing is scrubbed. -/
theorem scrub_render_of_isUnmarked (h_unmarked : IsUnmarked definitions parameter)
    (h_compile : compile definitions (argumentName parameter)
      (withoutDescription (schemaOf parameter)) = .ok compilation) :
    scrub compilation.render = compilation.render := by
  apply scrub_of_not_contains
  exact h_unmarked _ (typeScript_eq_ok_iff.mpr ⟨compilation, h_compile, rfl⟩)

theorem colon_mem_argumentHead (parameter : Parameter) : ':' ∈ (argumentHead parameter).toList := by
  simp [argumentHead]

/-- Where a parameter is written, it is written as a fragment exactly when its schema folds into
    one: a list, a reference, or a schema that is compiled to one alias under a name of word
    characters. -/
theorem argument_isFragment_iff (definitions : Definitions) (parameter : Parameter) (text : String)
    (h_schema : (schemaOf parameter).WellFormed) (h_unmarked : IsUnmarked definitions parameter)
    (h_text : argument typeScript definitions parameter = .ok text) :
    IsFragment definitions parameter text ↔ Folds definitions parameter := by
  -- a direct type is written behind the head as it is; anything else is compiled and folded
  by_cases h_direct : IsDirect (schemaOf parameter)
  · obtain ⟨type, h_type, h_argument⟩ := @argument_of_isDirect definitions parameter h_direct
    rw [h_text, Except.ok.injEq] at h_argument
    subst h_argument
    constructor
    · rintro ⟨own, h_own, h_some, h_same, h_exports⟩
      rw [h_same] at h_exports
      exact ⟨own, h_own, h_some, h_exports, .inl h_direct⟩
    · rintro ⟨own, h_own, h_some, h_exports, -⟩
      rw [h_type, Option.some.injEq] at h_own
      subst h_own
      exact ⟨type, h_type, h_some, rfl, h_exports⟩
  · obtain ⟨compilation, h_compile, h_type, rfl⟩ :=
      argument_of_compiled h_direct h_text
    obtain ⟨declaration, others, h_made, h_leads, -, -⟩ := exists_leads h_schema h_compile
    have h_legible : ∀ next ∈ others, Legible next := fun next h_next =>
      legible_of_compile h_compile next (by rw [h_made]; exact List.mem_cons_of_mem _ h_next)
    rw [h_made, List.head?_cons, Option.map_some] at h_type
    rw [scrub_render_of_isUnmarked h_unmarked h_compile, Compilation.render, h_made]
    constructor
    · rintro ⟨type, h_own, h_some, h_folds⟩
      rw [h_type, Option.some.injEq] at h_own
      subst h_own
      obtain ⟨h_exports, rfl, h_alias, h_blanks⟩ := (folded_render_iff h_leads h_legible
        (colon_mem_argumentHead parameter) h_some).mp h_folds
      obtain ⟨roster, made⟩ := compilation
      obtain rfl : made = [declaration] := h_made
      exact ⟨_, h_type, h_some, h_exports, .inr ⟨⟨roster, declaration, h_compile, h_alias⟩,
        h_blanks⟩⟩
    · rintro ⟨type, h_own, h_some, h_exports, h_direct' | ⟨⟨roster, single, h_single, h_alias⟩,
        h_blanks⟩⟩
      · exact absurd h_direct' h_direct
      · rw [h_type, Option.some.injEq] at h_own
        subst h_own
        rw [h_compile, Except.ok.injEq] at h_single
        subst h_single
        obtain ⟨rfl, rfl⟩ := List.cons.inj h_made
        exact ⟨_, h_type, h_some, (folded_render_iff h_leads h_legible
          (colon_mem_argumentHead parameter) h_some).mpr ⟨h_exports, rfl, h_alias, h_blanks⟩⟩

/-- A parameter with a whole number. -/
def countParameter : Parameter :=
  { (default : Parameter) with
    name := "count"
    required := true
    schema := some (.object [("type", .text "integer"), ("format", .text "int64")]) }

/-- A whole number folds. -/
theorem countParameter_isFragment :
    (schemaOf countParameter).WellFormed ∧ IsUnmarked default countParameter ∧
      argument typeScript default countParameter = .ok "count: number" ∧
      IsFragment default countParameter "count: number" := by
  have h_schema : (schemaOf countParameter).WellFormed := by
    simp [schemaOf, countParameter, Json.WellFormed, Json.WellFormedFields]
  have h_compiled : typeScript (withoutDescription (schemaOf countParameter))
      (argumentName countParameter) default = .ok "export type Count = number\n" := by
    with_unfolding_all rfl
  have h_unmarked : IsUnmarked default countParameter := by
    intro compiled h_own
    rw [h_compiled, Except.ok.injEq] at h_own
    subst h_own
    decide +kernel
  have h_text : argument typeScript default countParameter = .ok "count: number" :=
    Outcome.eq_ok_of_toOption (by decide +kernel)
  have h_folds : Folds default countParameter :=
    ⟨"number", by with_unfolding_all rfl, by decide, by decide +kernel,
      .inr ⟨⟨_, _, by with_unfolding_all rfl, rfl, by decide +kernel⟩, by decide +kernel⟩⟩
  exact ⟨h_schema, h_unmarked, h_text,
    (argument_isFragment_iff default countParameter _ h_schema h_unmarked h_text).mpr h_folds⟩

/-- A parameter with an object. -/
def filterParameter : Parameter :=
  { (default : Parameter) with
    name := "filter"
    required := true
    schema := some (.object [("type", .text "object"),
      ("properties", .object [("a", .object [("type", .text "string")])])]) }

/-- An object keeps its export: it is declared as an interface, which has no equals sign. -/
theorem filterParameter_not_isFragment :
    argument typeScript default filterParameter =
        .ok "export interface Filter \x7b\na?: string\n[k: string]: any\n\x7d" ∧
      ¬ IsFragment default filterParameter
        "export interface Filter \x7b\na?: string\n[k: string]: any\n\x7d" := by
  refine ⟨Outcome.eq_ok_of_toOption (by decide +kernel), ?_⟩
  rintro ⟨type, -, -, -, h_exports⟩
  exact absurd h_exports (by decide +kernel)

end OpenApiTs.Endpoint
