/-
  OpenApiTs.Proofs.Schema.Joined

  Schemas whose types are joined: combinations with several members, lists of values and lists of
  types. Inside an array or another combination such a type needs parentheses of its own. Its text
  gets them, but for two cases: an object leads it, or it begins and ends with the parentheses of
  two different parts.
-/
import OpenApiTs.Proofs.Schema.Legible
import OpenApiTs.Proofs.Schema.Neutral
import OpenApiTs.Proofs.TypeScript.Bracketed

namespace OpenApiTs.Schema

open OpenApiTs.Outcome (bind_eq_ok_iff mapM_eq_ok_iff exists_item_of_mapM exists_split_partner)
open OpenApiTs.TypeScript
open OpenApiTs.TypeScript.TypeExpr (bracketedAtEnds)

variable {definitions : Definitions} {root word : String} {schema : Json} {fields : Entries Json}
  {type : TypeExpr Mention} {roster : Roster}

/-! ## Words and names -/

/-- Whether a text begins with no brace and ends with no parenthesis. -/
structure Plain (text : String) : Prop where
  no_brace : text.toList.head? ≠ some '\x7b'
  no_closing : text.toList.getLast? ≠ some ')'

theorem Plain.of_not_mem {text : String} (h_brace : '\x7b' ∉ text.toList)
    (h_closing : ')' ∉ text.toList) : Plain text :=
  ⟨fun h_head => h_brace (List.mem_of_head? h_head),
    fun h_last => h_closing (List.mem_of_getLast? h_last)⟩

theorem plain_any : Plain "any" := .of_not_mem (by decide) (by decide)

/-- Literals are plain. Inside a text brackets may stand anywhere but at the ends. -/
theorem plain_literal (value : Json) : Plain (literal value) := by
  cases value with
  | null => exact .of_not_mem (by decide) (by decide)
  | bool value => cases value <;> exact .of_not_mem (by decide) (by decide)
  | number value =>
    have h_numeric := Number.isNumeric_of_mem_print value
    -- a number has no character but those that numbers are printed with
    have h_not {c : Char} (h_c : Number.isNumeric c = false) : c ∉ value.print.toList := by
      intro h_mem
      rw [h_numeric c h_mem] at h_c
      cases h_c
    exact .of_not_mem (h_not (by decide)) (h_not (by decide))
  | text value =>
    -- quotation marks stand at both ends
    have h_quote : (literal (.text value)).toList = '"' :: value.toList.flatMap Json.escape ++ ['"'] :=
      String.toList_ofList
    refine ⟨?_, ?_⟩ <;> rw [h_quote]
    · simp
    · rw [List.getLast?_concat]
      decide
  | array items => exact plain_any
  | object fields => exact plain_any

/-- The words of types are plain. -/
theorem plain_of_isSchemaWord (h_word : IsSchemaWord word) : Plain word := by
  rcases h_word with h_primitive | ⟨value, rfl⟩
  · simp only [List.mem_cons, List.not_mem_nil, or_false] at h_primitive
    rcases h_primitive with rfl | rfl | rfl | rfl | rfl | rfl <;>
      exact .of_not_mem (by decide) (by decide)
  · exact plain_literal value

theorem plain_of_coined {name : String} (h_coined : Coined name) : Plain name :=
  .of_not_mem (h_coined.isWord.not_mem (by decide)) (h_coined.isWord.not_mem (by decide))

/-! ## Texts of shapes -/

/-- A type with its names chosen from a roster on. -/
def namedFrom (definitions : Definitions) (root : String) (roster : Roster)
    (type : TypeExpr Mention) : TypeExpr String :=
  (type.rename (Roster.choose definitions root) roster).1

/-- The text of a type whose names are chosen from a roster on. -/
def textFrom (definitions : Definitions) (root : String) (roster : Roster)
    (type : TypeExpr Mention) : String :=
  (namedFrom definitions root roster type).render

/-- The words and names in the text of a shape are plain. -/
theorem plain_namedFrom (definitions : Definitions) (h_root : Coined root)
    (h_words : ∀ word ∈ type.words, IsSchemaWord word) (roster : Roster) :
    ∀ text ∈ (namedFrom definitions root roster type).words ++
      (namedFrom definitions root roster type).mentions, Plain text := by
  intro text h_text
  -- words stay as they are, and mentions have become names
  rcases List.mem_append.mp h_text with h_word | h_name
  · rw [namedFrom, TypeExpr.words_rename] at h_word
    exact plain_of_isSchemaWord (h_words text h_word)
  · have h_names := congrArg Prod.fst
      (TypeExpr.rename_eq_chooseAll (Roster.choose definitions root) type roster)
    simp only at h_names
    rw [namedFrom, h_names] at h_name
    exact plain_of_coined (TypeExpr.chooseAll_forall (P := Coined)
      (fun mention _ state => coined_choose h_root mention state) text h_name)

/-- The text of a shape that joins two parts or more is put in parentheses of its own exactly when
    no object leads it and its first and last part do not open and close with parentheses. -/
theorem parenthesize_textFrom_iff (definitions : Definitions) (h_root : Coined root)
    (h_words : ∀ word ∈ type.words, IsSchemaWord word) (h_joins : 2 ≤ type.parts.length)
    (roster : Roster) :
    parenthesize (textFrom definitions root roster type) =
        "(" ++ textFrom definitions root roster type ++ ")" ↔
      type.ledByRecord = false ∧
        bracketedAtEnds (namedFrom definitions root roster type).partTexts = false := by
  have h_plain := plain_namedFrom definitions h_root h_words roster
  have h_parts : 2 ≤ (namedFrom definitions root roster type).parts.length := by
    rwa [namedFrom, TypeExpr.length_parts_rename]
  rw [textFrom, TypeExpr.parenthesize_render_iff h_parts fun text h_text =>
    (h_plain text h_text).no_brace, namedFrom, TypeExpr.ledByRecord_rename]

/-! ## Shapes that join parts -/

/-- An array binds more tightly than anything that joins types. -/
theorem standsAlone_arrayShape (h_shape : arrayShape fields = .ok type) :
    type.standsAlone = true := by
  rw [arrayShape] at h_shape
  split at h_shape
  · obtain ⟨parts, -, h_made⟩ := bind_eq_ok_iff.mp h_shape
    cases h_made
    rfl
  · obtain ⟨element, -, h_made⟩ := bind_eq_ok_iff.mp h_shape
    cases h_made
    rfl
  · cases h_shape
    rfl

theorem standsAlone_recordShape (h_shape : recordShape fields = .ok type) :
    type.standsAlone = true := by
  rw [recordShape] at h_shape
  obtain ⟨properties, -, h_shape⟩ := bind_eq_ok_iff.mp h_shape
  obtain ⟨index, -, h_made⟩ := bind_eq_ok_iff.mp h_shape
  cases h_made
  rfl

/-- A single kind of value is no joined type. -/
theorem standsAlone_ofKind {kind : String}
    (h_kind : ofKind kind (arrayShape fields) (recordShape fields) = .ok type) :
    type.standsAlone = true := by
  unfold ofKind at h_kind
  split at h_kind
  case h_6 => exact standsAlone_arrayShape h_kind
  case h_7 => exact standsAlone_recordShape h_kind
  all_goals
    cases h_kind
    rfl

/-- What joins parts has no title. -/
theorem fieldsShape_of_joins (h_shape : shape (.object fields) = .ok type)
    (h_joins : 2 ≤ type.parts.length) : fieldsShape fields = .ok type := by
  cases h_title : (Json.object fields).wordsAt? "title" with
  | some title =>
    rw [shape_of_titled h_title] at h_shape
    cases h_shape
    simp [TypeExpr.parts] at h_joins
  | none => rwa [shape_of_untitled h_title, bodyShape_object] at h_shape

/-- What joins parts is no reference. -/
theorem lookup_target_of_joins (h_shape : fieldsShape fields = .ok type)
    (h_joins : 2 ≤ type.parts.length) : fields.lookup "$ref" = none := by
  rw [fieldsShape_eq] at h_shape
  split at h_shape
  case h_1 =>
    cases h_shape
    simp [TypeExpr.parts] at h_joins
  case h_2 => cases h_shape
  case h_3 h_target => exact h_target

/-- Without a combination, a node that joins parts has a list of values or of types, which stand
    alone. -/
theorem alternatives_of_fieldsShape (h_found : combination? fields = none)
    (h_shape : fieldsShape fields = .ok type) (h_joins : 2 ≤ type.parts.length) :
    ∃ types, type = .alternatives types ∧ ∀ own ∈ types, own.standsAlone = true := by
  -- a type that stands alone has one part, so it joins nothing
  have h_single (h_alone : type.standsAlone = true) : False := by
    cases type with
    | alternatives types => cases h_alone
    | union types => cases h_alone
    | intersection types => cases h_alone
    | _ => simp [TypeExpr.parts] at h_joins
  have h_target := lookup_target_of_joins h_shape h_joins
  rw [fieldsShape_eq, h_target] at h_shape
  simp only [h_found, combinedShape, plainShape] at h_shape
  -- of what is left only an enumeration and a list of types join their parts, both as alternatives
  split at h_shape
  case h_1 values _ =>
    cases h_shape
    exact ⟨_, rfl, by simp [TypeExpr.standsAlone]⟩
  case h_2 =>
    split at h_shape
    case h_1 =>
      cases h_shape
      exact (h_single rfl).elim
    case h_2 =>
      split at h_shape
      case h_1 => exact (h_single (standsAlone_ofKind h_shape)).elim
      case h_2 =>
        obtain ⟨types, h_types, h_made⟩ := bind_eq_ok_iff.mp h_shape
        cases h_made
        refine ⟨types, rfl, fun own h_own => ?_⟩
        obtain ⟨kind, -, h_kind⟩ := exists_item_of_mapM h_types h_own
        unfold ofKindEntry at h_kind
        split at h_kind
        · exact standsAlone_ofKind h_kind
        · cases h_kind
      case h_3 => cases h_shape
      case h_4 =>
        split at h_shape
        · exact (h_single (standsAlone_recordShape h_shape)).elim
        · split at h_shape
          · exact (h_single (standsAlone_arrayShape h_shape)).elim
          · cases h_shape
            exact (h_single rfl).elim

/-- A list of values joins literals, none of which an object leads. -/
theorem ledByRecord_of_values {values : List Json} (h_target : fields.lookup "$ref" = none)
    (h_found : combination? fields = none)
    (h_values : (fields.lookup "enum").bind Json.items? = some values)
    (h_shape : fieldsShape fields = .ok type) : type.ledByRecord = false := by
  rw [fieldsShape_eq, h_target] at h_shape
  simp only [h_found, combinedShape, plainShape, h_values] at h_shape
  cases h_shape
  cases values with
  | nil => rfl
  | cons value values => rfl

/-- The text of a combination has that of each member at its place, in parentheses where it needs
    them. -/
theorem textFrom_combination (definitions : Definitions) (root : String)
    {combination : Combination} {before after : List Json} {whole : TypeExpr Mention}
    (h_target : fields.lookup "$ref" = none)
    (h_found : combination? fields = some (combination, .array (before ++ schema :: after)))
    (h_whole : fieldsShape fields = .ok whole) (h_shape : shape schema = .ok type)
    (roster : Roster) :
    ∃ lead later rest, lead.length = before.length ∧ rest.length = after.length ∧
      textFrom definitions root roster whole = whole.separator.intercalate
        (lead ++ parenthesize (textFrom definitions root later type) :: rest) := by
  rw [fieldsShape_eq, h_target] at h_whole
  simp only [h_found, combinedShape] at h_whole
  obtain ⟨types, h_types, h_made⟩ := bind_eq_ok_iff.mp h_whole
  cases h_made
  rw [shapeAll_eq_mapM] at h_types
  obtain ⟨front, own, back, rfl, h_front, h_back, h_own⟩ :=
    exists_split_partner (mapM_eq_ok_iff.mp h_types)
  obtain rfl : type = own := Except.ok.inj (h_shape.symm.trans h_own)
  -- the names of the member are chosen after those of the members before it
  set written := namedFrom definitions root roster (combination.join (front ++ type :: back))
    with h_written
  have h_texts : written.partTexts = (TypeExpr.renderAll (TypeExpr.renameAll
      (Roster.choose definitions root) (front ++ type :: back) roster).1).map parenthesize := by
    cases combination <;> rfl
  have h_separator : written.separator = (combination.join (front ++ type :: back)).separator := by
    cases combination <;> rfl
  rw [TypeExpr.renameAll_append, TypeExpr.renameAll, TypeExpr.renderAll_eq_map, List.map_append,
    List.map_cons, List.map_append, List.map_cons] at h_texts
  have h_render : written.render = written.separator.intercalate written.partTexts :=
    TypeExpr.render_eq_intercalate (by simp [h_texts])
  rw [h_separator, h_texts] at h_render
  refine ⟨_, _, _, ?_, ?_, h_render⟩
  · simp [TypeExpr.length_renameAll, h_front]
  · simp [TypeExpr.length_renameAll, h_back]

/-! ## Parentheses -/

/-- A schema that joins two parts or more is written into an array and into a combination with what
    `parenthesize` makes of its text. That is the text in a pair of parentheses of its own exactly
    when no object leads the type and its first and last part do not open and close with
    parentheses. A list of types only has to be led by no object, and a list of values is always
    enclosed. -/
theorem joined_enclosed_iff (definitions : Definitions) (name : String) (schema : Json)
    (type : TypeExpr Mention) (h_shape : shape schema = .ok type)
    (h_joins : 2 ≤ type.parts.length) :
    (∀ fields roster, fields.lookup "items" = some schema →
      arrayShape fields = .ok (.array type) ∧
        textFrom definitions (Name.identifier name) roster (.array type) =
          parenthesize (textFrom definitions (Name.identifier name) roster type) ++ "[]") ∧
    (∀ fields combination before after whole roster, fields.lookup "$ref" = none →
      combination? fields = some (combination, .array (before ++ schema :: after)) →
      fieldsShape fields = .ok whole →
        ∃ lead later rest, lead.length = before.length ∧ rest.length = after.length ∧
          textFrom definitions (Name.identifier name) roster whole = whole.separator.intercalate
            (lead ++
              parenthesize (textFrom definitions (Name.identifier name) later type) :: rest)) ∧
    (∀ roster, parenthesize (textFrom definitions (Name.identifier name) roster type) =
        "(" ++ textFrom definitions (Name.identifier name) roster type ++ ")" ↔
      type.ledByRecord = false ∧ bracketedAtEnds
        (namedFrom definitions (Name.identifier name) roster type).partTexts = false) ∧
    ∀ fields, schema = .object fields → combination? fields = none →
      (∀ roster, parenthesize (textFrom definitions (Name.identifier name) roster type) =
          "(" ++ textFrom definitions (Name.identifier name) roster type ++ ")" ↔
        type.ledByRecord = false) ∧
      ∀ values, (fields.lookup "enum").bind Json.items? = some values →
        type.ledByRecord = false := by
  have h_root := coined_identifier name
  have h_words : ∀ word ∈ type.words, IsSchemaWord word := (shape_draws h_shape).words
  have h_iff := parenthesize_textFrom_iff definitions h_root h_words h_joins
  refine ⟨?_, ?_, h_iff, ?_⟩
  · intro fields roster h_items
    -- a list of schemas has no shape that joins types, so items are one schema
    have h_single : ∀ items, schema ≠ .array items := by
      rintro items rfl
      rw [shape_of_untitled rfl, bodyShape] at h_shape
      · cases h_shape
        simp [TypeExpr.parts, TypeExpr.any] at h_joins
      all_goals simp
    refine ⟨?_, rfl⟩
    rw [arrayShape_of_single h_items h_single, h_shape]
    rfl
  · intro fields combination before after whole roster h_target h_found h_whole
    exact textFrom_combination definitions _ h_target h_found h_whole h_shape roster
  · rintro fields rfl h_found
    have h_fields := fieldsShape_of_joins h_shape h_joins
    -- without a combination the parts are alternatives that stand alone, so only the first of them
    -- may begin with a brace
    obtain ⟨types, rfl, h_alone⟩ := alternatives_of_fieldsShape h_found h_fields h_joins
    refine ⟨fun roster => ?_, fun values h_values => ?_⟩
    · have h_plain := plain_namedFrom definitions h_root h_words roster
      -- and no last one ends in a bracket of its own
      have h_ends : bracketedAtEnds (namedFrom definitions (Name.identifier name) roster
          (.alternatives types)).partTexts = false :=
        TypeExpr.bracketedAtEnds_alternatives (TypeExpr.standsAlone_renameAll _ h_alone roster)
          fun text h_text => (h_plain text (List.mem_append_left _ h_text)).no_closing
      rw [h_iff roster, h_ends]
      exact and_iff_left rfl
    · exact ledByRecord_of_values (lookup_target_of_joins h_fields h_joins) h_found h_values h_fields

/-- A text that may be absent, as a list of types. -/
def nullableText : Json := .object [("type", .array [.text "string", .text "null"])]

/-- As the items of an array, the list of types is enclosed. -/
theorem nullableText_enclosed :
    shape nullableText = .ok (.alternatives [.word "string", .word "null"]) ∧
      2 ≤ (TypeExpr.alternatives [.word "string", .word "null"] : TypeExpr Mention).parts.length ∧
      textFrom ⟨[], []⟩ (Name.identifier "body") [] (.array (.alternatives
        [.word "string", .word "null"])) = "(string | null)[]" := by
  have h_shape : shape nullableText = .ok (.alternatives [.word "string", .word "null"]) := by
    with_unfolding_all rfl
  have h_joins :
      2 ≤ (TypeExpr.alternatives [.word "string", .word "null"] : TypeExpr Mention).parts.length := by
    decide
  obtain ⟨h_items, -, -, h_plain⟩ :=
    joined_enclosed_iff ⟨[], []⟩ "body" nullableText _ h_shape h_joins
  have h_array := (h_items [("items", nullableText)] [] rfl).2
  have h_enclosed := ((h_plain _ rfl rfl).1 []).mpr rfl
  refine ⟨h_shape, h_joins, ?_⟩
  rw [h_array, h_enclosed]
  decide +kernel

/-- A combination of combinations, which have two parts each. -/
def pairOfUnions : Json :=
  .object [("anyOf", .array
    [.object [("anyOf", .array
      [.object [("type", .text "string")], .object [("type", .text "number")]])],
     .object [("anyOf", .array
      [.object [("type", .text "boolean")], .object [("type", .text "null")]])]])]

/-- It begins and ends with the parentheses of its parts, so as the items of an array it has none of
    its own, and only its second part is read as repeated. -/
theorem pairOfUnions_not_enclosed :
    (∃ type, shape pairOfUnions = .ok type ∧ type.parts.length = 2 ∧
      textFrom ⟨[], []⟩ (Name.identifier "body") [] (.array type) ≠
        "(" ++ textFrom ⟨[], []⟩ (Name.identifier "body") [] type ++ ")[]") ∧
    typeScript pairOfUnions "body" ⟨[], []⟩ =
      .ok "export type Body = (string | number) | (boolean | null)\n" ∧
    typeScript (.object [("items", pairOfUnions)]) "body" ⟨[], []⟩ =
      .ok "export type Body = (string | number) | (boolean | null)[]\n" := by
  refine ⟨⟨?_, ?_, ?_, ?_⟩, ?_, ?_⟩
  rotate_left
  · with_unfolding_all rfl
  · rfl
  · decide +kernel
  · with_unfolding_all rfl
  · with_unfolding_all rfl

end OpenApiTs.Schema
