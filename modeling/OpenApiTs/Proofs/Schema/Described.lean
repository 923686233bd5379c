/-
  OpenApiTs.Proofs.Schema.Described

  Where the comments of declarations come from. Each is the description of a schema that what is
  declared is made of, so whatever holds of all descriptions holds of all comments.

  The induction goes over the parts of schemas, which are smaller than these.
-/
import OpenApiTs.Proofs.Schema.Legible
import OpenApiTs.Proofs.Schema.Rendered
import OpenApiTs.Proofs.TypeScript.Heads
import OpenApiTs.Proofs.TypeScript.Keys

namespace OpenApiTs.Schema

open OpenApiTs.Outcome (Yields)
open OpenApiTs.TypeScript
open OpenApiTs.TypeScript.TypeExpr (headsAll headsMembers mentionsAll mentionsMembers)

variable {D : String → Prop} {definitions : Definitions} {root name : String} {schema node : Json}
  {fields : Entries Json} {compilation later : Compilation}

/-! ## Schemas in a schema -/

/-- What a schema is made of: the schema itself, and the parts of what it is made of, with a title
    or without. -/
inductive Subschema (schema : Json) : Json → Prop where
  | itself : Subschema schema schema
  | part {fields : Entries Json} {part : Json} (h_node : Subschema schema (.object fields))
      (h_part : Part fields part) : Subschema schema part

/-- Schemas that are looked into from a part are looked into from the whole. -/
theorem Subschema.trans {inner : Json} (h_outer : Subschema schema inner)
    (h_inner : Subschema inner node) : Subschema schema node := by
  induction h_inner with
  | itself => exact h_outer
  | part _ h_part ih => exact .part ih h_part

/-- Whether the descriptions of all that a schema is made of are texts of a kind. -/
def Described (D : String → Prop) (schema : Json) : Prop :=
  ∀ node, Subschema schema node → ∀ words ∈ description? node, D words

/-- A schema is looked into from itself, so its own description is meant as well. -/
theorem Described.own (h_schema : Described D schema) : ∀ words ∈ description? schema, D words :=
  h_schema schema .itself

theorem Described.part {part : Json} (h_fields : Described D (.object fields))
    (h_part : Part fields part) : Described D part :=
  fun node h_node => h_fields node ((Subschema.itself.part h_part).trans h_node)

/-- A part is a node of the object it is a part of, with all that it has. -/
theorem nodes_of_part {part : Json} (h_part : Part fields part) :
    part.nodes ⊆ (Json.object fields).nodes := by
  cases h_part with
  | member _ h_found h_member =>
    exact List.Subset.trans (Json.nodes_subset_of_mem_items h_member)
      (nodes_subset_of_combination? h_found)
  | item _ _ h_item =>
    -- items are one schema or a list of them, and each stands below its keyword
    unfold itemParts at h_item
    split at h_item
    · next items h_items =>
      exact List.Subset.trans (Json.nodes_subset_of_mem_items h_item)
        (Json.nodes_subset_of_lookup h_items)
    · next h_items =>
      rw [List.mem_singleton.mp h_item]
      exact Json.nodes_subset_of_lookup h_items
    · cases h_item
  | held _ _ h_held =>
    -- what an object holds is a property or the schema of the other keys
    rcases List.mem_append.mp h_held with h_property | h_index
    · unfold propertyParts at h_property
      split at h_property
      · next properties h_listed =>
        obtain ⟨entry, h_entry, rfl⟩ := List.mem_map.mp h_property
        intro inner h_inner
        exact Json.nodes_subset_of_lookup h_listed
          (Json.mem_nodes_object_iff.mpr (.inr ⟨entry, h_entry, h_inner⟩))
      · cases h_property
    · unfold indexParts at h_index
      split at h_index
      · cases h_index
      · cases h_index
      · next h_index_found =>
        rw [List.mem_singleton.mp h_index]
        exact Json.nodes_subset_of_lookup h_index_found

/-- Whatever a schema is looked into for stands in it. -/
theorem Subschema.nodes_subset (h_node : Subschema schema node) : node.nodes ⊆ schema.nodes := by
  induction h_node with
  | itself => exact List.Subset.refl _
  | part _ h_part ih => exact List.Subset.trans (nodes_of_part h_part) ih

/-- A schema is described by such texts when all of its nodes are. -/
theorem described_of_nodes (h_nodes : ∀ node ∈ schema.nodes, ∀ words ∈ description? node, D words) :
    Described D schema := by
  intro node h_node words h_words
  exact h_nodes node (h_node.nodes_subset (Json.mem_nodes_of_wordsAt? h_words)) words h_words

/-! ## Comments and titled nodes of shapes -/

/-- Whether a titled node is described by such texts. -/
def Mention.Described (D : String → Prop) : Mention → Prop
  | .titled _ node => Schema.Described D node
  | .reference _ => True

/-- Heads with comments of a kind, and mentions of nodes that are described by such texts. -/
structure Commented (D : String → Prop) (heads : List MemberHead) (mentions : List Mention) :
    Prop where
  heads : ∀ head ∈ heads, head.Commented D
  mentions : ∀ mention ∈ mentions, mention.Described D

/-- Whether a shape has such comments and mentions. -/
abbrev CommentedType (D : String → Prop) (type : TypeExpr Mention) : Prop :=
  Commented D type.heads type.mentions

namespace Commented

theorem nil : Commented D [] [] := ⟨by simp, by simp⟩

theorem word (text : String) : CommentedType D (.word text) := nil

/-- Types next to each other have the comments of both. -/
theorem append {heads heads' : List MemberHead} {mentions mentions' : List Mention}
    (h_front : Commented D heads mentions) (h_back : Commented D heads' mentions') :
    Commented D (heads ++ heads') (mentions ++ mentions') := by
  constructor
  · intro head h_mem
    exact (List.mem_append.mp h_mem).elim (h_front.heads head) (h_back.heads head)
  · intro mention h_mem
    exact (List.mem_append.mp h_mem).elim (h_front.mentions mention) (h_back.mentions mention)

theorem ofParts {parts : List (TypeExpr Mention)} (h_parts : ∀ part ∈ parts, CommentedType D part) :
    Commented D (headsAll parts) (mentionsAll parts) := by
  induction parts with
  | nil => exact nil
  | cons part parts ih =>
    rw [List.forall_mem_cons] at h_parts
    exact append h_parts.1 (ih h_parts.2)

/-- A member brings its own comment and what its type has. -/
theorem member {head : MemberHead} {type : TypeExpr Mention}
    {others : List (MemberHead × TypeExpr Mention)} (h_head : head.Commented D)
    (h_type : CommentedType D type)
    (h_others : Commented D (headsMembers others) (mentionsMembers others)) :
    Commented D (headsMembers ((head, type) :: others))
      (mentionsMembers ((head, type) :: others)) := by
  have h_both := h_type.append h_others
  refine ⟨?_, h_both.mentions⟩
  rw [headsMembers, List.forall_mem_cons]
  exact ⟨h_head, h_both.heads⟩

end Commented

/-! ## Shapes of schemas with such parts -/

/-- Whether the shape of a part, if it has one, has such comments and mentions, and its own
    description is such a text. -/
structure CommentedPart (D : String → Prop) (part : Json) : Prop where
  shape : Yields (CommentedType D) (shape part)
  description : ∀ words ∈ description? part, D words

/-- Shapes in a list are commented as each of them is. -/
theorem shapeAll_commented {schemas : List Json}
    (h_parts : ∀ part ∈ schemas, CommentedPart D part) :
    Yields (fun types => Commented D (headsAll types) (mentionsAll types)) (shapeAll schemas) := by
  induction schemas with
  | nil =>
    rw [shapeAll]
    exact .ok .nil
  | cons schema others ih =>
    rw [List.forall_mem_cons] at h_parts
    rw [shapeAll]
    refine h_parts.1.shape.bind fun first h_first => ?_
    exact (ih h_parts.2).bind fun rest h_rest => .ok (h_first.append h_rest)

/-- An array has the comments of what its items are. -/
theorem arrayShape_commented (h_parts : ∀ part ∈ itemParts fields, CommentedPart D part) :
    Yields (CommentedType D) (arrayShape fields) := by
  unfold itemParts at h_parts
  rw [arrayShape_eq]
  cases h_items : fields.lookup "items" with
  | none => exact .ok (Commented.word "any")
  | some items =>
    rw [h_items] at h_parts
    -- a list of items is shaped part by part, anything else as one part
    cases items with
    | array items => exact (shapeAll_commented h_parts).bind fun parts h_types => .ok h_types
    | _ =>
      have h_element := (h_parts _ (List.mem_singleton_self _)).shape
      exact h_element.bind fun element h_type => .ok h_type

theorem propertiesShape_commented (required : List String) {properties : List (String × Json)}
    (h_parts : ∀ entry ∈ properties, CommentedPart D entry.2) :
    Yields (fun members => Commented D (headsMembers members) (mentionsMembers members))
      (propertiesShape required properties) := by
  induction properties with
  | nil =>
    rw [propertiesShape]
    exact .ok .nil
  | cons entry others ih =>
    rw [List.forall_mem_cons] at h_parts
    rw [propertiesShape]
    refine h_parts.1.shape.bind fun type h_type => ?_
    exact (ih h_parts.2).bind fun rest h_rest => .ok (.member h_parts.1.description h_type h_rest)

/-- Properties have their descriptions above them and the comments of their schemas inside. -/
theorem listedShape_commented (h_parts : ∀ part ∈ propertyParts fields, CommentedPart D part) :
    Yields (fun members => Commented D (headsMembers members) (mentionsMembers members))
      (listedShape fields) := by
  unfold propertyParts at h_parts
  rw [listedShape_eq]
  cases h_listed : fields.lookup "properties" with
  | none => exact .ok .nil
  | some value =>
    rw [h_listed] at h_parts
    cases value with
    | object properties =>
      exact propertiesShape_commented (requiredNames fields) fun entry h_entry =>
        h_parts entry.2 (List.mem_map_of_mem h_entry)
    | _ => exact .ok .nil

/-- An index signature has no comment of its own. -/
theorem indexShape_commented (h_parts : ∀ part ∈ indexParts fields, CommentedPart D part) :
    Yields (fun members => Commented D (headsMembers members) (mentionsMembers members))
      (indexShape fields) := by
  have h_any : Commented D (headsMembers [(.index, .any)]) (mentionsMembers [(.index, .any)]) :=
    .member trivial (.word "any") .nil
  unfold indexParts at h_parts
  rw [indexShape_eq]
  split
  · exact .ok h_any
  · exact .ok h_any
  · exact .ok .nil
  · next schema h_true h_false h_index =>
    rw [h_index] at h_parts
    -- a schema that is no flag is a part of its own
    have h_part : CommentedPart D schema := by
      cases schema with
      | bool value => cases value <;> simp_all
      | _ => exact h_parts _ (List.mem_singleton_self _)
    exact h_part.shape.bind fun type h_type => .ok (.member trivial h_type .nil)

/-- A record is its properties and its index signature. -/
theorem recordShape_commented
    (h_parts : ∀ part ∈ propertyParts fields ++ indexParts fields, CommentedPart D part) :
    Yields (CommentedType D) (recordShape fields) := by
  rw [List.forall_mem_append] at h_parts
  rw [recordShape]
  refine (listedShape_commented h_parts.1).bind fun properties h_properties => ?_
  refine (indexShape_commented h_parts.2).bind fun index h_index => .ok ?_
  have h_both := h_properties.append h_index
  rwa [← TypeExpr.headsMembers_append, ← TypeExpr.mentionsMembers_append] at h_both

/-- The type for a word is that of the array or of the object only for their words. -/
theorem ofKind_commented {kind : String} {asArray asRecord : Shaped (TypeExpr Mention)}
    (h_array : kind = "array" → Yields (CommentedType D) asArray)
    (h_record : kind = "object" → Yields (CommentedType D) asRecord) :
    Yields (CommentedType D) (ofKind kind asArray asRecord) := by
  unfold ofKind
  split
  case h_6 => exact h_array rfl
  case h_7 => exact h_record rfl
  all_goals exact .ok (.word _)

/-- The shape of a node whose type counts. -/
theorem typedShape_commented (h_decides : TypeDecides fields)
    (h_parts : ∀ part, Part fields part → CommentedPart D part) :
    Yields (CommentedType D) (fieldsShape fields) := by
  -- that the object is an array or a record is what makes its items or properties its parts
  have h_array (h_kind : IsArray fields) : Yields (CommentedType D) (arrayShape fields) :=
    arrayShape_commented fun part h_part => h_parts part (.item h_decides h_kind h_part)
  have h_record (h_kind : IsRecord fields) : Yields (CommentedType D) (recordShape fields) :=
    recordShape_commented fun part h_part => h_parts part (.held h_decides h_kind h_part)
  rw [fieldsShape_of_typeDecides h_decides]
  split
  · next kind h_kind =>
    exact ofKind_commented (fun h_word => h_array (.inl (.inl (h_word ▸ h_kind))))
      fun h_word => h_record (.inl (.inl (h_word ▸ h_kind)))
  · next kinds h_kinds =>
    refine (Yields.mapM fun kind h_kind => ?_).bind fun parts h_types => .ok (.ofParts h_types)
    unfold ofKindEntry
    split
    · exact ofKind_commented
        (fun h_word => h_array (.inl (.inr ⟨kinds, h_kinds, h_word ▸ h_kind⟩)))
        fun h_word => h_record (.inl (.inr ⟨kinds, h_kinds, h_word ▸ h_kind⟩))
    · exact .error _
  · exact .error _
  · next h_kind =>
    split
    · next h_looks => exact h_record (.inr ⟨h_kind, h_looks⟩)
    · next h_looks =>
      split
      · next h_items => exact h_array (.inr ⟨h_kind, by simpa using h_looks, h_items⟩)
      · exact .ok (.word "any")

/-- The parts of an object are what its shape is made of, whatever keyword decides. -/
theorem fieldsShape_commented (h_parts : ∀ part, Part fields part → CommentedPart D part) :
    Yields (CommentedType D) (fieldsShape fields) := by
  -- one keyword after the other, as the shape asks for them; each case but the last says why the
  -- later ones do not count
  cases h_target : fields.lookup "$ref" with
  | some value =>
    rw [fieldsShape_eq, h_target]
    cases value with
    | text target =>
      exact .ok ⟨by simp [TypeExpr.heads], by simp [TypeExpr.mentions, Mention.Described]⟩
    | _ => exact .error _
  | none =>
    cases h_found : combination? fields with
    | some found =>
      obtain ⟨combination, members⟩ := found
      rw [fieldsShape_eq, h_target, h_found]
      cases members with
      | array members =>
        refine (shapeAll_commented fun part h_part =>
          h_parts part (.member h_target h_found h_part)).bind fun types h_types => .ok ?_
        cases combination <;> exact h_types
      | _ => exact .error _
    | none =>
      cases h_values : (fields.lookup "enum").bind Json.items? with
      | some values =>
        rw [fieldsShape_eq, h_target, h_found]
        simp only [combinedShape, plainShape, h_values]
        refine .ok (.ofParts fun part h_part => ?_)
        obtain ⟨value, -, rfl⟩ := List.mem_map.mp h_part
        exact .word _
      | none =>
        cases h_value : fields.lookup "const" with
        | some value =>
          rw [fieldsShape_eq, h_target, h_found]
          simp only [combinedShape, plainShape, h_values, h_value]
          exact .ok (.word _)
        | none => exact typedShape_commented ⟨h_target, h_found, h_values, h_value⟩ h_parts

/-- What a schema is declared with has comments that are descriptions in it. -/
theorem bodyShape_commented {schema : Json} (h_schema : Described D schema) :
    Yields (CommentedType D) (bodyShape schema) := by
  match schema with
  | .object fields =>
    rw [bodyShape_object]
    refine fieldsShape_commented fun part h_part => ?_
    -- parts are smaller, so what is said of bodies may be used for them
    have h_less := h_part.sizeOf_lt
    have h_described := h_schema.part h_part
    refine ⟨?_, h_described.own⟩
    -- a titled part is only mentioned here, with its descriptions for the declaration it gets
    cases h_title : part.wordsAt? "title" with
    | some title =>
      rw [shape_of_titled h_title]
      exact .ok ⟨by simp [TypeExpr.heads], by simpa [TypeExpr.mentions, Mention.Described]⟩
    | none =>
      rw [shape_of_untitled h_title]
      exact bodyShape_commented h_described
  | .bool false =>
    rw [bodyShape]
    exact .ok (.word "never")
  | .null | .bool true | .number _ | .text _ | .array _ =>
    rw [bodyShape]
    · exact .ok (.word "any")
    all_goals simp
termination_by sizeOf schema
decreasing_by
  simp only [Json.object.sizeOf_spec]
  omega

/-! ## Declarations -/

/-- A declaration whose comments are such texts: that above it, and those above its members. -/
structure CommentedDeclaration {ν : Type} (D : String → Prop) (declaration : Declaration ν) :
    Prop where
  description : ∀ words ∈ declaration.description, D words
  heads : ∀ head ∈ declaration.type.heads, head.Commented D

theorem declare_commented {plain : Declaration Mention} (h_schema : Described D schema)
    (h_declare : declare name schema = .ok plain) :
    CommentedDeclaration D plain ∧ ∀ mention ∈ plain.type.mentions, mention.Described D := by
  rw [declare_eq, outline_eq_bodyShape] at h_declare
  obtain ⟨type, h_type, rfl⟩ := Outcome.map_eq_ok_iff.mp h_declare
  have h_commented := bodyShape_commented h_schema type h_type
  exact ⟨⟨h_schema.own, h_commented.heads⟩, h_commented.mentions⟩

/-- Whether all claims are for schemas that are described by such texts, and all declarations have
    such comments. -/
structure AllCommented (D : String → Prop) (compilation : Compilation) : Prop where
  roster : ∀ entry ∈ compilation.roster, Described D entry.2
  made : ∀ declaration ∈ compilation.made, CommentedDeclaration D declaration

theorem Round.allCommented (h_definitions : ∀ entry ∈ definitions.schemas, Described D entry.2)
    (h_round : Round definitions root compilation later) (h_all : AllCommented D compilation) :
    AllCommented D later := by
  obtain ⟨h_next, h_declare⟩ := h_round
  rename_i own schema plain
  have h_schema : Described D schema := h_all.roster _ (List.mem_of_getElem? h_next)
  obtain ⟨h_plain, h_mentions⟩ := declare_commented h_schema h_declare
  constructor
  · intro entry h_entry
    simp only [roster_nameIn] at h_entry
    rcases Roster.mem_chooseEach h_entry with h_old | ⟨mention, h_written, h_stands⟩
    · exact h_all.roster entry h_old
    · -- a new claim is for a titled node of the schema, or for a definition
      cases mention with
      | titled title node =>
        obtain ⟨-, rfl⟩ := Roster.standsFor?_titled_iff.mp h_stands
        exact h_mentions _ (List.of_mem_zip h_written).1
      | reference target =>
        obtain ⟨key, -, h_key⟩ := Roster.definition?_eq_some_iff.mp h_stands
        exact h_definitions (key, entry.2) (Entries.mem_of_lookup h_key)
  · intro declaration h_mem
    rcases List.mem_append.mp h_mem with h_old | h_new
    · exact h_all.made declaration h_old
    · rw [List.mem_singleton.mp h_new]
      refine ⟨h_plain.description, ?_⟩
      have h_heads : (nameIn definitions root plain compilation.roster).1.type.heads =
          plain.type.heads :=
        TypeExpr.heads_rename (Roster.choose definitions root) plain.type compilation.roster
      rw [h_heads]
      exact h_plain.heads

/-- Everything that is compiled with definitions that are described by such texts has such
    comments. -/
theorem commented_of_compile (h_definitions : ∀ entry ∈ definitions.schemas, Described D entry.2)
    (h_schema : Described D schema)
    (h_compile : compile definitions name schema = .ok compilation) :
    ∀ declaration ∈ compilation.made, CommentedDeclaration D declaration := by
  refine (declareFrom_induction (P := AllCommented D)
    (fun before after h_round h_before => h_round.allCommented h_definitions h_before)
    _ ⟨[(Name.identifier name, schema)], []⟩ compilation ⟨?_, by simp⟩ h_compile).made
  intro entry h_entry
  rw [List.mem_singleton.mp h_entry]
  exact h_schema

/-! ## Carriage returns -/

/-- A literal is printed without control characters. -/
theorem le_code_literal (value : Json) : ∀ c ∈ (literal value).toList, 32 ≤ c.toNat := by
  have h_any : ∀ c ∈ "any".toList, 32 ≤ c.toNat := by decide
  have h_numeric : ∀ c ∈ ['.', 'e', '+', '-'], 32 ≤ c.toNat := by decide
  cases value with
  | null => decide
  | bool value => cases value <;> decide
  | number value =>
    intro c h_mem
    -- digits and the signs of numbers are above the blank
    have h_c := Number.isNumeric_of_mem_print value c h_mem
    rw [Number.isNumeric, Bool.or_eq_true, List.contains_iff_mem] at h_c
    rcases h_c with h_digit | h_sign
    · exact Nat.le_trans (by decide) (Char.isDigit_iff_toNat.mp h_digit).1
    · exact h_numeric c h_sign
  | text value => exact fun c h_mem => Json.le_code_of_mem_quote h_mem
  | array items => exact h_any
  | object fields => exact h_any

/-- The words of a type have no carriage return, whatever the document has. -/
theorem return_not_mem_of_isSchemaWord {word : String} (h_word : IsSchemaWord word) :
    '\r' ∉ word.toList := by
  rcases h_word with h_primitive | ⟨value, rfl⟩
  · have h_each : ∀ word ∈ ["string", "number", "boolean", "null", "never", "any"],
        '\r' ∉ word.toList := by decide
    exact h_each word h_primitive
  · exact fun h_mem => absurd (le_code_literal value _ h_mem) (by decide)

theorem return_not_mem_docCommentOf {description : Option String}
    (h_description : ∀ words ∈ description, '\r' ∉ words.toList) :
    '\r' ∉ (docCommentOf description).toList := by
  cases description with
  | none => decide
  | some words =>
    have h_words := h_description words rfl
    rw [docCommentOf, docComment, Text.toList_append_append, String.toList_intercalate]
    simp only [List.mem_append, not_or]
    refine ⟨by decide, ?_, by decide⟩
    refine (spreads_not_mem (c := '\r') (by decide)).intercalate (by decide) fun line h_line => ?_
    obtain ⟨text, h_text, rfl⟩ := List.mem_map.mp h_line
    obtain ⟨piece, h_piece, rfl⟩ := List.mem_map.mp h_text
    obtain ⟨own, h_own, rfl⟩ := List.mem_map.mp h_piece
    -- a line of the comment has a stretch of the words behind an asterisk
    rw [Text.Chars.pieces_eq_splitOn] at h_own
    have h_inside := Text.Chars.infix_intercalate ['\n'] h_own
    rw [List.intercalate_splitOn] at h_inside
    have h_line : (" * " ++ String.ofList own).toList = " * ".toList ++ own := by
      rw [String.toList_append, @String.toList_ofList own]
    rw [h_line, List.mem_append, not_or]
    exact ⟨by decide, fun h_mem => h_words (h_inside.subset h_mem)⟩

theorem return_not_mem_propertyKey (key : String) : '\r' ∉ (propertyKey key).toList :=
  fun h_mem => absurd (le_code_of_mem_propertyKey h_mem) (by decide)

theorem return_not_mem_head {head : MemberHead}
    (h_head : head.Commented fun words => '\r' ∉ words.toList) : '\r' ∉ head.render.toList := by
  cases head with
  | index => decide
  | property comment key optional =>
    have h_comment := return_not_mem_docCommentOf h_head
    have h_key := return_not_mem_propertyKey key
    rw [MemberHead.render, String.toList_append, String.toList_append, String.toList_append]
    simp only [List.mem_append, not_or]
    exact ⟨⟨⟨h_comment, h_key⟩, by cases optional <;> decide⟩, by decide⟩

/-- The words around the name in the head of a declaration. -/
theorem exists_head_around (form : Form) (name : String) :
    ∃ lead more, (Declaration.head form name).toList = lead ++ (name.toList ++ more) ∧
      '\r' ∉ lead ∧ '\r' ∉ more := by
  match form with
  | .interface =>
    exact ⟨"export interface ".toList, " ".toList, Text.toList_append_append _ _ _, by decide,
      by decide⟩
  | .alias =>
    exact ⟨"export type ".toList, " = ".toList, Text.toList_append_append _ _ _, by decide,
      by decide⟩

/-- Without carriage returns in the descriptions there are none in what is compiled. -/
theorem return_not_mem_render
    (h_definitions : ∀ entry ∈ definitions.schemas,
      Described (fun words => '\r' ∉ words.toList) entry.2)
    (h_schema : Described (fun words => '\r' ∉ words.toList) schema)
    (h_compile : compile definitions name schema = .ok compilation) :
    ∀ declaration ∈ compilation.made, '\r' ∉ declaration.render.toList := by
  intro declaration h_made
  have h_commented := commented_of_compile h_definitions h_schema h_compile declaration h_made
  have h_spoken := spoken_of_compile h_compile declaration h_made
  have h_name := (coined_of_compile h_compile declaration h_made).isWord
  -- in the type: its words, names and the heads of its members
  have h_type : '\r' ∉ declaration.type.render.toList := by
    refine (spreads_not_mem (c := '\r') (by decide)).render declaration.type fun text h_text => ?_
    rcases List.mem_append.mp h_text with h_text | h_head
    · exact (h_spoken text h_text).elim return_not_mem_of_isSchemaWord
        fun h_coined => h_coined.isWord.not_mem (by decide)
    · obtain ⟨head, h_mem, rfl⟩ := List.mem_map.mp h_head
      exact return_not_mem_head (h_commented.heads head h_mem)
  -- before the type: the words of the head around the declared name
  have h_head : '\r' ∉ (Declaration.head declaration.form declaration.name).toList := by
    have h_own : '\r' ∉ declaration.name.toList := h_name.not_mem (by decide)
    obtain ⟨lead, more, h_split, h_lead, h_more⟩ :=
      exists_head_around declaration.form declaration.name
    simp only [h_split, List.mem_append, not_or]
    exact ⟨h_lead, h_own, h_more⟩
  rw [Declaration.render, String.toList_append, String.toList_append, String.toList_append]
  simp only [List.mem_append, not_or]
  exact ⟨⟨⟨return_not_mem_docCommentOf h_commented.description, h_head⟩, h_type⟩, by decide⟩

end OpenApiTs.Schema
