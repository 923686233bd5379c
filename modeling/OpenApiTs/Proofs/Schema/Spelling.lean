/-
  OpenApiTs.Proofs.Schema.Spelling

  What the declarations of tidy schemas are spelled with. Their words, keys and comments are texts of
  the schema or primitive types, so the marker of placeholders does not occur in them; it is left to
  what titled nodes are mentioned by.

  The induction follows the recursion of the shapes, one lemma for each of its functions.
-/
import OpenApiTs.Proofs.Definitions.Placeholders
import OpenApiTs.Proofs.Json.Print
import OpenApiTs.Proofs.Schema.Neutral
import OpenApiTs.Proofs.TypeScript.Spelled

namespace OpenApiTs

open OpenApiTs.Text (Avoids FreeOf Solid)
open OpenApiTs.TypeScript
open OpenApiTs.Outcome (Yields)

/-! ## The marker -/

namespace Definitions

/-- The marker has the form of a needle that no punctuation can hide or make. -/
theorem solid_marker : Solid marker.toList where
  head := by decide
  last := ⟨'e', by decide, by decide⟩
  solid := by decide

/-- Whether the marker does not occur in a text. -/
abbrev Unmarked : String → Prop := FreeOf marker.toList

/-- The marker is looked for as the model looks for it. -/
theorem unmarked_iff {text : String} : Unmarked text ↔ Text.contains marker text = false := by
  rw [Unmarked, FreeOf, Avoids, ← Text.contains_iff, Bool.not_eq_true]

/-- Inert texts are unmarked. -/
theorem Inert.freeOf {text : String} (h_inert : Inert text) : Unmarked text :=
  unmarked_iff.mpr h_inert.unmarked

end Definitions

namespace Schema

open OpenApiTs.Definitions (Inert Tidy Unmarked solid_marker)

variable {planted : String → Entries Json → Prop} {schema value : Json} {fields : Entries Json}

/-! ## Words -/

/-- A literal is printed without the marker, since a tidy value has only inert texts. -/
theorem unmarked_literal (h_value : Tidy planted value) : Unmarked (literal value) := by
  cases value with
  | null => exact Definitions.unmarked_iff.mpr (by decide)
  | bool value => cases value <;> exact Definitions.unmarked_iff.mpr (by decide)
  | number value =>
    -- a number has digits, a sign, a point and an exponent, but no underscore
    have h_underscore : '_' ∉ (literal (.number value)).toList := fun h_mem =>
      absurd (Number.isNumeric_of_mem_print value _ h_mem) (by decide)
    exact Avoids.of_not_mem (List.mem_of_mem_head? solid_marker.head) h_underscore
  | text words => exact Json.freeOf_quote solid_marker h_value.inert.freeOf
  | array items => exact freeOf_any solid_marker
  | object fields => exact freeOf_any solid_marker

/-! ## Mentions -/

/-- Whether a mention is of a tidy node with a title that is inert or planted, or of an inert
    target. -/
def Mention.Said (planted : String → Entries Json → Prop) : Mention → Prop
  | .titled title node =>
    Tidy planted node ∧ (Inert title ∨ ∃ fields, node = .object fields ∧ planted title fields)
  | .reference target => Inert target

/-- What the shapes of tidy schemas are spelled with. -/
abbrev SpelledOut (planted : String → Entries Json → Prop) : TypeExpr Mention → Prop :=
  TypeExpr.Spelled Unmarked (Mention.Said planted)

/-- As `SpelledOut`, for members. -/
abbrev MembersSpelledOut (planted : String → Entries Json → Prop) :
    List (MemberHead × TypeExpr Mention) → Prop :=
  TypeExpr.SpelledMembers Unmarked (Mention.Said planted)

/-- Words under a keyword are a text field of an object. -/
theorem wordsAt?_eq_some {name words : String} (h_words : schema.wordsAt? name = some words) :
    ∃ fields, schema = .object fields ∧ fields.lookup name = some (.text words) := by
  obtain ⟨h_text, -⟩ := Option.filter_eq_some_iff.mp h_words
  obtain ⟨held, h_held, h_text⟩ := Option.bind_eq_some_iff.mp h_text
  cases schema with
  | object fields =>
    refine ⟨fields, rfl, ?_⟩
    -- only a text has words
    cases held with
    | text own =>
      cases h_text
      exact h_held
    | _ => cases h_text
  | _ => cases h_held

/-- A node is mentioned by a title that is inert or planted there. -/
theorem said_of_wordsAt? {title : String} (h_schema : Tidy planted schema)
    (h_title : schema.wordsAt? "title" = some title) :
    Mention.Said planted (.titled title schema) := by
  obtain ⟨fields, rfl, h_found⟩ := wordsAt?_eq_some h_title
  exact ⟨h_schema, (h_schema.title h_found).imp_right fun h_planted => ⟨fields, rfl, h_planted⟩⟩

/-- The words of a comment are a text of the schema. -/
theorem unmarked_description? (h_schema : Tidy planted schema) :
    ∀ words ∈ description? schema, Unmarked words := by
  intro words h_words
  obtain ⟨fields, rfl, h_found⟩ := wordsAt?_eq_some h_words
  exact (h_schema.of_lookup (by decide) h_found).inert.freeOf

/-! ## Shapes -/

theorem unmarked_primitive {word : String}
    (h_word : word ∈ ["string", "number", "boolean", "null", "never", "any"]) : Unmarked word := by
  have h_each : ∀ word ∈ ["string", "number", "boolean", "null", "never", "any"],
      Text.contains Definitions.marker word = false := by decide
  exact Definitions.unmarked_iff.mpr (h_each word h_word)

theorem spelled_primitive {word : String}
    (h_word : word ∈ ["string", "number", "boolean", "null", "never", "any"]) :
    Yields (SpelledOut planted) (.ok (.word word) : Shaped (TypeExpr Mention)) :=
  .ok (unmarked_primitive h_word)

/-- A kind is a primitive type, an array or a record. -/
theorem ofKind_spelled {kind : String} {asArray asRecord : Shaped (TypeExpr Mention)}
    (h_array : Yields (SpelledOut planted) asArray)
    (h_record : Yields (SpelledOut planted) asRecord) :
    Yields (SpelledOut planted) (ofKind kind asArray asRecord) := by
  unfold ofKind
  split
  case h_6 => exact h_array
  case h_7 => exact h_record
  all_goals exact spelled_primitive (by simp)

/-- Without a reference and a combination a schema is its values, or what its types make of it. -/
theorem plainShape_spelled {asArray asRecord : Shaped (TypeExpr Mention)}
    (h_fields : Tidy planted (.object fields)) (h_array : Yields (SpelledOut planted) asArray)
    (h_record : Yields (SpelledOut planted) asRecord) :
    Yields (SpelledOut planted) (plainShape fields asArray asRecord) := by
  unfold plainShape
  split
  · -- an enumeration is the union of its literals
    next values h_values =>
    obtain ⟨listed, h_listed, h_items⟩ := Option.bind_eq_some_iff.mp h_values
    refine .ok (TypeExpr.spelledAll_iff.mpr fun part h_part => ?_)
    obtain ⟨own, h_own, rfl⟩ := List.mem_map.mp h_part
    cases listed with
    | array items =>
      cases h_items
      exact unmarked_literal ((h_fields.of_lookup (by decide) h_listed).of_mem_array h_own)
    | _ => cases h_items
  · -- then a constant, then the types in the three forms they may have
    split
    · next value h_value =>
      exact .ok (unmarked_literal (h_fields.of_lookup (by decide) h_value))
    · split
      · exact ofKind_spelled h_array h_record
      · refine Yields.bind (Yields.mapM fun kind _ => ?_) fun parts h_parts =>
          .ok (TypeExpr.spelledAll_iff.mpr h_parts)
        unfold ofKindEntry
        split
        · exact ofKind_spelled h_array h_record
        · exact .error _
      · exact .error _
      · split
        · exact h_record
        · split
          · exact h_array
          · exact spelled_primitive (by simp)

/-- The members of a combination are tidy with the schema that has it. -/
theorem tidy_of_combination? {combination : Combination} {members : Json}
    (h_fields : Tidy planted (.object fields))
    (h_found : combination? fields = some (combination, members)) : Tidy planted members := by
  unfold combination? at h_found
  -- whichever of the three keywords it is, its members stand under it
  split at h_found
  · next h_all => cases h_found; exact h_fields.of_lookup (by decide) h_all
  · split at h_found
    · next h_any => cases h_found; exact h_fields.of_lookup (by decide) h_any
    · split at h_found
      · next h_one => cases h_found; exact h_fields.of_lookup (by decide) h_one
      · cases h_found

mutual

/-- A titled node is mentioned, so nothing of it is spelled out here. -/
theorem shape_spelled {schema : Json} (h_schema : Tidy planted schema) :
    Yields (SpelledOut planted) (shape schema) := by
  cases h_title : schema.wordsAt? "title" with
  | some title =>
    rw [shape_of_titled h_title]
    exact .ok (said_of_wordsAt? h_schema h_title)
  | none =>
    rw [shape_of_untitled h_title]
    exact bodyShape_spelled h_schema
termination_by 3 * sizeOf schema + 2

theorem bodyShape_spelled {schema : Json} (h_schema : Tidy planted schema) :
    Yields (SpelledOut planted) (bodyShape schema) := by
  match schema with
  | .object fields =>
    rw [bodyShape_object]
    exact fieldsShape_spelled h_schema
  | .bool false =>
    rw [bodyShape]
    exact spelled_primitive (by simp)
  | .null | .bool true | .number _ | .text _ | .array _ =>
    rw [bodyShape]
    · exact spelled_primitive (by simp)
    all_goals simp
termination_by 3 * sizeOf schema + 1
decreasing_by
  simp only [Json.object.sizeOf_spec]
  omega

/-- The shape of an object is a mention of its target, the members of a combination, or a plain
    one. -/
theorem fieldsShape_spelled {fields : Entries Json} (h_fields : Tidy planted (.object fields)) :
    Yields (SpelledOut planted) (fieldsShape fields) := by
  rw [fieldsShape_eq]
  split
  · next target h_target =>
    exact .ok (h_fields.of_lookup (by decide) h_target).inert
  · exact .error _
  · unfold combinedShape
    split
    · next combination members h_found =>
      -- the members of a combination are smaller than the object they stand in
      have h_less : 1 + sizeOf members < sizeOf fields := by
        simpa only [Json.array.sizeOf_spec] using sizeOf_of_combination? h_found
      refine (shapeAll_spelled (tidy_of_combination? h_fields h_found)).bind
        fun parts h_parts => .ok ?_
      cases combination <;> exact h_parts
    · exact .error _
    · exact plainShape_spelled h_fields (arrayShape_spelled h_fields)
        (recordShape_spelled h_fields)
termination_by 3 * sizeOf fields + 3
decreasing_by
  all_goals omega

theorem shapeAll_spelled {schemas : List Json} (h_schemas : Tidy planted (.array schemas)) :
    Yields (TypeExpr.SpelledAll Unmarked (Mention.Said planted)) (shapeAll schemas) := by
  match schemas with
  | [] =>
    rw [shapeAll]
    exact .ok trivial
  | schema :: others =>
    rw [shapeAll]
    refine (shape_spelled (h_schemas.of_mem_array List.mem_cons_self)).bind
      fun first h_first => ?_
    -- the rest of the list is a tidy list again
    have h_others : Tidy planted (.array others) :=
      .array fun item h_item => h_schemas.of_mem_array (List.mem_cons_of_mem schema h_item)
    exact (shapeAll_spelled h_others).bind fun rest h_rest => .ok ⟨h_first, h_rest⟩
termination_by 3 * sizeOf schemas
decreasing_by
  all_goals simp only [List.cons.sizeOf_spec]; omega

theorem arrayShape_spelled {fields : Entries Json} (h_fields : Tidy planted (.object fields)) :
    Yields (SpelledOut planted) (arrayShape fields) := by
  rw [arrayShape_eq]
  split
  · next items h_items =>
    -- the recursion is on the size of what is shaped, and items are smaller than their object
    have h_less : 1 + sizeOf items < sizeOf fields := by
      simpa only [Json.array.sizeOf_spec] using Json.sizeOf_of_lookup h_items
    exact (shapeAll_spelled (h_fields.of_lookup (by decide) h_items)).bind
      fun parts h_parts => .ok h_parts
  · next items _ h_items =>
    have h_less := Json.sizeOf_of_lookup h_items
    exact (shape_spelled (h_fields.of_lookup (by decide) h_items)).bind
      fun element h_element => .ok h_element
  · exact .ok (unmarked_primitive (by simp))
termination_by 3 * sizeOf fields
decreasing_by
  all_goals omega

/-- The members of a record are spelled as its properties and its index signature are. -/
theorem recordShape_spelled {fields : Entries Json} (h_fields : Tidy planted (.object fields)) :
    Yields (SpelledOut planted) (recordShape fields) := by
  rw [recordShape]
  refine (listedShape_spelled h_fields).bind fun properties h_properties => ?_
  exact (indexShape_spelled h_fields).bind fun index h_index =>
    .ok (h_properties.append h_index)
termination_by 3 * sizeOf fields + 1

/-- The properties of an object are tidy under their names. A title among them may be planted, and
    is no schema then. -/
theorem listedShape_spelled {fields : Entries Json} (h_fields : Tidy planted (.object fields)) :
    Yields (MembersSpelledOut planted) (listedShape fields) := by
  rw [listedShape_eq]
  split
  · next properties h_listed =>
    -- properties are smaller than their object
    have h_less : 1 + sizeOf properties < sizeOf fields := by
      simpa only [Json.object.sizeOf_spec] using Json.sizeOf_of_lookup h_listed
    have h_properties := h_fields.of_lookup (by decide) h_listed
    refine propertiesShape_spelled (requiredNames fields) h_properties.keys fun entry h_entry => ?_
    refine (h_properties.of_mem_object h_entry).imp_right ?_
    rintro ⟨title, rfl, -⟩
    exact ⟨title, rfl⟩
  · exact .ok trivial
termination_by 3 * sizeOf fields
decreasing_by
  omega

theorem indexShape_spelled {fields : Entries Json} (h_fields : Tidy planted (.object fields)) :
    Yields (MembersSpelledOut planted) (indexShape fields) := by
  rw [indexShape_eq]
  split
  · exact .ok ⟨trivial, unmarked_primitive (by simp), trivial⟩
  · exact .ok ⟨trivial, unmarked_primitive (by simp), trivial⟩
  · exact .ok trivial
  · next schema _ _ h_index =>
    have h_less := Json.sizeOf_of_lookup h_index
    exact (shape_spelled (h_fields.of_lookup (by decide) h_index)).bind
      fun type h_type => .ok ⟨trivial, h_type, trivial⟩
termination_by 3 * sizeOf fields
decreasing_by
  omega

/-- A planted title among properties is a schema that allows everything. -/
theorem propertiesShape_spelled (required : List String) {properties : List (String × Json)}
    (h_keys : ∀ entry ∈ properties, Inert entry.1)
    (h_values : ∀ entry ∈ properties, Tidy planted entry.2 ∨ ∃ title, entry.2 = .text title) :
    Yields (MembersSpelledOut planted) (propertiesShape required properties) := by
  match properties with
  | [] =>
    rw [propertiesShape]
    exact .ok trivial
  | (key, schema) :: others =>
    rw [List.forall_mem_cons] at h_keys h_values
    have h_value : Tidy planted schema ∨ ∃ title, schema = .text title := h_values.1
    -- a planted title under the name of a property is shaped like any text: as a primitive type
    have h_type : Yields (SpelledOut planted) (shape schema) := by
      rcases h_value with h_schema | ⟨title, h_text⟩
      · exact shape_spelled h_schema
      · rw [h_text, shape_of_untitled rfl, bodyShape]
        · exact spelled_primitive (by simp)
        all_goals simp
    -- such a title has no description either
    have h_description : ∀ words ∈ description? schema, Unmarked words := by
      rcases h_value with h_schema | ⟨title, h_text⟩
      · exact unmarked_description? h_schema
      · rw [h_text]
        exact nofun
    rw [propertiesShape]
    refine h_type.bind fun type h_type => ?_
    exact (propertiesShape_spelled required h_keys.2 h_values.2).bind fun rest h_rest =>
      .ok ⟨⟨h_description, h_keys.1.freeOf⟩, h_type, h_rest⟩
termination_by 3 * sizeOf properties
decreasing_by
  all_goals simp only [List.cons.sizeOf_spec, Prod.mk.sizeOf_spec]; omega

end

/-! ## Declarations -/

/-- The declaration of a tidy schema is spelled with texts of the schema. -/
theorem declare_spelled {name : String} (h_schema : Tidy planted schema) :
    Yields (Declaration.Spelled Unmarked (Mention.Said planted)) (declare name schema) := by
  have h_description := unmarked_description? h_schema
  unfold declare
  split
  · exact (recordShape_spelled h_schema).bind fun type h_type => .ok ⟨h_description, h_type⟩
  · exact (bodyShape_spelled h_schema).bind fun type h_type => .ok ⟨h_description, h_type⟩

end Schema

end OpenApiTs
