/-
  OpenApiTs.Proofs.Schema.Reshaped

  The shapes of schemas that differ in the order of fields. They are the same but for the nodes that
  they mention, which differ in the order of fields in turn: only the properties of an object are
  taken in order, and these stand in one order on both sides.

  The induction follows the recursion of the shapes, one lemma for each of its functions.
-/
import OpenApiTs.Proofs.Json.Reordered
import OpenApiTs.Proofs.Schema.Neutral

namespace OpenApiTs.Schema

open OpenApiTs.Json (Reordered)
open OpenApiTs.Outcome (Corresponds rel_cases)
open OpenApiTs.TypeScript
open OpenApiTs.TypeScript.TypeExpr (Matches MatchesAll MatchesMembers)

variable {name : String} {schema schema' : Json} {fields fields' : Entries Json}

/-! ## Mentions -/

/-- Whether two mentions are of one reference, or of nodes with one title that differ in the order of
    fields. -/
inductive Mention.Reordered : Mention → Mention → Prop where
  | titled (title : String) {node node' : Json} (h_nodes : Json.Reordered node node') :
      Mention.Reordered (.titled title node) (.titled title node')
  | reference (target : String) : Mention.Reordered (.reference target) (.reference target)

/-- Whether two outcomes are shapes that are the same but for mentions of reordered nodes, or are
    both faults. -/
abbrev ShapedReordered :
    Shaped (TypeExpr Mention) → Shaped (TypeExpr Mention) → Prop :=
  Corresponds (fun _ _ => True) (Matches Mention.Reordered)

/-- As `ShapedReordered`, for the members of an object. -/
abbrev MembersReordered (members members' : Shaped (List (MemberHead × TypeExpr Mention))) : Prop :=
  Corresponds (fun _ _ => True) (MatchesMembers Mention.Reordered) members members'

theorem matchesAll_words (words : List String) :
    MatchesAll Mention.Reordered (words.map TypeExpr.word) (words.map TypeExpr.word) := by
  induction words with
  | nil => trivial
  | cons word words ih => exact ⟨rfl, ih⟩

/-! ## Looking at a node -/

/-- A list of names has no fields to reorder. -/
theorem requiredNames_eq (h_fields : Reordered (.object fields) (.object fields')) :
    requiredNames fields = requiredNames fields' := by
  rw [requiredNames, requiredNames]
  rcases h_fields.lookup_cases "required" with
    ⟨h_none, h_none'⟩ | ⟨names, names', h_names, h_names', h_values⟩
  · rw [h_none, h_none']
  · rw [h_names, h_names']
    cases h_values.paired with
    | array h_items => exact Reordered.texts_eq h_items
    | _ => rfl

/-- What an object looks like is a question of which fields are there. -/
theorem looksLikeObject_eq (h_fields : Reordered (.object fields) (.object fields')) :
    looksLikeObject fields = looksLikeObject fields' := by
  rw [looksLikeObject, looksLikeObject, h_fields.has_eq, h_fields.has_eq]

/-- The combination is found under the same keyword. -/
theorem combination?_rel (h_fields : Reordered (.object fields) (.object fields')) :
    Option.Rel (fun found found' => found.1 = found'.1 ∧ Reordered found.2 found'.2)
      (combination? fields) (combination? fields') := by
  rw [combination?, combination?]
  -- a keyword is there on both sides or on neither, so both go on to the next one together
  rcases h_fields.lookup_cases "allOf" with
    ⟨h_none, h_none'⟩ | ⟨members, members', h_all, h_all', h_values⟩
  · rw [h_none, h_none']
    rcases h_fields.lookup_cases "anyOf" with
      ⟨h_none, h_none'⟩ | ⟨members, members', h_any, h_any', h_values⟩
    · rw [h_none, h_none']
      rcases h_fields.lookup_cases "oneOf" with
        ⟨h_none, h_none'⟩ | ⟨members, members', h_one, h_one', h_values⟩
      · rw [h_none, h_none']
        exact .none
      · rw [h_one, h_one']
        exact .some ⟨rfl, h_values⟩
    · rw [h_any, h_any']
      exact .some ⟨rfl, h_values⟩
  · rw [h_all, h_all']
    exact .some ⟨rfl, h_values⟩

/-! ## Shapes -/

theorem ofKind_reordered {kind : String}
    {asArray asRecord asArray' asRecord' : Shaped (TypeExpr Mention)}
    (h_array : ShapedReordered asArray asArray') (h_record : ShapedReordered asRecord asRecord') :
    ShapedReordered (ofKind kind asArray asRecord) (ofKind kind asArray' asRecord') := by
  unfold ofKind
  split
  case h_6 => exact h_array
  case h_7 => exact h_record
  all_goals exact .ok rfl

/-- The entry of a list of types is a text on both sides or on neither. -/
theorem ofKindEntry_reordered {kind kind' : Json}
    {asArray asRecord asArray' asRecord' : Shaped (TypeExpr Mention)}
    (h_kinds : Reordered kind kind') (h_array : ShapedReordered asArray asArray')
    (h_record : ShapedReordered asRecord asRecord') :
    ShapedReordered (ofKindEntry asArray asRecord kind) (ofKindEntry asArray' asRecord' kind') := by
  cases h_kinds.paired with
  | text words => exact ofKind_reordered h_array h_record
  | _ => exact .error trivial

/-- The literals under `enum` and `const` are the same; the rest goes by the type. -/
theorem plainShape_reordered {asArray asRecord asArray' asRecord' : Shaped (TypeExpr Mention)}
    (h_fields : Reordered (.object fields) (.object fields'))
    (h_array : ShapedReordered asArray asArray') (h_record : ShapedReordered asRecord asRecord') :
    ShapedReordered (plainShape fields asArray asRecord)
      (plainShape fields' asArray' asRecord') := by
  have h_enum := h_fields.enum_eq
  have h_const := h_fields.const_eq
  rw [plainShape, plainShape, looksLikeObject_eq h_fields, h_fields.has_eq "items"]
  cases h_values : (fields.lookup "enum").bind Json.items? with
  | some values =>
    rw [h_values, Option.map_some] at h_enum
    obtain ⟨values', h_values', h_literals⟩ := Option.map_eq_some_iff.mp h_enum.symm
    -- both are the same literals, each as a word
    have h_words : values.map (fun value => (TypeExpr.word (literal value) : TypeExpr Mention)) =
        (values.map literal).map TypeExpr.word := by
      rw [List.map_map]
      rfl
    have h_words' : values'.map (fun value => (TypeExpr.word (literal value) : TypeExpr Mention)) =
        (values.map literal).map TypeExpr.word := by
      rw [← h_literals, List.map_map]
      rfl
    rw [h_values']
    dsimp only
    rw [h_words, h_words']
    exact .ok (matchesAll_words (values.map literal))
  | none =>
    rw [h_values, Option.map_none] at h_enum
    rw [Option.map_eq_none_iff.mp h_enum.symm]
    cases h_value : fields.lookup "const" with
    | some value =>
      rw [h_value, Option.map_some] at h_const
      obtain ⟨value', h_value', h_literal⟩ := Option.map_eq_some_iff.mp h_const.symm
      rw [h_value']
      exact .ok h_literal.symm
    | none =>
      rw [h_value, Option.map_none] at h_const
      rw [Option.map_eq_none_iff.mp h_const.symm]
      rcases h_fields.lookup_cases "type" with
        ⟨h_none, h_none'⟩ | ⟨kind, kind', h_kind, h_kind', h_kinds⟩
      · rw [h_none, h_none']
        dsimp only
        split
        · exact h_record
        · split
          · exact h_array
          · exact .ok rfl
      · rw [h_kind, h_kind']
        cases h_kinds.paired with
        | text kind => exact ofKind_reordered h_array h_record
        | array h_items =>
          apply Corresponds.bind (Corresponds.mapM h_items fun kind _ kind' h_kind =>
            ofKindEntry_reordered h_kind h_array h_record)
          intro parts parts' h_parts
          exact .ok (TypeExpr.matchesAll_of_forall₂ h_parts)
        | _ => exact .error trivial

/-- An array of elements of one type. -/
theorem element_reordered {shaped shaped' : Shaped (TypeExpr Mention)}
    (h_shaped : ShapedReordered shaped shaped') :
    ShapedReordered (shaped >>= fun element => return .array element)
      (shaped' >>= fun element => return .array element) :=
  Corresponds.bind h_shaped fun _ _ h_element => .ok h_element

/-- An index signature. -/
theorem indexed_reordered {shaped shaped' : Shaped (TypeExpr Mention)}
    (h_shaped : ShapedReordered shaped shaped') :
    MembersReordered (shaped >>= fun type => return [(.index, type)])
      (shaped' >>= fun type => return [(.index, type)]) :=
  Corresponds.bind h_shaped fun _ _ h_type => .ok ⟨rfl, h_type, trivial⟩

mutual

/-- Both have the same title or none. A titled node is mentioned with the order of fields that it
    has. -/
theorem shape_reordered {schema schema' : Json} (h_schemas : Reordered schema schema') :
    ShapedReordered (shape schema) (shape schema') := by
  cases h_title : schema.wordsAt? "title" with
  | some title =>
    rw [shape_of_titled h_title]
    rw [h_schemas.wordsAt?_eq] at h_title
    rw [shape_of_titled h_title]
    exact .ok (.titled title h_schemas)
  | none =>
    rw [shape_of_untitled h_title]
    rw [h_schemas.wordsAt?_eq] at h_title
    rw [shape_of_untitled h_title]
    exact bodyShape_reordered h_schemas
termination_by 3 * sizeOf schema + 2

theorem bodyShape_reordered {schema schema' : Json} (h_schemas : Reordered schema schema') :
    ShapedReordered (bodyShape schema) (bodyShape schema') := by
  -- values that differ in the order of fields are of one kind
  cases h_schemas.paired with
  | @object fields fields' h_fields =>
    rw [bodyShape_object, bodyShape_object]
    exact fieldsShape_reordered h_fields
  | bool value => cases value <;> simp only [bodyShape] <;> exact .ok rfl
  | null | number value value' | text words | array h_items =>
    simp only [bodyShape]
    exact .ok rfl
termination_by 3 * sizeOf schema + 1
decreasing_by
  subst schema
  simp only [Json.object.sizeOf_spec]
  omega

/-- The same keyword decides on both sides. -/
theorem fieldsShape_reordered {fields fields' : Entries Json}
    (h_fields : Reordered (.object fields) (.object fields')) :
    ShapedReordered (fieldsShape fields) (fieldsShape fields') := by
  -- the last resort of both, before the keywords ahead of it are looked at
  have h_plain := plainShape_reordered h_fields (arrayShape_reordered h_fields)
    (recordShape_reordered h_fields)
  rw [fieldsShape_eq, fieldsShape_eq]
  rcases h_fields.lookup_cases "$ref" with
    ⟨h_none, h_none'⟩ | ⟨target, target', h_target, h_target', h_targets⟩
  · rw [h_none, h_none']
    dsimp only
    rcases rel_cases (combination?_rel h_fields) with
      ⟨h_none, h_none'⟩ | ⟨⟨combination, members⟩, ⟨_, members'⟩, h_found, h_found', rfl, h_members⟩
    · rw [h_none, h_none']
      exact h_plain
    · have h_less := sizeOf_of_combination? h_found
      rw [h_found, h_found']
      cases h_members.paired with
      | @array items items' h_items =>
        -- the recursion is on the size of the first of the two
        have h_inner : 1 + sizeOf items < sizeOf fields := by
          simpa only [Json.array.sizeOf_spec] using h_less
        apply Corresponds.bind (shapeAll_reordered h_items)
        intro parts parts' h_parts
        cases combination <;> exact .ok h_parts
      | _ => exact .error trivial
  · rw [h_target, h_target']
    cases h_targets.paired with
    | text target => exact .ok (.reference target)
    | _ => exact .error trivial
termination_by 3 * sizeOf fields + 3
decreasing_by
  all_goals omega

theorem shapeAll_reordered {schemas schemas' : List Json}
    (h_schemas : List.Forall₂ Reordered schemas schemas') :
    Corresponds (fun _ _ => True) (MatchesAll Mention.Reordered) (shapeAll schemas)
      (shapeAll schemas') := by
  match schemas, schemas', h_schemas with
  | [], [], .nil =>
    rw [shapeAll]
    exact .ok trivial
  | schema :: others, schema' :: others', .cons h_schema h_others =>
    rw [shapeAll, shapeAll]
    apply Corresponds.bind (shape_reordered h_schema)
    intro first first' h_first
    apply Corresponds.bind (shapeAll_reordered h_others)
    intro rest rest' h_rest
    exact .ok ⟨h_first, h_rest⟩
termination_by 3 * sizeOf schemas
decreasing_by
  all_goals simp only [List.cons.sizeOf_spec]; omega

/-- The items of both are one schema, or lists of the same length. -/
theorem arrayShape_reordered {fields fields' : Entries Json}
    (h_fields : Reordered (.object fields) (.object fields')) :
    ShapedReordered (arrayShape fields) (arrayShape fields') := by
  rw [arrayShape_eq, arrayShape_eq]
  rcases h_fields.lookup_cases "items" with
    ⟨h_none, h_none'⟩ | ⟨items, items', h_items, h_items', h_values⟩
  · rw [h_none, h_none']
    exact .ok rfl
  · have h_less := Json.sizeOf_of_lookup h_items
    -- prepared here, since the list of items needs another induction hypothesis
    have h_single := element_reordered (shape_reordered h_values)
    rw [h_items, h_items']
    cases h_values.paired with
    | @array parts parts' h_parts =>
      have h_inner : 1 + sizeOf parts < sizeOf fields := by
        simpa only [Json.array.sizeOf_spec] using h_less
      apply Corresponds.bind (shapeAll_reordered h_parts)
      intro types types' h_types
      exact .ok h_types
    | _ => exact h_single
termination_by 3 * sizeOf fields
decreasing_by
  all_goals omega

theorem recordShape_reordered {fields fields' : Entries Json}
    (h_fields : Reordered (.object fields) (.object fields')) :
    ShapedReordered (recordShape fields) (recordShape fields') := by
  rw [recordShape, recordShape]
  apply Corresponds.bind (listedShape_reordered h_fields)
  intro listed listed' h_listed
  apply Corresponds.bind (indexShape_reordered h_fields)
  intro index index' h_index
  exact .ok (h_listed.append h_index)
termination_by 3 * sizeOf fields + 1

/-- The properties are listed in one order. -/
theorem listedShape_reordered {fields fields' : Entries Json}
    (h_fields : Reordered (.object fields) (.object fields')) :
    MembersReordered (listedShape fields) (listedShape fields') := by
  rw [listedShape_eq, listedShape_eq, requiredNames_eq h_fields]
  rcases h_fields.lookup_cases "properties" with
    ⟨h_none, h_none'⟩ | ⟨held, held', h_listed, h_listed', h_values⟩
  · rw [h_none, h_none']
    exact .ok trivial
  · have h_less := Json.sizeOf_of_lookup h_listed
    rw [h_listed, h_listed']
    cases h_values.paired with
    | @object properties properties' _ =>
      have h_inner : 1 + sizeOf properties < sizeOf fields := by
        simpa only [Json.object.sizeOf_spec] using h_less
      -- the entries of properties are paired in order, which is all that may not be reordered
      exact propertiesShape_reordered _ (h_fields.entries h_listed h_listed')
    | _ => exact .ok trivial
termination_by 3 * sizeOf fields
decreasing_by
  omega

theorem indexShape_reordered {fields fields' : Entries Json}
    (h_fields : Reordered (.object fields) (.object fields')) :
    MembersReordered (indexShape fields) (indexShape fields') := by
  rw [indexShape_eq, indexShape_eq]
  rcases h_fields.lookup_cases "additionalProperties" with
    ⟨h_none, h_none'⟩ | ⟨value, value', h_index, h_index', h_values⟩
  · rw [h_none, h_none']
    exact .ok ⟨rfl, rfl, trivial⟩
  · have h_less := Json.sizeOf_of_lookup h_index
    have h_schema := indexed_reordered (shape_reordered h_values)
    rw [h_index, h_index']
    cases h_values.paired with
    | bool open_ended =>
      cases open_ended with
      | true => exact .ok ⟨rfl, rfl, trivial⟩
      | false => exact .ok trivial
    | _ => exact h_schema
termination_by 3 * sizeOf fields
decreasing_by
  omega

/-- Properties stand in one order on both sides, so they are taken pair by pair. -/
theorem propertiesShape_reordered (required : List String) {properties properties' : Entries Json}
    (h_properties : List.Forall₂ (Entries.Related Reordered) properties properties') :
    MembersReordered (propertiesShape required properties)
      (propertiesShape required properties') := by
  match properties, properties', h_properties with
  | [], [], .nil =>
    rw [propertiesShape]
    exact .ok trivial
  | (key, schema) :: others, (key', schema') :: others', .cons h_entry h_others =>
    obtain ⟨h_key, h_schemas⟩ := h_entry
    dsimp only at h_key h_schemas
    subst h_key
    rw [propertiesShape, propertiesShape]
    apply Corresponds.bind (shape_reordered h_schemas)
    intro type type' h_type
    apply Corresponds.bind (propertiesShape_reordered required h_others)
    intro rest rest' h_rest
    have h_description : description? schema = description? schema' :=
      h_schemas.wordsAt?_eq "description"
    rw [h_description]
    exact .ok ⟨rfl, h_type, h_rest⟩
termination_by 3 * sizeOf properties
decreasing_by
  all_goals simp only [List.cons.sizeOf_spec, Prod.mk.sizeOf_spec]; omega

end

/-! ## Declarations -/

/-- Whether a declaration is an interface does not depend on the order of fields. -/
theorem isInterface_eq (h_schemas : Reordered schema schema') :
    isInterface schema = isInterface schema' := by
  cases h_schemas.paired with
  | @object fields fields' h_fields =>
    have h_has : Entries.has fields = Entries.has fields' := funext h_fields.has_eq
    rw [isInterface, isInterface, h_has, looksLikeObject_eq h_fields]
    -- the type is a text on both sides or on neither
    rcases h_fields.lookup_cases "type" with
      ⟨h_none, h_none'⟩ | ⟨kind, kind', h_kind, h_kind', h_kinds⟩
    · rw [h_none, h_none']
    · rw [h_kind, h_kind']
      cases h_kinds.paired <;> rfl
  | _ => rfl

/-- Whether two declarations are the same but for mentions of reordered nodes. -/
structure DeclaredReordered (declaration declaration' : Declaration Mention) : Prop where
  name : declaration.name = declaration'.name
  description : declaration.description = declaration'.description
  form : declaration.form = declaration'.form
  type : Matches Mention.Reordered declaration.type declaration'.type

/-- Two schemas that differ in the order of fields are declared alike, with the same comment
    above. -/
theorem declare_reordered (name : String) (h_schemas : Reordered schema schema') :
    Corresponds (fun _ _ => True) DeclaredReordered (declare name schema)
      (declare name schema') := by
  have h_description : description? schema = description? schema' :=
    h_schemas.wordsAt?_eq "description"
  -- both are aliases, or both are interfaces
  have h_alias : Corresponds (fun _ _ => True) DeclaredReordered
      (bodyShape schema >>= fun type => return ⟨name, description? schema, .alias, type⟩)
      (bodyShape schema' >>= fun type => return ⟨name, description? schema', .alias, type⟩) :=
    Corresponds.bind (bodyShape_reordered h_schemas) fun type type' h_type =>
      .ok ⟨rfl, h_description, rfl, h_type⟩
  have h_interface := isInterface_eq h_schemas
  cases h_schemas.paired with
  | @object fields fields' h_fields =>
    unfold declare
    rw [← h_interface]
    cases isInterface (.object fields) with
    | false => exact h_alias
    | true =>
      apply Corresponds.bind (recordShape_reordered h_fields)
      intro type type' h_type
      exact .ok ⟨rfl, h_description, rfl, h_type⟩
  | _ => exact h_alias

end OpenApiTs.Schema
