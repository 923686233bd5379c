/-
  OpenApiTs.Proofs.Schema.Neutral

  The shape of a definition before and after its references to itself are replaced. The two are the
  same but for what is mentioned: where the one has a reference of the definition to itself, the other
  may have a placeholder. It need not, since shapes look at more positions than are searched.

  The induction follows the recursion of the shapes, one lemma for each of its functions.
-/
import OpenApiTs.Proofs.Definitions.Neutralize
import OpenApiTs.Proofs.Outcome
import OpenApiTs.Proofs.TypeScript.Matching
import OpenApiTs.Schema.Shape

namespace OpenApiTs.Schema

open OpenApiTs.TypeScript
open OpenApiTs.TypeScript.TypeExpr (Matches MatchesAll MatchesMembers)
open OpenApiTs.Outcome (Alike)
open OpenApiTs.Definitions (neutralize neutralFields neutralizeHeld refersTo holding holdingKeys)

/-! ## Shapes by cases -/

theorem shape_of_titled {schema : Json} {title : String}
    (h_title : schema.wordsAt? "title" = some title) :
    shape schema = .ok (.named (.titled title schema)) := by
  rw [shape, h_title]

theorem shape_of_untitled {schema : Json} (h_title : schema.wordsAt? "title" = none) :
    shape schema = bodyShape schema := by
  rw [shape, h_title]

theorem bodyShape_object (fields : Entries Json) :
    bodyShape (.object fields) = fieldsShape fields := by
  rw [bodyShape]

/-- The shape of a node with a combination, if one is found. -/
def combinedShape (found : Option (Combination × Json)) (plain : Shaped (TypeExpr Mention)) :
    Shaped (TypeExpr Mention) :=
  match found with
  | some (combination, .array members) => do
    let parts ← shapeAll members
    return combination.join parts
  | some (combination, _) => .error (.membersNotList combination)
  | none => plain

/-- The shape of a node without reference and combination, given its shapes as an array and as an
    object. -/
def plainShape (fields : Entries Json) (asArray asRecord : Shaped (TypeExpr Mention)) :
    Shaped (TypeExpr Mention) :=
  match (fields.lookup "enum").bind Json.items? with
  | some values => .ok (.alternatives (values.map fun value => .word (literal value)))
  | none =>
    match fields.lookup "const" with
    | some value => .ok (.word (literal value))
    | none =>
      match fields.lookup "type" with
      | some (.text kind) => ofKind kind asArray asRecord
      | some (.array kinds) => do
        let parts ← kinds.mapM (ofKindEntry asArray asRecord)
        return .alternatives parts
      | some other => .error (.unknownKind other)
      | none =>
        if looksLikeObject fields then asRecord
        else if Entries.has fields "items" then asArray
        else .ok .any

/-- The shape of fields without its recursion: a reference comes first, then a combination, then
    everything else. -/
theorem fieldsShape_eq (fields : Entries Json) :
    fieldsShape fields =
      match fields.lookup "$ref" with
      | some (.text target) => .ok (.named (.reference target))
      | some _ => .error .targetNotText
      | none =>
        combinedShape (combination? fields)
          (plainShape fields (arrayShape fields) (recordShape fields)) := by
  rw [fieldsShape]
  cases fields.lookup "$ref" with
  | some value => cases value <;> rfl
  | none =>
    dsimp only
    split
    · next h_found => rw [h_found, combinedShape]
    · next h_members h_found =>
      rw [h_found, combinedShape]
      exact h_members
    · next h_found => rw [h_found]; rfl

/-- Schemas in a list are shaped one after the other. -/
theorem shapeAll_eq_mapM (schemas : List Json) : shapeAll schemas = schemas.mapM shape := by
  induction schemas with
  | nil =>
    rw [shapeAll]
    rfl
  | cons schema others ih => rw [shapeAll, ih, List.mapM_cons]

/-- The shape of an array, given what its items are. -/
theorem arrayShape_eq (fields : Entries Json) :
    arrayShape fields =
      match fields.lookup "items" with
      | some (.array items) => do
        let parts ← shapeAll items
        return .tuple parts
      | some items => do
        let element ← shape items
        return .array element
      | none => .ok (.array .any) := by
  rw [arrayShape]
  split
  · next h_items => rw [h_items]
  · next items h_single h_items =>
    rw [h_items]
    -- what is no list is one schema for all elements
    cases items with
    | array items => exact (h_single items rfl).elim
    | _ => rfl
  · next h_items => rw [h_items]

/-- The members of a record without the recursion. What is no object lists nothing. -/
theorem listedShape_eq (fields : Entries Json) :
    listedShape fields =
      match fields.lookup "properties" with
      | some (.object properties) => propertiesShape (requiredNames fields) properties
      | _ => .ok [] := by
  rw [listedShape]
  split
  · next h_listed => rw [h_listed]
  · next h_listed =>
    split
    · next properties h_found => exact absurd h_found (h_listed properties)
    · rfl

theorem arrayShape_of_single {fields : Entries Json} {items : Json}
    (h_items : fields.lookup "items" = some items) (h_single : ∀ own, items ≠ .array own) :
    arrayShape fields = (shape items >>= fun element => return .array element) := by
  rw [arrayShape_eq, h_items]
  cases items with
  | array own => exact absurd rfl (h_single own)
  | _ => rfl

/-- The index signature without the recursion. Other keys may have any value unless something is
    said of them. -/
theorem indexShape_eq (fields : Entries Json) :
    indexShape fields =
      match fields.lookup "additionalProperties" with
      | none => .ok [(.index, .any)]
      | some (.bool true) => .ok [(.index, .any)]
      | some (.bool false) => .ok []
      | some schema => do
        let type ← shape schema
        return [(.index, type)] := by
  rw [indexShape]
  split
  · next h_index => rw [h_index]
  · next h_index => rw [h_index]
  · next h_index => rw [h_index]
  · next schema h_true h_false h_index =>
    rw [h_index]
    -- the flags are the cases before, so what is left is a schema
    cases schema with
    | bool value =>
      cases value with
      | true => exact absurd rfl h_true
      | false => exact absurd rfl h_false
    | _ => rfl

/-! ## Mentions that correspond -/

/-- Whether a mention of the definition `own` corresponds to one after its references to itself are
    replaced: it is the same reference, or a placeholder for one that leads to `own`. What stands in
    the place of a titled node does not matter here. -/
def Mention.Restores (own : String) : Mention → Mention → Prop
  | .titled _ _, _ => True
  | .reference target, other =>
    other = .reference target ∨
      (Text.after? Reference.definitionRoot target).getD target = own ∧
        ∃ node, other = .titled (own ++ Definitions.marker) node

/-- A mention restores itself. -/
theorem Mention.Restores.refl (own : String) (mention : Mention) : mention.Restores own mention := by
  cases mention with
  | titled title node => trivial
  | reference target => exact .inl rfl

/-- Whether two shapes are the same but for mentions that correspond. -/
abbrev ShapedAlike (own : String) :
    Shaped (TypeExpr Mention) → Shaped (TypeExpr Mention) → Prop :=
  Alike (Matches (Mention.Restores own))

theorem ShapedAlike.refl (own : String) (shaped : Shaped (TypeExpr Mention)) :
    ShapedAlike own shaped shaped :=
  Alike.refl (Matches.refl (Mention.Restores.refl own)) shaped

/-- Whether two outcomes are the same members but for mentions that correspond. -/
abbrev MembersAlike (own : String) (members members' : Shaped (List (MemberHead × TypeExpr Mention))) :
    Prop :=
  Alike (MatchesMembers (Mention.Restores own)) members members'

theorem MembersAlike.refl (own : String) (shaped : Shaped (List (MemberHead × TypeExpr Mention))) :
    MembersAlike own shaped shaped :=
  Alike.refl (MatchesMembers.refl (Mention.Restores.refl own)) shaped

/-! ## Looking at a node -/

section Node

variable {own : String} {fields : Entries Json} {schema : Json}

theorem requiredNames_neutralFields (own : String) (fields : Entries Json) :
    requiredNames (neutralFields own fields) = requiredNames fields := by
  rw [requiredNames, Definitions.lookup_neutralFields_of_not_mem own (by decide), requiredNames]

theorem looksLikeObject_neutralFields (own : String) (fields : Entries Json) :
    looksLikeObject (neutralFields own fields) = looksLikeObject fields := by
  rw [looksLikeObject, Definitions.has_neutralFields, Definitions.has_neutralFields,
    looksLikeObject]

/-- The combination is found under the same keyword. -/
theorem combination?_neutralFields (own : String) (fields : Entries Json) :
    combination? (neutralFields own fields) =
      (combination? fields).map fun found =>
        (found.1, neutralizeHeld own (holding fields found.1.keyword) found.2) := by
  simp only [combination?, Definitions.lookup_neutralFields]
  -- the first of the three keywords that is there decides on both sides
  cases fields.lookup "allOf" with
  | some members => rfl
  | none =>
    cases fields.lookup "anyOf" with
    | some members => rfl
    | none =>
      cases fields.lookup "oneOf" with
      | some members => rfl
      | none => rfl

theorem wordsAt?_neutralFields {key : String} (own : String) (h_key : key ∉ holdingKeys) :
    (Json.object (neutralFields own fields)).wordsAt? key = (Json.object fields).wordsAt? key := by
  simp only [Json.wordsAt?, Json.textAt?, Json.field?]
  rw [Definitions.lookup_neutralFields_of_not_mem own h_key]

theorem wellFormed_of_combination? {combination : Combination} {members : Json}
    (h_fields : Json.WellFormed (.object fields))
    (h_found : combination? fields = some (combination, members)) : members.WellFormed := by
  unfold combination? at h_found
  split at h_found
  · next h_all => cases h_found; exact Json.wellFormed_of_field? h_fields h_all
  · split at h_found
    · next h_any => cases h_found; exact Json.wellFormed_of_field? h_fields h_any
    · split at h_found
      · next h_one => cases h_found; exact Json.wellFormed_of_field? h_fields h_one
      · cases h_found

/-- A description stays, that of a placeholder too. -/
theorem description?_neutralize (h_schema : schema.WellFormed) :
    description? (neutralize own schema) = description? schema := by
  cases schema with
  | object fields =>
    rw [Definitions.neutralize_object]
    split
    · simp only [description?, Json.wordsAt?, Json.textAt?, Json.field?]
      rw [Definitions.lookup_placeholder (Json.wellFormed_object_iff.mp h_schema).1 (by decide)]
    · exact wordsAt?_neutralFields own (by decide)
  | _ => rw [Definitions.neutralize_of_not_isObject rfl]

/-- What a node that refers to `own` has for its reference. -/
theorem exists_of_refersTo (h_refers : refersTo own fields = true) :
    ∃ target, fields.lookup "$ref" = some (.text target) ∧
      (Text.after? Reference.definitionRoot target).getD target = own := by
  rw [refersTo] at h_refers
  split at h_refers
  · next target h_target =>
    obtain ⟨value, h_value, h_text⟩ := Option.bind_eq_some_iff.mp h_target
    cases value with
    | text words =>
      cases h_text
      exact ⟨target, h_value, beq_iff_eq.mp h_refers⟩
    | _ => cases h_text
  · cases h_refers

/-- The title of a placeholder is the name of the definition with the marker behind it. -/
theorem wordsAt?_title_placeholder (own : String) (fields : Entries Json) :
    (Json.object (Definitions.placeholder own fields)).wordsAt? "title" =
      some (own ++ Definitions.marker) := by
  -- an empty title would be none, but the marker is not empty
  have h_some : own ++ Definitions.marker ≠ "" := by
    intro h_empty
    have h_length := congrArg (List.length ∘ String.toList) h_empty
    simp [Definitions.marker] at h_length
  simp only [Json.wordsAt?, Json.textAt?, Json.field?]
  rw [Definitions.lookup_title_placeholder]
  simp [Json.text?, h_some]

end Node

/-! ## Shapes that correspond -/

theorem ofKind_alike {own kind : String}
    {asArray asRecord asArray' asRecord' : Shaped (TypeExpr Mention)}
    (h_array : ShapedAlike own asArray asArray') (h_record : ShapedAlike own asRecord asRecord') :
    ShapedAlike own (ofKind kind asArray asRecord) (ofKind kind asArray' asRecord') := by
  unfold ofKind
  split
  case h_6 => exact h_array
  case h_7 => exact h_record
  all_goals exact ShapedAlike.refl own _

/-- Nothing that the plain shape looks at is searched but items and properties, and these are handed
    in. -/
theorem plainShape_alike {own : String} {fields : Entries Json}
    {asArray asRecord asArray' asRecord' : Shaped (TypeExpr Mention)}
    (h_array : ShapedAlike own asArray asArray') (h_record : ShapedAlike own asRecord asRecord') :
    ShapedAlike own (plainShape fields asArray asRecord)
      (plainShape (neutralFields own fields) asArray' asRecord') := by
  simp only [plainShape, looksLikeObject_neutralFields, Definitions.has_neutralFields]
  rw [Definitions.lookup_neutralFields_of_not_mem own (by decide),
    Definitions.lookup_neutralFields_of_not_mem own (by decide),
    Definitions.lookup_neutralFields_of_not_mem own (by decide)]
  -- values are looked up under keywords that are not searched, so they are the same
  split
  · exact ShapedAlike.refl own _
  · split
    · exact ShapedAlike.refl own _
    · split
      · exact ofKind_alike h_array h_record
      · -- a list of types goes entry by entry
        apply Alike.bind (Alike.mapM _)
        · intro parts parts' h_parts
          exact .ok (TypeExpr.matchesAll_of_forall₂ h_parts)
        · intro kind _
          unfold ofKindEntry
          split
          · exact ofKind_alike h_array h_record
          · exact ShapedAlike.refl own _
      · exact ShapedAlike.refl own _
      · split
        · exact h_record
        · split
          · exact h_array
          · exact ShapedAlike.refl own _

/-- The index signature is nowhere searched for references. -/
theorem indexShape_alike (own : String) (fields : Entries Json) :
    MembersAlike own (indexShape fields) (indexShape (neutralFields own fields)) := by
  rw [indexShape_eq, indexShape_eq, Definitions.lookup_neutralFields_of_not_mem own (by decide)]
  exact MembersAlike.refl own _

mutual

/-- The shape of a schema inside a definition. -/
theorem shape_alike {own : String} {schema : Json} (h_schema : schema.WellFormed) :
    ShapedAlike own (shape schema) (shape (neutralize own schema)) := by
  match schema with
  | .object fields =>
    rw [Definitions.neutralize_object]
    cases h_title : (Json.object fields).wordsAt? "title" with
    | some title =>
      rw [shape_of_titled h_title]
      -- a titled node is mentioned by its title, and its placeholder by another one
      split
      · rw [shape_of_titled (wordsAt?_title_placeholder own fields)]
        exact .ok trivial
      · rw [← wordsAt?_neutralFields own (by decide)] at h_title
        rw [shape_of_titled h_title]
        exact .ok trivial
    | none =>
      rw [shape_of_untitled h_title, bodyShape_object]
      split
      · next h_refers =>
        -- the reference of the one is the placeholder of the other
        obtain ⟨target, h_target, h_own⟩ := exists_of_refersTo h_refers
        rw [fieldsShape_eq, h_target, shape_of_titled (wordsAt?_title_placeholder own fields)]
        exact .ok (.inr ⟨h_own, _, rfl⟩)
      · next h_refers =>
        rw [← wordsAt?_neutralFields own (by decide)] at h_title
        rw [shape_of_untitled h_title, bodyShape_object]
        exact fieldsShape_alike h_schema
  | .array _ | .null | .bool _ | .number _ | .text _ =>
    rw [Definitions.neutralize_of_not_isObject rfl]
    exact ShapedAlike.refl own _
termination_by 3 * sizeOf schema + 2
decreasing_by
  simp only [Json.object.sizeOf_spec]
  omega

/-- The shape of a node, whatever it refers to. -/
theorem fieldsShape_alike {own : String} {fields : Entries Json}
    (h_fields : Json.WellFormed (.object fields)) :
    ShapedAlike own (fieldsShape fields) (fieldsShape (neutralFields own fields)) := by
  have h_plain : ShapedAlike own (plainShape fields (arrayShape fields) (recordShape fields))
      (plainShape (neutralFields own fields) (arrayShape (neutralFields own fields))
        (recordShape (neutralFields own fields))) :=
    plainShape_alike (arrayShape_alike h_fields) (recordShape_alike h_fields)
  rw [fieldsShape_eq, fieldsShape_eq, Definitions.lookup_neutralFields_of_not_mem own (by decide),
    combination?_neutralFields]
  cases fields.lookup "$ref" with
  | some value => cases value <;> exact ShapedAlike.refl own _
  | none =>
    cases h_found : combination? fields with
    | none => exact h_plain
    | some found =>
      obtain ⟨combination, members⟩ := found
      have h_less := sizeOf_of_combination? h_found
      have h_members := wellFormed_of_combination? h_fields h_found
      have h_keyword : combination.keyword ∈ ["allOf", "anyOf", "oneOf"] := by
        cases combination <;> decide
      simp only [Option.map_some]
      rcases Definitions.holding_combination h_keyword with h_holding | h_holding
      · -- the members of an object's or array's combination are not searched
        rw [h_holding]
        cases members <;> exact ShapedAlike.refl own _
      · rw [h_holding]
        cases members with
        | array items =>
          have h_inner : 1 + sizeOf items < sizeOf fields := by
            simpa only [Json.array.sizeOf_spec] using h_less
          apply Alike.bind (shapeAll_alike (Json.wellFormed_array_iff.mp h_members))
          intro parts parts' h_parts
          cases combination <;> exact .ok h_parts
        | _ => exact ShapedAlike.refl own _
termination_by 3 * sizeOf fields + 3
decreasing_by
  all_goals omega

/-- The shapes of schemas in a list. -/
theorem shapeAll_alike {own : String} {schemas : List Json}
    (h_schemas : ∀ schema ∈ schemas, schema.WellFormed) :
    Alike (MatchesAll (Mention.Restores own)) (shapeAll schemas)
      (shapeAll (schemas.map (neutralize own))) := by
  match schemas with
  | [] =>
    rw [List.map_nil, shapeAll]
    exact .ok trivial
  | schema :: others =>
    rw [List.forall_mem_cons] at h_schemas
    rw [List.map_cons, shapeAll, shapeAll]
    apply Alike.bind (shape_alike h_schemas.1)
    intro first first' h_first
    apply Alike.bind (shapeAll_alike h_schemas.2)
    intro rest rest' h_rest
    exact .ok ⟨h_first, h_rest⟩
termination_by 3 * sizeOf schemas
decreasing_by
  all_goals simp only [List.cons.sizeOf_spec]; omega

/-- The shape of an array. -/
theorem arrayShape_alike {own : String} {fields : Entries Json}
    (h_fields : Json.WellFormed (.object fields)) :
    ShapedAlike own (arrayShape fields) (arrayShape (neutralFields own fields)) := by
  have h_neutral := Definitions.lookup_neutralFields own fields "items"
  cases h_items : fields.lookup "items" with
  | none =>
    rw [h_items, Option.map_none] at h_neutral
    rw [arrayShape_eq, arrayShape_eq, h_items, h_neutral]
    exact ShapedAlike.refl own _
  | some value =>
    rw [h_items, Option.map_some] at h_neutral
    rcases Definitions.holding_items fields with h_holding | h_holding
    · -- items of anything but an array are not searched
      rw [h_holding] at h_neutral
      rw [arrayShape_eq, arrayShape_eq, h_items, h_neutral]
      exact ShapedAlike.refl own _
    · rw [h_holding] at h_neutral
      have h_value := Json.wellFormed_of_field? h_fields h_items
      have h_less := Json.sizeOf_of_lookup h_items
      match value with
      | .array items =>
        rw [arrayShape_eq, arrayShape_eq, h_items, h_neutral]
        have h_inner : 1 + sizeOf items < sizeOf fields := by
          simpa only [Json.array.sizeOf_spec] using h_less
        apply Alike.bind (shapeAll_alike (Json.wellFormed_array_iff.mp h_value))
        exact fun parts parts' h_parts => .ok h_parts
      | .object _ | .null | .bool _ | .number _ | .text _ =>
        rw [arrayShape_of_single h_items (by simp), arrayShape_of_single h_neutral
          (Definitions.neutralize_ne_array (by simp))]
        apply Alike.bind (shape_alike h_value)
        exact fun element element' h_element => .ok h_element
termination_by 3 * sizeOf fields
decreasing_by
  all_goals omega

/-- The shape of an object. -/
theorem recordShape_alike {own : String} {fields : Entries Json}
    (h_fields : Json.WellFormed (.object fields)) :
    ShapedAlike own (recordShape fields) (recordShape (neutralFields own fields)) := by
  rw [recordShape, recordShape]
  apply Alike.bind (listedShape_alike h_fields)
  intro listed listed' h_listed
  apply Alike.bind (indexShape_alike own fields)
  intro index index' h_index
  exact .ok (h_listed.append h_index)
termination_by 3 * sizeOf fields + 1

/-- The members for the listed properties. -/
theorem listedShape_alike {own : String} {fields : Entries Json}
    (h_fields : Json.WellFormed (.object fields)) :
    MembersAlike own (listedShape fields) (listedShape (neutralFields own fields)) := by
  rw [listedShape_eq, listedShape_eq, Definitions.lookup_neutralFields, requiredNames_neutralFields]
  cases h_listed : fields.lookup "properties" with
  | none => exact MembersAlike.refl own _
  | some value =>
    rw [Option.map_some]
    -- properties are searched only where the schema is an object
    rcases Definitions.holding_properties fields with h_holding | h_holding
    · rw [h_holding]
      exact MembersAlike.refl own _
    · rw [h_holding]
      cases value with
      | object properties =>
        have h_less : 1 + sizeOf properties < sizeOf fields := by
          simpa only [Json.object.sizeOf_spec] using Json.sizeOf_of_lookup h_listed
        have h_value := Json.wellFormed_of_field? h_fields h_listed
        exact propertiesShape_alike (Json.wellFormed_object_iff.mp h_value).2
      | _ => exact MembersAlike.refl own _
termination_by 3 * sizeOf fields
decreasing_by
  omega

/-- The shapes of properties. -/
theorem propertiesShape_alike {own : String} {required : List String}
    {properties : List (String × Json)}
    (h_properties : ∀ entry ∈ properties, entry.2.WellFormed) :
    MembersAlike own (propertiesShape required properties)
      (propertiesShape required
        (properties.map fun entry => (entry.1, neutralize own entry.2))) := by
  match properties with
  | [] =>
    rw [List.map_nil, propertiesShape]
    exact .ok trivial
  | (key, schema) :: others =>
    rw [List.forall_mem_cons] at h_properties
    rw [List.map_cons, propertiesShape, propertiesShape, description?_neutralize h_properties.1]
    apply Alike.bind (shape_alike h_properties.1)
    intro type type' h_type
    apply Alike.bind (propertiesShape_alike h_properties.2)
    intro rest rest' h_rest
    exact .ok ⟨rfl, h_type, h_rest⟩
termination_by 3 * sizeOf properties
decreasing_by
  all_goals simp only [List.cons.sizeOf_spec, Prod.mk.sizeOf_spec]; omega

end

/-! ## Declarations that correspond -/

/-- Whether two declarations are the same but for mentions that correspond. -/
structure DeclaredAlike (own : String) (declaration declaration' : Declaration Mention) : Prop where
  name : declaration.name = declaration'.name
  description : declaration.description = declaration'.description
  form : declaration.form = declaration'.form
  type : Matches (Mention.Restores own) declaration.type declaration'.type

/-- Replacing references changes no field that decides whether a declaration is an interface. -/
theorem isInterface_neutralFields (own : String) (fields : Entries Json) :
    isInterface (.object (neutralFields own fields)) = isInterface (.object fields) := by
  have h_has : Entries.has (neutralFields own fields) = Entries.has fields :=
    funext (Definitions.has_neutralFields own fields)
  simp only [isInterface, h_has, looksLikeObject_neutralFields]
  rw [Definitions.lookup_neutralFields_of_not_mem own (by decide)]

/-- The declaration of a definition that is not itself a reference to itself. -/
theorem declare_alike {own name : String} {schema : Json} (h_schema : schema.WellFormed)
    (h_root : Definitions.isSelfReference own schema = false) :
    Alike (DeclaredAlike own) (declare name schema) (declare name (neutralize own schema)) := by
  have h_described : description? (neutralize own schema) = description? schema :=
    description?_neutralize h_schema
  cases schema with
  | object fields =>
    -- the definition itself is no reference to itself, so it is not replaced as a whole
    have h_refers : ¬ refersTo own fields = true := Bool.eq_false_iff.mp h_root
    rw [Definitions.neutralize_object, if_neg h_refers] at h_described ⊢
    cases h_interface : isInterface (.object fields) with
    | true =>
      have h_other := (isInterface_neutralFields own fields).trans h_interface
      simp only [declare, h_interface, h_other]
      apply Alike.bind (recordShape_alike h_schema)
      exact fun type type' h_type => .ok ⟨rfl, h_described.symm, rfl, h_type⟩
    | false =>
      have h_other := (isInterface_neutralFields own fields).trans h_interface
      simp only [declare, h_interface, h_other, bodyShape_object]
      apply Alike.bind (fieldsShape_alike h_schema)
      exact fun type type' h_type => .ok ⟨rfl, h_described.symm, rfl, h_type⟩
  | _ =>
    rw [Definitions.neutralize_of_not_isObject rfl]
    exact Alike.refl (fun declaration =>
      ⟨rfl, rfl, rfl, Matches.refl (Mention.Restores.refl own) declaration.type⟩) _

end OpenApiTs.Schema
