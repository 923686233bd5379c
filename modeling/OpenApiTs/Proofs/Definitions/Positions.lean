/-
  OpenApiTs.Proofs.Definitions.Positions

  The positions of schemas in a schema, whatever the types of its nodes, against the places where
  references of a definition to itself are replaced. The replacement keeps the positions; it frees a
  definition of references to itself exactly when all of them stand where the search for them comes.
-/
import OpenApiTs.Proofs.Definitions.Gather
import OpenApiTs.Proofs.Definitions.Rewritten

namespace OpenApiTs.Definitions

open OpenApiTs.Json (Step Pointer)

variable {own name key : String} {fields : Entries Json} {value schema part stored document : Json}
  {held : Holding} {pointer place : Pointer}

/-! ## Held schemas -/

/-- The schemas that the value of a field holds, each with the steps to it. -/
def heldRoutes : Holding → Json → List (Pointer × Json)
  | .schema, value => [([], value)]
  | .items, .array items => (Json.children (.array items)).map fun part => ([part.1], part.2)
  | .items, value => [([], value)]
  | .members, .array items => (Json.children (.array items)).map fun part => ([part.1], part.2)
  | .properties, .object properties =>
    (Json.children (.object properties)).map fun part => ([part.1], part.2)
  | _, _ => []

/-- A value holds nothing, or is a schema itself, or its parts are schemas. -/
theorem heldRoutes_cases (held : Holding) (value : Json) :
    heldRoutes held value = [] ∨ heldRoutes held value = [([], value)] ∨
      heldRoutes held value = value.children.map fun part => ([part.1], part.2) := by
  cases held <;> cases value <;> simp [heldRoutes]

theorem heldParts_eq (held : Holding) (value : Json) :
    heldParts held value = (heldRoutes held value).map Prod.snd := by
  cases held <;> cases value <;>
    simp [heldParts, heldRoutes, Json.children, Function.comp_def, List.zipIdx_map_fst]

/-- The steps to a held schema lead to it. -/
theorem at?_route {route : Pointer} (h_value : value.WellFormed)
    (h_part : (route, part) ∈ heldRoutes held value) : value.at? route = some part := by
  rcases heldRoutes_cases held value with h_none | h_self | h_parts
  · rw [h_none] at h_part
    cases h_part
  · rw [h_self, List.mem_singleton] at h_part
    cases h_part
    rfl
  · rw [h_parts, List.mem_map] at h_part
    obtain ⟨⟨step, child⟩, h_child, h_eq⟩ := h_part
    cases h_eq
    rw [Json.at?_cons, (Json.mem_children_iff h_value).mp h_child]
    rfl

theorem wellFormed_of_mem_heldRoutes {route : Pointer} (h_value : value.WellFormed)
    (h_part : (route, part) ∈ heldRoutes held value) : part.WellFormed :=
  Json.wellFormed_of_at? h_value (at?_route h_value h_part)

/-- Steps to held schemas lead on only within one of them. -/
theorem route_unique (h_value : value.WellFormed) {first second : Pointer × Json}
    {front back : Pointer} (h_first : first ∈ heldRoutes held value)
    (h_second : second ∈ heldRoutes held value)
    (h_leads : first.1 ++ front <+: second.1 ++ back) : first = second ∧ front <+: back := by
  rcases heldRoutes_cases held value with h_none | h_self | h_parts
  · rw [h_none] at h_first
    cases h_first
  · rw [h_self, List.mem_singleton] at h_first h_second
    subst h_first h_second
    exact ⟨rfl, h_leads⟩
  · rw [h_parts, List.mem_map] at h_first h_second
    obtain ⟨⟨step, part⟩, h_part, rfl⟩ := h_first
    obtain ⟨⟨step', part'⟩, h_part', rfl⟩ := h_second
    -- the routes are single steps, and there is one part for each step
    obtain ⟨rfl, h_rest⟩ := List.cons_prefix_cons.mp h_leads
    rw [Json.mem_children_iff h_value] at h_part h_part'
    obtain rfl : part = part' := Option.some.inj (h_part.symm.trans h_part')
    exact ⟨rfl, h_rest⟩

/-- The value of a field holds the same schemas after the replacement, each with its references
    replaced. -/
theorem heldRoutes_neutralizeHeld (own : String) (held : Holding) (value : Json) :
    heldRoutes held (neutralizeHeld own held value) =
      (heldRoutes held value).map fun part => (part.1, neutralize own part.2) := by
  have h_items (items : List Json) :
      Json.children (.array (items.map (neutralize own))) =
        (Json.children (.array items)).map fun part => (part.1, neutralize own part.2) := by
    simp [Json.children, List.zipIdx_map]
  cases held with
  | nothing => rfl
  | schema => rfl
  | items =>
    by_cases h_array : ∃ items, value = .array items
    · obtain ⟨items, rfl⟩ := h_array
      simp [heldRoutes, neutralizeHeld, h_items]
    · -- a single schema does not become a list
      have h_single : ∀ items, value ≠ .array items := fun items h_eq => h_array ⟨items, h_eq⟩
      have h_after : ∀ items, neutralize own value ≠ .array items := neutralize_ne_array h_single
      simp only [heldRoutes, neutralizeHeld]
      rfl
  | members => cases value <;> simp [heldRoutes, neutralizeHeld, h_items]
  | properties => cases value <;> simp [heldRoutes, neutralizeHeld, Json.children]

theorem mem_heldPlaces_iff :
    pointer ∈ heldPlaces own held value ↔
      ∃ route part, (route, part) ∈ heldRoutes held value ∧
        ∃ rest ∈ selfPlaces own part, route ++ rest = pointer := by
  cases held <;> cases value <;> simp [heldPlaces, heldRoutes, Json.within] <;> exact exists_comm

/-! ## Positions -/

/-- How the value of a keyword holds schemas, whatever else the node says. -/
def keywordHolding (key : String) : Holding :=
  if key = "properties" then .properties
  else if key = "items" then .items
  else if key ∈ ["allOf", "anyOf", "oneOf"] then .members
  else if key ∈ ["additionalProperties", "not"] then .schema
  else .nothing

/-- Whether a pointer leads to a schema: to the schema itself, or on to one that is held under a
    keyword of it. -/
inductive SchemaPosition : Json → Pointer → Prop where
  | root (schema : Json) : SchemaPosition schema []
  | keyword {fields : Entries Json} {key : String} {value part : Json} {route rest : Pointer}
      (h_value : fields.lookup key = some value)
      (h_part : (route, part) ∈ heldRoutes (keywordHolding key) value)
      (h_rest : SchemaPosition part rest) :
      SchemaPosition (.object fields) (.field key :: (route ++ rest))

theorem keywordHolding_of_mem_replacedKeys (h_key : key ∈ replacedKeys) :
    keywordHolding key = .nothing := by
  simp only [replacedKeys, List.mem_cons, List.not_mem_nil, or_false] at h_key
  rcases h_key with rfl | rfl | rfl <;> decide

/-- A keyword is searched as it holds schemas, or not at all. -/
theorem holding_cases (fields : Entries Json) (key : String) :
    holding fields key = .nothing ∨ holding fields key = keywordHolding key := by
  -- the first keyword that is there decides; the others then hold nothing
  rw [holding]
  split
  · by_cases h_key : key = "properties"
    · subst h_key
      exact .inr (by decide)
    · exact .inl (if_neg h_key)
  · by_cases h_key : key = "items"
    · subst h_key
      exact .inr (by decide)
    · exact .inl (if_neg h_key)
  · split
    · next h_found =>
      have h_key := mem_of_combination? h_found
      simp only [List.mem_cons, List.not_mem_nil, or_false] at h_key
      rcases h_key with rfl | rfl | rfl <;> exact .inr (by decide)
    · split
      · next h_key =>
        subst h_key
        exact .inr (by decide)
      · exact .inl rfl

/-! ## Positions and places -/

/-- No position leads through an entry that a replaced node loses. -/
theorem not_prefix_of_position (h_schema : schema.WellFormed)
    (h_position : SchemaPosition schema pointer) (h_place : place ∈ selfPlaces own schema)
    (h_key : key ∈ replacedKeys) : ¬ place ++ [.field key] <+: pointer := by
  induction schema using byHeld generalizing place pointer with
  | other value h_object =>
    rw [selfPlaces_of_not_isObject h_object] at h_place
    cases h_place
  | object fields ih =>
    intro h_leads
    cases h_position with
    | root => simp at h_leads
    | keyword h_value h_part h_rest =>
      rename_i keyword value part route rest
      have h_nothing := keywordHolding_of_mem_replacedKeys h_key
      rw [selfPlaces_object] at h_place
      split at h_place
      · -- the node itself is replaced, and the pointer goes on with a keyword
        rw [List.mem_singleton.mp h_place, List.nil_append] at h_leads
        obtain ⟨h_step, -⟩ := List.cons_prefix_cons.mp h_leads
        obtain rfl := Step.field.inj h_step
        rw [h_nothing] at h_part
        simp [heldRoutes] at h_part
      · obtain ⟨step, inner, own_value, rfl, h_own, h_inner⟩ :=
          (Json.mem_within_iff h_schema).mp h_place
        rw [List.cons_append] at h_leads
        obtain ⟨h_step, h_behind⟩ := List.cons_prefix_cons.mp h_leads
        subst h_step
        obtain rfl : value = own_value := Option.some.inj (h_value.symm.trans h_own)
        obtain ⟨front, searched, h_searched, last, h_last, rfl⟩ := mem_heldPlaces_iff.mp h_inner
        -- the place is in a schema that is searched, which is the one that the pointer enters
        have h_held : holding fields keyword = keywordHolding keyword := by
          refine (holding_cases fields keyword).resolve_left fun h_none => ?_
          rw [h_none] at h_searched
          simp [heldRoutes] at h_searched
        have h_whole := Json.wellFormed_of_field? h_schema h_value
        rw [List.append_assoc] at h_behind
        rw [← h_held] at h_part
        obtain ⟨h_same, h_inside⟩ := route_unique h_whole h_searched h_part h_behind
        obtain ⟨rfl, rfl⟩ := Prod.mk.inj h_same
        have h_mem : searched ∈ heldParts (holding fields keyword) value := by
          rw [heldParts_eq]
          exact List.mem_map_of_mem h_searched
        exact ih (keyword, value) (Entries.mem_of_lookup h_value) searched h_mem
          (wellFormed_of_mem_heldRoutes h_whole h_searched) h_rest h_last h_inside

/-- Positions depend only on what stands under the keywords that hold schemas. -/
theorem SchemaPosition.of_lookup {others : Entries Json}
    (h_lookup : ∀ key, keywordHolding key ≠ .nothing → others.lookup key = fields.lookup key)
    (h_position : SchemaPosition (.object fields) pointer) :
    SchemaPosition (.object others) pointer := by
  cases h_position with
  | root => exact .root _
  | keyword h_value h_part h_rest =>
    refine .keyword ((h_lookup _ ?_).trans h_value) h_part h_rest
    intro h_nothing
    rw [h_nothing] at h_part
    simp [heldRoutes] at h_part

/-- The replacement keeps the positions of schemas. -/
theorem schemaPosition_neutralize_iff (own : String) (h_schema : schema.WellFormed) :
    SchemaPosition (neutralize own schema) pointer ↔ SchemaPosition schema pointer := by
  induction schema using byHeld generalizing pointer with
  | other value h_object => rw [neutralize_of_not_isObject h_object]
  | object fields ih =>
    have h_names := (Json.wellFormed_object_iff.mp h_schema).1
    rw [neutralize_object]
    split
    · -- what a replaced node loses is not under a keyword that holds schemas
      have h_kept : ∀ key, keywordHolding key ≠ .nothing →
          (placeholder own fields).lookup key = fields.lookup key := fun key h_holds =>
        lookup_placeholder h_names fun h_key =>
          h_holds (keywordHolding_of_mem_replacedKeys h_key)
      exact ⟨.of_lookup fun key h_holds => (h_kept key h_holds).symm, .of_lookup h_kept⟩
    · -- a schema that is searched has its positions by induction, any other stays
      have h_whole : ∀ {key value}, fields.lookup key = some value → value.WellFormed :=
        fun {key value} h_value => Json.wellFormed_of_field? h_schema h_value
      have h_inner : ∀ {key value part route rest}, fields.lookup key = some value →
          holding fields key = keywordHolding key →
          (route, part) ∈ heldRoutes (keywordHolding key) value →
            (SchemaPosition (neutralize own part) rest ↔ SchemaPosition part rest) := by
        intro key value part route rest h_value h_held h_part
        refine ih (key, value) (Entries.mem_of_lookup h_value) part ?_
          (wellFormed_of_mem_heldRoutes (h_whole h_value) h_part)
        rw [heldParts_eq, h_held]
        exact List.mem_map_of_mem h_part
      constructor
      · intro h_position
        cases h_position with
        | root => exact .root _
        | keyword h_value h_part h_rest =>
          rw [lookup_neutralFields, Option.map_eq_some_iff] at h_value
          obtain ⟨value, h_value, rfl⟩ := h_value
          rename_i keyword part route rest
          rcases holding_cases fields keyword with h_none | h_held
          · rw [h_none, neutralizeHeld] at h_part
            exact .keyword h_value h_part h_rest
          · rw [h_held, heldRoutes_neutralizeHeld, List.mem_map] at h_part
            obtain ⟨⟨inner, before⟩, h_before, h_eq⟩ := h_part
            cases h_eq
            exact .keyword h_value h_before ((h_inner h_value h_held h_before).mp h_rest)
      · intro h_position
        cases h_position with
        | root => exact .root _
        | keyword h_value h_part h_rest =>
          rename_i keyword value part route rest
          have h_after : (neutralFields own fields).lookup keyword =
              some (neutralizeHeld own (holding fields keyword) value) := by
            rw [lookup_neutralFields, h_value, Option.map_some]
          rcases holding_cases fields keyword with h_none | h_held
          · rw [h_none, neutralizeHeld] at h_after
            exact .keyword h_after h_part h_rest
          · refine .keyword h_after ?_ ((h_inner h_value h_held h_part).mpr h_rest)
            rw [h_held, heldRoutes_neutralizeHeld]
            exact List.mem_map_of_mem h_part

/-! ## References of a definition to itself -/

/-- Whether the node at a pointer refers to the definition `own` by its path. -/
def RefersAt (own : String) (schema : Json) (pointer : Pointer) : Prop :=
  schema.at? (pointer ++ [.field "$ref"]) = some (.text (Reference.definitionRoot ++ own))

/-- A reference at a position is left by the replacement unless it is at a place that is replaced. -/
theorem refersAt_neutralize_iff (h_schema : schema.WellFormed)
    (h_position : SchemaPosition schema pointer) :
    RefersAt own (neutralize own schema) pointer ↔
      RefersAt own schema pointer ∧ pointer ∉ selfPlaces own schema := by
  have h_rewritten := rewritten_neutralize own h_schema
  -- at a place that is replaced the reference is gone, elsewhere it is as before
  by_cases h_place : pointer ∈ selfPlaces own schema
  · obtain ⟨fields, fields', -, h_after, h_replaced⟩ := h_rewritten.replaced pointer h_place
    rw [RefersAt, Json.at?_concat_field h_after, h_replaced.reference]
    simp [h_place]
  · have h_text : RefersAt own (neutralize own schema) pointer ↔ RefersAt own schema pointer := by
      apply h_rewritten.at?_text_iff
      intro place h_mem key h_key h_leads
      rcases List.prefix_concat_iff.mp h_leads with h_eq | h_leads
      · rw [(List.append_inj' h_eq rfl).1] at h_mem
        exact h_place h_mem
      · exact not_prefix_of_position h_schema h_position h_mem h_key h_leads
    rw [h_text, and_iff_left h_place]

/-! ## Thorough searches -/

/-- Whether the search for references to `own` comes to every position of a schema: no such reference
    has schemas under keywords beside it, and every keyword that holds schemas is one that is
    searched in a node of that type. -/
def Thorough (own : String) (schema : Json) : Prop :=
  ∀ pointer fields, SchemaPosition schema pointer → schema.at? pointer = some (.object fields) →
    ∀ key value, fields.lookup key = some value → heldRoutes (keywordHolding key) value ≠ [] →
      refersTo own fields = false ∧ holding fields key = keywordHolding key

theorem refersTo_of_refersAt_root (h_refers : RefersAt own (.object fields) []) :
    refersTo own fields = true := by
  have h_target : fields.lookup "$ref" = some (.text (Reference.definitionRoot ++ own)) := by
    rw [← h_refers, List.nil_append]
    exact (Json.at?_concat_field (Json.at?_nil _) "$ref").symm
  have h_after : Text.after? Reference.definitionRoot (Reference.definitionRoot ++ own) = some own :=
    Text.after?_eq_some_iff.mpr rfl
  simp [refersTo, h_target, Json.text?, h_after]

/-- A thorough search finds every reference to `own`. -/
theorem mem_selfPlaces_of_thorough (h_schema : schema.WellFormed) (h_thorough : Thorough own schema)
    (h_position : SchemaPosition schema pointer) (h_refers : RefersAt own schema pointer) :
    pointer ∈ selfPlaces own schema := by
  induction h_position with
  | root schema =>
    cases schema with
    | object fields =>
      rw [selfPlaces_object, if_pos (refersTo_of_refersAt_root h_refers)]
      exact List.mem_singleton_self []
    | _ => cases h_refers
  | keyword h_value h_part h_rest ih =>
    rename_i fields key value part route rest
    have h_whole := Json.wellFormed_of_field? h_schema h_value
    -- the part is reached from the node through its keyword
    have h_at (behind : Pointer) :
        (Json.object fields).at? (.field key :: (route ++ behind)) = part.at? behind := by
      rw [Json.at?_cons, Json.child?, h_value, Option.bind_some, Json.at?_append,
        at?_route h_whole h_part, Option.bind_some]
    have h_inner : Thorough own part := by
      intro inner fields' h_inner h_fields
      exact h_thorough _ fields' (.keyword h_value h_part h_inner) ((h_at inner).trans h_fields)
    have h_found : RefersAt own part rest := by
      have h_reference : (Json.object fields).at? (.field key :: (route ++ rest) ++ [.field "$ref"]) =
          some (.text (Reference.definitionRoot ++ own)) := h_refers
      rwa [List.cons_append, List.append_assoc, h_at] at h_reference
    have h_place := ih (wellFormed_of_mem_heldRoutes h_whole h_part) h_inner h_found
    obtain ⟨h_other, h_held⟩ := h_thorough [] fields (.root _) rfl key value h_value
      (List.ne_nil_of_mem h_part)
    rw [selfPlaces_object, if_neg (Bool.eq_false_iff.mp h_other)]
    refine Json.cons_mem_within h_schema h_value ?_
    exact mem_heldPlaces_iff.mpr ⟨route, part, h_held ▸ h_part, rest, h_place, rfl⟩

/-! ## Freed definitions -/

/-- The references of a stored definition to itself by its path are those of the gathered one but for
    the ones at places that are replaced. So it is free of them exactly when all of them stood at
    such places; and it is whenever the search for them is thorough. -/
theorem definition_freed_iff (document : Json) (name : String) (stored : Json)
    (h_document : document.WellFormed) (h_stored : (ofDocument document).get? name = some stored) :
    ∃ schema, (gather document).lookup name = some schema ∧
      (∀ pointer, SchemaPosition stored pointer ∧ RefersAt name stored pointer ↔
        SchemaPosition schema pointer ∧ RefersAt name schema pointer ∧
          pointer ∉ selfPlaces name schema) ∧
      ((∀ pointer, SchemaPosition stored pointer → ¬ RefersAt name stored pointer) ↔
        ∀ pointer, SchemaPosition schema pointer → RefersAt name schema pointer →
          pointer ∈ selfPlaces name schema) ∧
      (Thorough name schema →
        ∀ pointer, SchemaPosition stored pointer → ¬ RefersAt name stored pointer) := by
  rw [get?_ofDocument, Option.map_eq_some_iff] at h_stored
  obtain ⟨schema, h_schema, rfl⟩ := h_stored
  have h_whole : schema.WellFormed :=
    wellFormed_gather h_document (name, schema) (Entries.mem_of_lookup h_schema)
  have h_left : ∀ pointer, SchemaPosition (neutralize name schema) pointer ∧
      RefersAt name (neutralize name schema) pointer ↔
        SchemaPosition schema pointer ∧ RefersAt name schema pointer ∧
          pointer ∉ selfPlaces name schema := by
    intro pointer
    rw [schemaPosition_neutralize_iff name h_whole]
    exact and_congr_right fun h_position => refersAt_neutralize_iff h_whole h_position
  have h_free : (∀ pointer, SchemaPosition (neutralize name schema) pointer →
      ¬ RefersAt name (neutralize name schema) pointer) ↔
        ∀ pointer, SchemaPosition schema pointer → RefersAt name schema pointer →
          pointer ∈ selfPlaces name schema := by
    refine forall_congr' fun pointer => ?_
    rw [← not_and, h_left, not_and, not_and]
    exact imp_congr_right fun _ => imp_congr_right fun _ => not_not
  refine ⟨schema, h_schema, h_left, h_free, fun h_thorough => h_free.mpr ?_⟩
  intro pointer h_position h_refers
  exact mem_selfPlaces_of_thorough h_whole h_thorough h_position h_refers

/-- A schema with a property that refers to the definition `Node`, and with other keywords before
    it. -/
def nodeSchema (others : Entries Json) : Json :=
  .object (others ++ [("properties", .object
    [("next", .object [("$ref", .text "#/definitions/Node")])])])

/-- A document with that schema as the definition `Node`. -/
def nodeDocument (others : Entries Json) : Json :=
  .object [("components", .object [("schemas", .object [("Node", nodeSchema others)])])]

/-- With its type written down, the definition is freed of its reference to itself. -/
theorem definition_freed_of_object :
    (nodeDocument [("type", .text "object")]).WellFormed ∧
      ∃ stored, (ofDocument (nodeDocument [("type", .text "object")])).get? "Node" = some stored ∧
        ∀ pointer, SchemaPosition stored pointer → ¬ RefersAt "Node" stored pointer := by
  have h_document : (nodeDocument [("type", .text "object")]).WellFormed := by
    simp [nodeDocument, nodeSchema, Json.WellFormed, Json.WellFormedFields]
  refine ⟨h_document, _, rfl, ?_⟩
  obtain ⟨schema, h_schema, -, h_free, -⟩ :=
    definition_freed_iff (nodeDocument [("type", .text "object")]) "Node" _ h_document rfl
  obtain rfl : nodeSchema [("type", .text "object")] = schema := Option.some.inj h_schema
  refine h_free.mpr ?_
  intro pointer h_position h_refers
  -- the positions are those of the schema and of its property
  cases h_position with
  | root => cases h_refers
  | keyword h_value h_part h_rest =>
    have h_entry := Entries.mem_of_lookup h_value
    simp only [List.cons_append, List.nil_append, List.mem_cons, Prod.mk.injEq, List.not_mem_nil,
      or_false] at h_entry
    rcases h_entry with ⟨rfl, rfl⟩ | ⟨rfl, rfl⟩
    · cases h_part
    · obtain ⟨rfl, rfl⟩ := Prod.mk.inj (List.mem_singleton.mp h_part)
      cases h_rest with
      | root => decide +kernel
      | keyword h_value h_part h_rest =>
        obtain ⟨rfl, rfl⟩ := Prod.mk.inj (List.mem_singleton.mp (Entries.mem_of_lookup h_value))
        cases h_part

/-- Without a type its properties are not searched, and the reference stays. -/
theorem definition_not_freed :
    ∃ stored, (ofDocument (nodeDocument [])).get? "Node" = some stored ∧
      SchemaPosition stored [.field "properties", .field "next"] ∧
      RefersAt "Node" stored [.field "properties", .field "next"] := by
  have h_position : SchemaPosition (nodeSchema [])
      (.field "properties" :: ([.field "next"] ++ [])) :=
    .keyword rfl (List.mem_singleton_self _) (.root _)
  exact ⟨nodeSchema [], rfl, h_position, rfl⟩

end OpenApiTs.Definitions
