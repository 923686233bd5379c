/-
  OpenApiTs.Proofs.Definitions.Neutralize

  What is left of a schema when its references to itself are replaced: all fields but those that hold
  schemas which are searched, and all of it when there is nothing to replace.
-/
import OpenApiTs.Definitions.SelfReference
import OpenApiTs.Proofs.Json.Nodes

namespace OpenApiTs.Definitions

variable {own name : String} {fields : Entries Json} {key : String} {value schema : Json}

/-! ## Parts -/

/-- The value of a field after its references to `own` are replaced, by how it holds schemas. -/
def neutralizeHeld (own : String) : Holding → Json → Json
  | .nothing, value => value
  | .schema, value => neutralize own value
  | .items, .array items => .array (items.map (neutralize own))
  | .items, value => neutralize own value
  | .members, .array items => .array (items.map (neutralize own))
  | .members, value => value
  | .properties, .object properties =>
    .object (properties.map fun entry => (entry.1, neutralize own entry.2))
  | .properties, value => value

theorem neutralizeItems_eq_map (own : String) (items : List Json) :
    neutralizeItems own items = items.map (neutralize own) := by
  induction items with
  | nil => rfl
  | cons item items ih => rw [neutralizeItems, ih, List.map_cons]

theorem neutralizeFields_schema (own : String) (fields : List (String × Json)) :
    neutralizeFields own (fun _ => .schema) fields =
      fields.map fun entry => (entry.1, neutralize own entry.2) := by
  induction fields with
  | nil => rfl
  | cons entry fields ih => simp [neutralizeFields, ih]

theorem neutralizeFields_cons (own : String) (holds : String → Holding) (key : String)
    (value : Json) (fields : List (String × Json)) :
    neutralizeFields own holds ((key, value) :: fields) =
      (key, neutralizeHeld own (holds key) value) :: neutralizeFields own holds fields := by
  cases h_holds : holds key <;> cases value <;>
    simp [neutralizeFields, h_holds, neutralizeHeld, neutralizeItems_eq_map,
      neutralizeFields_schema]

theorem neutralizeFields_eq_map (own : String) (holds : String → Holding)
    (fields : List (String × Json)) :
    neutralizeFields own holds fields =
      fields.map fun entry => (entry.1, neutralizeHeld own (holds entry.1) entry.2) := by
  induction fields with
  | nil => rfl
  | cons entry fields ih => rw [neutralizeFields_cons, ih, List.map_cons]

/-- The fields of a node after its references to `own` are replaced, unless it is one itself. -/
def neutralFields (own : String) (fields : Entries Json) : Entries Json :=
  fields.map fun entry => (entry.1, neutralizeHeld own (holding fields entry.1) entry.2)

theorem neutralize_object (own : String) (fields : Entries Json) :
    neutralize own (.object fields) =
      if refersTo own fields then .object (placeholder own fields)
      else .object (neutralFields own fields) := by
  rw [neutralize, neutralizeFields_eq_map, neutralFields]

/-- The value of a keyword is neutralized as the keyword holds schemas. -/
theorem lookup_neutralFields (own : String) (fields : Entries Json) (key : String) :
    (neutralFields own fields).lookup key =
      (fields.lookup key).map (neutralizeHeld own (holding fields key)) :=
  Entries.lookup_map (fun name => neutralizeHeld own (holding fields name)) fields key

theorem names_neutralFields (own : String) (fields : Entries Json) :
    Entries.names (neutralFields own fields) = Entries.names fields := by
  rw [neutralFields, Entries.names, Entries.names, List.map_map]
  rfl

theorem has_neutralFields (own : String) (fields : Entries Json) (key : String) :
    Entries.has (neutralFields own fields) key = Entries.has fields key := by
  rw [Entries.has, lookup_neutralFields, Option.isSome_map, Entries.has]

/-! ## What fields hold -/

/-- The keywords under which schemas are searched. -/
def holdingKeys : List String := ["properties", "items", "allOf", "anyOf", "oneOf", "not"]

theorem mem_of_combination? (h_found : combination? fields = some key) :
    key ∈ ["allOf", "anyOf", "oneOf"] :=
  List.mem_of_find?_eq_some h_found

/-- Nothing is searched under any other keyword. -/
theorem holding_eq_nothing (h_key : key ∉ holdingKeys) : holding fields key = .nothing := by
  simp only [holdingKeys, List.mem_cons, List.not_mem_nil, or_false, not_or] at h_key
  rw [holding]
  split
  · exact if_neg h_key.1
  · exact if_neg h_key.2.1
  · rw [if_neg, if_neg h_key.2.2.2.2.2]
    intro h_found
    have h_mem := mem_of_combination? h_found
    simp only [List.mem_cons, List.not_mem_nil, or_false] at h_mem
    exact h_mem.elim h_key.2.2.1 (fun h_mem => h_mem.elim h_key.2.2.2.1 h_key.2.2.2.2.1)

theorem lookup_neutralFields_of_not_mem (own : String) (h_key : key ∉ holdingKeys) :
    (neutralFields own fields).lookup key = fields.lookup key := by
  rw [lookup_neutralFields, holding_eq_nothing h_key]
  cases fields.lookup key with
  | some value => rfl
  | none => rfl

/-- Items are searched only as items, properties only as properties. -/
theorem holding_items (fields : Entries Json) :
    holding fields "items" = .nothing ∨ holding fields "items" = .items := by
  rw [holding]
  split
  · exact .inl (if_neg (by decide))
  · exact .inr (if_pos rfl)
  · left
    rw [if_neg, if_neg (by decide)]
    intro h_found
    have h_mem := mem_of_combination? h_found
    revert h_mem
    decide

theorem holding_properties (fields : Entries Json) :
    holding fields "properties" = .nothing ∨ holding fields "properties" = .properties := by
  rw [holding]
  split
  · exact .inr (if_pos rfl)
  · exact .inl (if_neg (by decide))
  · left
    rw [if_neg, if_neg (by decide)]
    intro h_found
    have h_mem := mem_of_combination? h_found
    revert h_mem
    decide

theorem holding_combination (h_key : key ∈ ["allOf", "anyOf", "oneOf"]) :
    holding fields key = .nothing ∨ holding fields key = .members := by
  have h_not : key ≠ "properties" ∧ key ≠ "items" ∧ key ≠ "not" := by
    simp only [List.mem_cons, List.not_mem_nil, or_false] at h_key
    rcases h_key with rfl | rfl | rfl <;> decide
  -- properties and items come first, so a combination is searched only without them
  rw [holding]
  split
  · exact .inl (if_neg h_not.1)
  · exact .inl (if_neg h_not.2.1)
  · split
    · exact .inr rfl
    · exact .inl (if_neg h_not.2.2)

/-! ## Placeholders -/

theorem lookup_title_placeholder (own : String) (fields : Entries Json) :
    (placeholder own fields).lookup "title" = some (.text (own ++ marker)) := by
  rw [placeholder, Entries.lookup_put, if_pos rfl]

theorem lookup_placeholder (h_names : (Entries.names fields).Nodup)
    (h_key : key ∉ ["$ref", "type", "title"]) :
    (placeholder own fields).lookup key = fields.lookup key := by
  simp only [List.mem_cons, List.not_mem_nil, or_false, not_or] at h_key
  rw [placeholder, Entries.lookup_put, if_neg h_key.2.2, Entries.lookup_put, if_neg h_key.2.1,
    Entries.lookup_remove_of_ne h_names h_key.1]

/-- Whether a schema is itself a reference to the definition `own`. -/
def isSelfReference (own : String) : Json → Bool
  | .object fields => refersTo own fields
  | _ => false

/-! ## Going into what is held -/

/-- The schemas that the value of a field holds. -/
def heldParts : Holding → Json → List Json
  | .nothing, _ => []
  | .schema, value => [value]
  | .items, .array items => items
  | .items, value => [value]
  | .members, .array items => items
  | .members, _ => []
  | .properties, .object properties => properties.map Prod.snd
  | .properties, _ => []

/-- What a value holds is the value itself, an item of it or the value of one of its fields. -/
theorem heldParts_cases {held : Holding} {part : Json} (h_part : part ∈ heldParts held value) :
    part = value ∨ (∃ items, value = .array items ∧ part ∈ items) ∨
      ∃ properties, value = .object properties ∧ part ∈ properties.map Prod.snd := by
  cases held with
  | nothing => cases h_part
  | schema => exact .inl (List.mem_singleton.mp h_part)
  | items =>
    cases value with
    | array items => exact .inr (.inl ⟨items, rfl, h_part⟩)
    | _ => exact .inl (List.mem_singleton.mp h_part)
  | members =>
    cases value with
    | array items => exact .inr (.inl ⟨items, rfl, h_part⟩)
    | _ => cases h_part
  | properties =>
    cases value with
    | object properties => exact .inr (.inr ⟨properties, rfl, h_part⟩)
    | _ => cases h_part

theorem sizeOf_le_of_mem_heldParts {held : Holding} {part : Json}
    (h_part : part ∈ heldParts held value) : sizeOf part ≤ sizeOf value := by
  -- the value itself, or a part of a list or an object, which is smaller
  rcases heldParts_cases h_part with rfl | ⟨items, rfl, h_item⟩ | ⟨properties, rfl, h_mem⟩
  · exact Nat.le_refl _
  · have h_less := List.sizeOf_lt_of_mem h_item
    rw [Json.array.sizeOf_spec]
    omega
  · obtain ⟨entry, h_entry, rfl⟩ := List.mem_map.mp h_mem
    have h_less := List.sizeOf_lt_of_mem h_entry
    have h_pair : sizeOf entry.2 ≤ sizeOf entry := by
      cases entry
      simp
    rw [Json.object.sizeOf_spec]
    omega

/-- Induction on a schema through the schemas that its fields hold. -/
@[elab_as_elim]
theorem byHeld {motive : Json → Prop}
    (object : ∀ fields : Entries Json,
      (∀ entry ∈ fields, ∀ part ∈ heldParts (holding fields entry.1) entry.2, motive part) →
        motive (.object fields))
    (other : ∀ value : Json, value.isObject = false → motive value) (value : Json) :
    motive value := by
  cases value with
  | object fields =>
    apply object
    intro entry h_entry part h_part
    exact byHeld object other part
  | _ => exact other _ rfl
termination_by sizeOf value
decreasing_by
  have h_part_le := sizeOf_le_of_mem_heldParts h_part
  have h_less := List.sizeOf_lt_of_mem h_entry
  have h_pair : sizeOf entry.2 ≤ sizeOf entry := by
    cases entry
    simp
  rw [Json.object.sizeOf_spec]
  omega

theorem neutralize_of_not_isObject (h_object : schema.isObject = false) :
    neutralize own schema = schema := by
  cases schema with
  | object fields => cases h_object
  | _ => rw [neutralize]; simp

theorem neutralize_ne_array (h_single : ∀ items, schema ≠ .array items) :
    ∀ items, neutralize own schema ≠ .array items := by
  cases schema with
  | object fields =>
    rw [neutralize_object]
    split <;> simp
  | _ => rwa [neutralize_of_not_isObject rfl]

/-! ## Nothing to replace -/

theorem selfReferencesInItems_eq_zero_iff {items : List Json} :
    selfReferencesInItems own items = 0 ↔ ∀ item ∈ items, selfReferences own item = 0 := by
  induction items with
  | nil => simp [selfReferencesInItems]
  | cons item items ih => simp [selfReferencesInItems, ih]

theorem selfReferencesInFields_schema {properties : List (String × Json)} :
    selfReferencesInFields own (fun _ => .schema) properties = 0 ↔
      ∀ part ∈ properties.map Prod.snd, selfReferences own part = 0 := by
  induction properties with
  | nil => simp [selfReferencesInFields]
  | cons entry properties ih => simp [selfReferencesInFields, ih]

/-- No field has a self-reference exactly when no schema that it holds has one. -/
theorem selfReferencesInFields_eq_zero_iff {holds : String → Holding}
    {fields : List (String × Json)} :
    selfReferencesInFields own holds fields = 0 ↔
      ∀ entry ∈ fields, ∀ part ∈ heldParts (holds entry.1) entry.2,
        selfReferences own part = 0 := by
  induction fields with
  | nil => simp [selfReferencesInFields]
  | cons entry fields ih =>
    obtain ⟨key, value⟩ := entry
    rw [List.forall_mem_cons, ← ih]
    cases h_holds : holds key <;> cases value <;>
      simp [selfReferencesInFields, h_holds, heldParts, selfReferencesInItems_eq_zero_iff,
        selfReferencesInFields_schema]

/-- A value whose parts stay as they are stays as it is. -/
theorem neutralizeHeld_of_forall {held : Holding}
    (h_parts : ∀ part ∈ heldParts held value, neutralize own part = part) :
    neutralizeHeld own held value = value := by
  -- lists of schemas are held in two ways, so their case comes first
  have h_items (items : List Json) (h_same : ∀ item ∈ items, neutralize own item = item) :
      items.map (neutralize own) = items :=
    (List.map_congr_left h_same).trans (List.map_id items)
  have h_properties (properties : List (String × Json))
      (h_same : ∀ part ∈ properties.map Prod.snd, neutralize own part = part) :
      properties.map (fun entry => (entry.1, neutralize own entry.2)) = properties := by
    refine (List.map_congr_left ?_).trans (List.map_id properties)
    intro entry h_entry
    rw [h_same entry.2 (List.mem_map_of_mem h_entry)]
    rfl
  cases held with
  | nothing => rfl
  | schema => exact h_parts value (List.mem_singleton_self value)
  | items =>
    cases value with
    | array items => exact congrArg Json.array (h_items items h_parts)
    | _ => exact h_parts _ (List.mem_singleton_self _)
  | members =>
    cases value with
    | array items => exact congrArg Json.array (h_items items h_parts)
    | _ => rfl
  | properties =>
    cases value with
    | object properties => exact congrArg Json.object (h_properties properties h_parts)
    | _ => rfl

/-- A schema without references to itself stays as it is. -/
theorem neutralize_of_none (h_none : selfReferences own schema = 0) :
    neutralize own schema = schema := by
  induction schema using byHeld with
  | other value h_object => exact neutralize_of_not_isObject h_object
  | object fields ih =>
    rw [selfReferences] at h_none
    split at h_none
    · cases h_none
    · next h_refers =>
      -- the node is none, and neither is any schema that it holds
      rw [neutralize_object, if_neg h_refers, neutralFields]
      rw [selfReferencesInFields_eq_zero_iff] at h_none
      refine congrArg Json.object ((List.map_congr_left ?_).trans (List.map_id fields))
      intro entry h_entry
      rw [neutralizeHeld_of_forall fun part h_part =>
        ih entry h_entry part h_part (h_none entry h_entry part h_part)]
      rfl

/-! ## Well-formed values -/

theorem wellFormed_placeholder (h_fields : Json.WellFormed (.object fields)) :
    Json.WellFormed (.object (placeholder own fields)) :=
  Json.wellFormed_put (Json.wellFormed_put (Json.wellFormed_remove h_fields "$ref") trivial) trivial

theorem wellFormed_neutralizeHeld {held : Holding} (h_value : value.WellFormed)
    (h_parts : ∀ part ∈ heldParts held value, part.WellFormed →
      (neutralize own part).WellFormed) :
    (neutralizeHeld own held value).WellFormed := by
  have h_items (items : List Json) (h_array : Json.WellFormed (.array items))
      (h_each : ∀ item ∈ items, item.WellFormed → (neutralize own item).WellFormed) :
      Json.WellFormed (.array (items.map (neutralize own))) := by
    rw [Json.wellFormed_array_iff] at h_array ⊢
    intro item h_item
    obtain ⟨before, h_before, rfl⟩ := List.mem_map.mp h_item
    exact h_each before h_before (h_array before h_before)
  cases held with
  | nothing => exact h_value
  | schema => exact h_parts value (List.mem_singleton_self value) h_value
  | items =>
    cases value with
    | array items => exact h_items items h_value h_parts
    | _ => exact h_parts _ (List.mem_singleton_self _) h_value
  | members =>
    cases value with
    | array items => exact h_items items h_value h_parts
    | _ => exact h_value
  | properties =>
    cases value with
    | object properties =>
      rw [Json.wellFormed_object_iff] at h_value
      rw [neutralizeHeld, Json.wellFormed_object_iff, Entries.names, List.map_map]
      refine ⟨h_value.1, ?_⟩
      intro entry h_entry
      obtain ⟨before, h_before, rfl⟩ := List.mem_map.mp h_entry
      exact h_parts before.2 (List.mem_map_of_mem h_before) (h_value.2 before h_before)
    | _ => exact h_value

/-- Neutralizing leaves a schema well-formed. -/
theorem wellFormed_neutralize (h_schema : schema.WellFormed) :
    (neutralize own schema).WellFormed := by
  induction schema using byHeld with
  | other value h_object => rwa [neutralize_of_not_isObject h_object]
  | object fields ih =>
    rw [neutralize_object]
    split
    · exact wellFormed_placeholder h_schema
    · rw [Json.wellFormed_object_iff] at h_schema ⊢
      -- the keys stay, so they are still different
      rw [names_neutralFields]
      refine ⟨h_schema.1, ?_⟩
      intro entry h_entry
      obtain ⟨before, h_before, rfl⟩ := List.mem_map.mp h_entry
      exact wellFormed_neutralizeHeld (h_schema.2 before h_before) (ih before h_before)

end OpenApiTs.Definitions
