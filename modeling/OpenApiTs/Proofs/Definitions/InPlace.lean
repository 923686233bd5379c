/-
  OpenApiTs.Proofs.Definitions.InPlace

  Definitions from shared request bodies whose schemas lose their descriptions. Taking one out moves
  the last field of the schema into its place; with the other fields left in order, the same
  definitions come out but for the order of their outermost fields.
-/
import OpenApiTs.Proofs.Definitions.Gather
import OpenApiTs.Proofs.Definitions.Rewritten
import OpenApiTs.Proofs.Json.Reordered

namespace OpenApiTs.Definitions

open OpenApiTs.Json (SameFields)

variable {document schema schema' body : Json} {fields fields' : Entries Json}
  {gathered gathered' : Entries Json} {own name : String}

/-! ## Gathering with the fields in order -/

/-- As `ofBody?`, with a way to take the description out of fields. -/
def ofBodyTaking? (take : Entries Json → Entries Json) (body : Json) : Option Json :=
  match jsonSchema? body with
  | some (.object fields) =>
    if Reference.isReference (.object fields) then none
    else
      match body.field? "description" with
      | none | some .null => some (.object (take fields))
      | some description => some (.object (Entries.put fields "description" description))
  | _ => none

/-- As `gather`, with a way to take the description out of fields. -/
def gatherTaking (take : Entries Json → Entries Json) (document : Json) : Entries Json :=
  let bodies := (components document "requestBodies").filterMap fun entry =>
    (ofBodyTaking? take entry.2).map fun schema => (entry.1, schema)
  Entries.putAll (Entries.ofPairs bodies) (components document "schemas")

theorem gather_eq_gatherTaking (document : Json) :
    gather document =
      gatherTaking (fun fields => Entries.remove fields "description") document :=
  rfl

/-- The definitions of a document when descriptions are taken out in place. -/
def ofDocumentInPlace (document : Json) : Definitions :=
  neutralized (gatherTaking (fun fields => Entries.without fields "description") document)

/-! ## Bodies -/

theorem ofBodyTaking?_sameFields (h_body : body.WellFormed) :
    Option.Rel SameFields
      (ofBodyTaking? (fun fields => Entries.remove fields "description") body)
      (ofBodyTaking? (fun fields => Entries.without fields "description") body) := by
  rw [ofBodyTaking?, ofBodyTaking?]
  split
  · next fields h_schema =>
    have h_fields := wellFormed_jsonSchema? h_body h_schema
    split
    · exact .none
    · split
      · exact .some (Json.sameFields_remove h_fields "description")
      · exact .some (Json.sameFields_remove h_fields "description")
      · next description _ h_description =>
        have h_held := Json.wellFormed_of_field? h_body h_description
        exact .some (.refl (Json.wellFormed_put h_fields h_held))
  · exact .none

/-- The two ways of taking a description away give the same definitions up to the order of their
    keys. -/
theorem gather_sameFields (h_document : document.WellFormed) :
    List.Forall₂ (Entries.Related SameFields) (gather document)
      (gatherTaking (fun fields => Entries.without fields "description") document) := by
  have h_bodies := wellFormed_components h_document "requestBodies"
  have h_schemas := wellFormed_components h_document "schemas"
  rw [gather_eq_gatherTaking, gatherTaking, gatherTaking]
  -- the bodies lose their descriptions, and the schemas of the document are laid over them
  refine Entries.putAll_related (Entries.putAll_related .nil ?_) ?_
  · generalize components document "requestBodies" = bodies at h_bodies
    induction bodies with
    | nil => exact .nil
    | cons entry bodies ih =>
      rw [List.forall_mem_cons] at h_bodies
      rw [List.filterMap_cons, List.filterMap_cons]
      rcases Outcome.rel_cases (ofBodyTaking?_sameFields h_bodies.1) with
        ⟨h_none, h_none'⟩ | ⟨schema, schema', h_schema, h_schema', h_both⟩
      · rw [h_none, h_none']
        exact ih h_bodies.2
      · rw [h_schema, h_schema']
        exact .cons ⟨rfl, h_both⟩ (ih h_bodies.2)
  · exact List.forall₂_same.mpr fun entry h_entry => ⟨rfl, .refl (h_schemas entry h_entry)⟩

/-! ## References to themselves -/

theorem refersTo_eq (h_lookup : ∀ key, fields.lookup key = fields'.lookup key) (own : String) :
    refersTo own fields = refersTo own fields' := by
  rw [refersTo, refersTo, h_lookup]

theorem holding_eq (h_lookup : ∀ key, fields.lookup key = fields'.lookup key) (key : String) :
    holding fields key = holding fields' key := by
  have h_combination : combination? fields = combination? fields' := by
    simp only [combination?, h_lookup]
  rw [holding, holding, h_lookup, h_combination]

/-- A placeholder is made of the fields by name, so their order does not show. -/
theorem lookup_placeholder_eq (h_names : (Entries.names fields).Nodup)
    (h_names' : (Entries.names fields').Nodup)
    (h_lookup : ∀ key, fields.lookup key = fields'.lookup key) (own key : String) :
    (placeholder own fields).lookup key = (placeholder own fields').lookup key := by
  have h_removed : (fields.remove "$ref").lookup key = (fields'.remove "$ref").lookup key := by
    rw [Entries.lookup_remove_eq h_names, Entries.lookup_remove_eq h_names']
    by_cases h_key : key = "$ref"
    · subst h_key
      rw [Entries.lookup_eq_none_iff.mpr (Entries.not_mem_names_without fields _),
        Entries.lookup_eq_none_iff.mpr (Entries.not_mem_names_without fields' _)]
    · rw [Entries.lookup_without_of_ne h_key, Entries.lookup_without_of_ne h_key, h_lookup]
  simp only [placeholder, Entries.lookup_put, h_removed]

/-- Replacing references to a definition by a placeholder goes by the values of fields only. -/
theorem neutralize_sameFields (own : String) (h_schemas : SameFields schema schema') :
    SameFields (neutralize own schema) (neutralize own schema') := by
  cases h_schemas with
  | refl h_schema => exact .refl (wellFormed_neutralize h_schema)
  | @object fields fields' h_fields h_fields' h_lookup =>
    have h_neutral : (neutralize own (.object fields)).WellFormed := wellFormed_neutralize h_fields
    have h_neutral' : (neutralize own (.object fields')).WellFormed :=
      wellFormed_neutralize h_fields'
    rw [neutralize_object] at h_neutral h_neutral' ⊢
    rw [neutralize_object]
    -- the reference is looked up by name, so both are replaced or none is
    rw [← refersTo_eq h_lookup own] at h_neutral' ⊢
    split at h_neutral
    · next h_refers =>
      rw [if_pos h_refers] at h_neutral' ⊢
      rw [if_pos h_refers]
      exact .object h_neutral h_neutral' (lookup_placeholder_eq
        (Json.wellFormed_object_iff.mp h_fields).1 (Json.wellFormed_object_iff.mp h_fields').1
        h_lookup own)
    · next h_refers =>
      rw [if_neg h_refers] at h_neutral' ⊢
      rw [if_neg h_refers]
      refine .object h_neutral h_neutral' fun key => ?_
      rw [lookup_neutralFields, lookup_neutralFields, h_lookup, holding_eq h_lookup]

/-- Schemas with the same fields refer to a name alike. -/
theorem selfReferences_eq_zero_of_sameFields (h_schemas : SameFields schema schema')
    (h_none : selfReferences own schema = 0) : selfReferences own schema' = 0 := by
  have h_reordered := h_schemas.reordered
  -- without references the one schema is left as it is, so the other equals what becomes of it
  have h_neutral := (neutralize_sameFields own h_schemas).reordered
  rw [neutralize_of_none h_none] at h_neutral
  exact selfReferences_eq_zero_of_same h_reordered.wellFormed'
    (Json.same_trans h_reordered.symm.same h_neutral.same)

/-! ## Both sets of definitions -/

/-- So are the stored definitions, and the same ones refer to themselves. -/
theorem neutralized_sameFields
    (h_gathered : List.Forall₂ (Entries.Related SameFields) gathered gathered') :
    List.Forall₂ (Entries.Related SameFields) (neutralized gathered).schemas
        (neutralized gathered').schemas ∧
      (neutralized gathered).selfReferential = (neutralized gathered').selfReferential := by
  induction h_gathered with
  | nil => exact ⟨.nil, rfl⟩
  | @cons entry entry' others others' h_entry _ ih =>
    obtain ⟨h_schemas, h_names⟩ := ih
    obtain ⟨h_name, h_values⟩ := h_entry
    refine ⟨.cons ⟨h_name, ?_⟩ h_schemas, ?_⟩
    · dsimp only
      rw [← h_name]
      exact neutralize_sameFields entry.1 h_values
    · have h_zero : selfReferences entry.1 entry.2 = 0 ↔ selfReferences entry'.1 entry'.2 = 0 := by
        rw [← h_name]
        exact ⟨selfReferences_eq_zero_of_sameFields h_values,
          selfReferences_eq_zero_of_sameFields h_values.symm⟩
      simp only [neutralized, List.filter_cons] at h_names ⊢
      by_cases h_none : selfReferences entry.1 entry.2 = 0
      · simp only [h_none, h_zero.mp h_none]
        exact h_names
      · simp only [h_none, mt h_zero.mpr h_none, ne_eq, not_false_eq_true, decide_true, if_true,
          List.map_cons]
        exact congrArg₂ List.cons h_name h_names

end OpenApiTs.Definitions
