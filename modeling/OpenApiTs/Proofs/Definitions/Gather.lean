/-
  OpenApiTs.Proofs.Definitions.Gather

  The definitions of a document: their names are all different, a shared schema is found under its
  name, and each definition is the gathered schema with its references to itself replaced. The
  definitions of a well-formed document are well formed.
-/
import OpenApiTs.Definitions.Collect
import OpenApiTs.Proofs.Json.Pointer

namespace OpenApiTs.Definitions

variable {document schema : Json} {name : String}

theorem nodup_names_gather (document : Json) : (Entries.names (gather document)).Nodup :=
  Entries.nodup_names_putAll (Entries.nodup_names_ofPairs _) _

/-- A shared schema stands over a request body of its name. -/
theorem lookup_gather (h_names : (Entries.names (components document "schemas")).Nodup)
    (h_schema : (name, schema) ∈ components document "schemas") :
    (gather document).lookup name = some schema :=
  Entries.lookup_putAll_of_mem _ h_names h_schema

/-! ## Well-formed definitions -/

/-- The container of the components of one kind, as it stands in the document. -/
theorem at?_container {kind : String} {entries : Entries Json}
    (h_entries : ((document.field? "components").bind fun all => all.fieldsAt? kind) =
      some entries) :
    document.at? [.field "components", .field kind] = some (.object entries) := by
  obtain ⟨all, h_all, h_fields⟩ := Option.bind_eq_some_iff.mp h_entries
  obtain ⟨held, h_held, h_object⟩ := Option.bind_eq_some_iff.mp h_fields
  cases held with
  | object fields =>
    cases h_object
    rw [Json.at?_cons, Json.child?_field, h_all, Option.bind_some, Json.at?_cons,
      Json.child?_field, h_held, Option.bind_some, Json.at?_nil]
  | _ => cases h_object

theorem wellFormed_object_components (h_document : document.WellFormed) (kind : String) :
    Json.WellFormed (.object (components document kind)) := by
  have h_none : Json.WellFormed (.object []) := ⟨List.nodup_nil, trivial⟩
  rw [components]
  split
  · next entries h_entries =>
    split
    · exact h_none
    · exact Json.wellFormed_of_at? h_document (at?_container h_entries)
  · exact h_none

theorem wellFormed_components (h_document : document.WellFormed) (kind : String) :
    ∀ entry ∈ components document kind, entry.2.WellFormed :=
  (Json.wellFormed_object_iff.mp (wellFormed_object_components h_document kind)).2

theorem nodup_names_components (h_document : document.WellFormed) (kind : String) :
    (Entries.names (components document kind)).Nodup :=
  (Json.wellFormed_object_iff.mp (wellFormed_object_components h_document kind)).1

/-- A container that is itself a reference has no components. -/
theorem components_eq_nil {kind : String} {reference : Json}
    (h_reference : document.at? [.field "components", .field kind, .field "$ref"] =
      some reference) : components document kind = [] := by
  rw [components]
  split
  · next entries h_entries =>
    have h_container := Json.at?_concat_field (at?_container h_entries) "$ref"
    rw [List.cons_append, List.cons_append, List.nil_append, h_reference] at h_container
    rw [Entries.has, ← h_container, Option.isSome_some, if_pos rfl]
  · rfl

theorem wellFormed_jsonSchema? {body : Json} (h_body : body.WellFormed)
    (h_schema : jsonSchema? body = some schema) : schema.WellFormed := by
  obtain ⟨content, h_content, h_json⟩ := Option.bind_eq_some_iff.mp h_schema
  obtain ⟨media, h_media, h_found⟩ := Option.bind_eq_some_iff.mp h_json
  exact Json.wellFormed_of_field? (Json.wellFormed_of_field?
    (Json.wellFormed_of_field? h_body h_content) h_media) h_found

/-- What is made of a request body is well-formed as the body was. -/
theorem wellFormed_ofBody? {body : Json} (h_body : body.WellFormed)
    (h_schema : ofBody? body = some schema) : schema.WellFormed := by
  rw [ofBody?] at h_schema
  split at h_schema
  · next fields h_json =>
    have h_fields : Json.WellFormed (.object fields) := wellFormed_jsonSchema? h_body h_json
    -- the schema loses its description, or gets that of the body
    split at h_schema
    · cases h_schema
    · split at h_schema
      · cases h_schema
        exact Json.wellFormed_remove h_fields "description"
      · cases h_schema
        exact Json.wellFormed_remove h_fields "description"
      · next description _ h_description =>
        cases h_schema
        exact Json.wellFormed_put h_fields (Json.wellFormed_of_field? h_body h_description)
  · cases h_schema

theorem wellFormed_gather (h_document : document.WellFormed) :
    ∀ entry ∈ gather document, entry.2.WellFormed := by
  intro entry h_entry
  -- a definition comes from a request body or from a schema
  rcases Entries.mem_putAll h_entry with h_body | h_schema
  · obtain ⟨own, h_own, h_made⟩ := List.mem_filterMap.mp (Entries.mem_of_mem_ofPairs h_body)
    obtain ⟨schema, h_schema, rfl⟩ := Option.map_eq_some_iff.mp h_made
    exact wellFormed_ofBody? (wellFormed_components h_document "requestBodies" own h_own) h_schema
  · exact wellFormed_components h_document "schemas" entry h_schema

/-! ## Definitions that refer to themselves -/

/-- Definitions with their references to themselves left in place. -/
def plain (gathered : Entries Json) : Definitions := { schemas := gathered, selfReferential := [] }

/-- Definitions with their references to themselves replaced by placeholders. -/
def neutralized (gathered : Entries Json) : Definitions :=
  { schemas := gathered.map fun entry => (entry.1, neutralize entry.1 entry.2)
    selfReferential :=
      (gathered.filter fun entry => selfReferences entry.1 entry.2 ≠ 0).map Prod.fst }

theorem ofDocument_eq (document : Json) : ofDocument document = neutralized (gather document) := rfl

variable {gathered : Entries Json}

theorem get?_neutralized (gathered : Entries Json) (name : String) :
    (neutralized gathered).get? name = (gathered.lookup name).map (neutralize name) :=
  Entries.lookup_map neutralize gathered name

/-- A definition is stored with its own references neutralized. -/
theorem get?_ofDocument (document : Json) (name : String) :
    (ofDocument document).get? name = ((gather document).lookup name).map (neutralize name) :=
  get?_neutralized (gather document) name

theorem isSelfReferential_neutralized (h_entry : (name, schema) ∈ gathered)
    (h_some : selfReferences name schema ≠ 0) :
    (neutralized gathered).isSelfReferential name = true := by
  rw [isSelfReferential, List.contains_iff_mem]
  exact List.mem_map.mpr ⟨(name, schema), List.mem_filter.mpr ⟨h_entry, by simpa using h_some⟩, rfl⟩

end OpenApiTs.Definitions
