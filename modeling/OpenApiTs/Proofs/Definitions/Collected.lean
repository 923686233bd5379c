/-
  OpenApiTs.Proofs.Definitions.Collected

  Which definitions a document gives, in which order, and with which schemas: the inline bodies of
  its shared requests, then its schemas, which stand over bodies of the same name. Those that the
  replacement of self-references changes are remembered, and no others.
-/
import OpenApiTs.Proofs.Definitions.Gather
import OpenApiTs.Proofs.Definitions.Rewritten

namespace OpenApiTs.Definitions

variable {document body schema : Json} {fields : Entries Json} {name : String}

/-! ## Shared request bodies -/

/-- The fields of the inline schema of a request body's JSON content: it is an object without a text
    under `$ref`. -/
def inlineFields? (body : Json) : Option (Entries Json) :=
  match body.at? [.field "content", .field "application/json", .field "schema"] with
  | some (.object fields) =>
    if ((fields.lookup "$ref").bind Json.text?).isSome then none else some fields
  | _ => none

/-- The names of the shared request bodies with inline schemas, in order. -/
def inlineNames (document : Json) : List String :=
  Entries.names ((components document "requestBodies").filter fun entry =>
    (inlineFields? entry.2).isSome)

/-- The description of a request body, unless it is null. -/
def description? (body : Json) : Option Json :=
  match body.field? "description" with
  | some .null => none
  | description => description

/-- Whether the fields `described` are those of a schema with the description of a request body in
    place of its own. -/
structure Described (body : Json) (fields described : Entries Json) : Prop where
  names_nodup : (Entries.names described).Nodup
  description : described.lookup "description" = description? body
  others : ∀ key ≠ "description", described.lookup key = fields.lookup key

theorem jsonSchema?_eq (body : Json) :
    jsonSchema? body =
      body.at? [.field "content", .field "application/json", .field "schema"] := by
  simp only [jsonSchema?, Json.at?, Json.child?_field, Option.bind_fun_some]

/-- An inline schema is defined with the description of the body. -/
theorem exists_ofBody? (h_body : body.WellFormed) (h_inline : inlineFields? body = some fields) :
    ∃ described, ofBody? body = some (.object described) ∧ Described body fields described := by
  unfold inlineFields? at h_inline
  split at h_inline
  case h_2 => cases h_inline
  case h_1 own h_at =>
    split at h_inline
    · cases h_inline
    · next h_reference =>
      cases h_inline
      have h_names := (Json.wellFormed_object_iff.mp (Json.wellFormed_of_at? h_body h_at)).1
      have h_plain : ¬ Reference.isReference (.object fields) = true := h_reference
      rw [ofBody?, jsonSchema?_eq, h_at]
      dsimp only
      rw [if_neg h_plain]
      -- a body without a description takes that of the schema away
      have h_removed (h_none : description? body = none) :
          Described body fields (Entries.remove fields "description") :=
        ⟨Entries.nodup_names_remove h_names _, by rw [h_none, Entries.lookup_remove h_names],
          fun key h_key => Entries.lookup_remove_of_ne h_names h_key⟩
      split
      · next h_description =>
        exact ⟨_, rfl, h_removed (by simp [description?, h_description])⟩
      · next h_description =>
        exact ⟨_, rfl, h_removed (by simp [description?, h_description])⟩
      · next description h_some h_description =>
        refine ⟨_, rfl, Entries.nodup_names_put h_names _ _, ?_, ?_⟩
        · rw [Entries.lookup_put, if_pos rfl, description?, h_description]
          split
          · next h_null => exact absurd (Option.some.inj h_null) h_some
          · rfl
        · intro key h_key
          rw [Entries.lookup_put, if_neg h_key]

theorem ofBody?_eq_none (h_inline : inlineFields? body = none) : ofBody? body = none := by
  rw [ofBody?, jsonSchema?_eq]
  cases h_at : body.at? [.field "content", .field "application/json", .field "schema"] with
  | none => rfl
  | some schema =>
    cases schema with
    | object own =>
      -- a body without inline fields has no schema, a reference, or none that is an object
      by_cases h_refers : Reference.isReference (.object own) = true
      · exact if_pos h_refers
      · have h_plain : ¬ ((own.lookup "$ref").bind Json.text?).isSome = true := h_refers
        simp only [inlineFields?, h_at, if_neg h_plain] at h_inline
        cases h_inline
    | _ => rfl

/-- Which request bodies give definitions. -/
theorem isSome_ofBody? (h_body : body.WellFormed) :
    (ofBody? body).isSome = (inlineFields? body).isSome := by
  cases h_inline : inlineFields? body with
  | none => rw [ofBody?_eq_none h_inline]; rfl
  | some fields =>
    obtain ⟨described, h_described, -⟩ := exists_ofBody? h_body h_inline
    rw [h_described]
    rfl

/-! ## Both sources -/

/-- The definitions that shared request bodies give. -/
def bodyDefinitions (document : Json) : Entries Json :=
  (components document "requestBodies").filterMap fun entry =>
    (ofBody? entry.2).map fun schema => (entry.1, schema)

theorem names_bodyDefinitions (h_document : document.WellFormed) :
    Entries.names (bodyDefinitions document) = inlineNames document := by
  have h_bodies := wellFormed_components h_document "requestBodies"
  rw [bodyDefinitions, inlineNames]
  generalize components document "requestBodies" = bodies at h_bodies ⊢
  induction bodies with
  | nil => rfl
  | cons entry bodies ih =>
    rw [List.forall_mem_cons] at h_bodies
    -- a body is in both lists or in none of them
    have h_some := isSome_ofBody? h_bodies.1
    rw [List.filterMap_cons, List.filter_cons, ← h_some]
    cases h_own : ofBody? entry.2 with
    | none => exact ih h_bodies.2
    | some schema => exact congrArg (entry.1 :: ·) (ih h_bodies.2)

theorem nodup_inlineNames (h_document : document.WellFormed) : (inlineNames document).Nodup :=
  (nodup_names_components h_document "requestBodies").sublist (List.filter_sublist.map Prod.fst)

/-- No body repeats a name, so gathering is laying the schemas over the bodies. -/
theorem gather_eq (h_document : document.WellFormed) :
    gather document = Entries.putAll (bodyDefinitions document) (components document "schemas") := by
  have h_names : (Entries.names (bodyDefinitions document)).Nodup := by
    rw [names_bodyDefinitions h_document]
    exact nodup_inlineNames h_document
  rw [gather, ← bodyDefinitions, Entries.ofPairs_of_nodup h_names]

/-- The bodies come first, then the schemas that are not among them. -/
theorem names_gather (h_document : document.WellFormed) :
    Entries.names (gather document) = inlineNames document ++
      (Entries.names (components document "schemas")).filter fun own =>
        own ∉ inlineNames document := by
  rw [gather_eq h_document, Entries.names_putAll _ (nodup_names_components h_document "schemas"),
    names_bodyDefinitions h_document]

/-- A body under a name that no schema has is found with its schema described. -/
theorem lookup_gather_body (h_document : document.WellFormed)
    (h_body : (name, body) ∈ components document "requestBodies")
    (h_inline : inlineFields? body = some fields)
    (h_name : name ∉ Entries.names (components document "schemas")) :
    ∃ described, Described body fields described ∧
      (gather document).lookup name = some (.object described) := by
  have h_whole := wellFormed_components h_document "requestBodies" _ h_body
  obtain ⟨described, h_own, h_described⟩ := exists_ofBody? h_whole h_inline
  have h_mem : (name, .object described) ∈ bodyDefinitions document :=
    List.mem_filterMap.mpr ⟨(name, body), h_body, by rw [h_own]; rfl⟩
  have h_names : (Entries.names (bodyDefinitions document)).Nodup := by
    rw [names_bodyDefinitions h_document]
    exact nodup_inlineNames h_document
  refine ⟨described, h_described, ?_⟩
  rw [gather_eq h_document,
    Entries.lookup_putAll_of_nodup _ (nodup_names_components h_document "schemas"),
    Entries.lookup_eq_none_iff.mpr h_name, Option.none_or]
  exact Entries.lookup_of_mem h_names h_mem

/-! ## Definitions that the replacement changes -/

theorem names_ofDocument (document : Json) :
    Entries.names (ofDocument document).schemas = Entries.names (gather document) := by
  rw [ofDocument, Entries.names, Entries.names, List.map_map]
  rfl

theorem mem_selfReferential_iff (h_schema : (gather document).lookup name = some schema) :
    name ∈ (ofDocument document).selfReferential ↔ selfReferences name schema ≠ 0 := by
  have h_entry := Entries.mem_of_lookup h_schema
  rw [ofDocument, List.mem_map]
  constructor
  · rintro ⟨entry, h_mem, rfl⟩
    obtain ⟨h_gathered, h_some⟩ := List.mem_filter.mp h_mem
    -- the name is gathered once, so the entry is the one that was looked up
    obtain rfl : entry.2 = schema := by
      have h_found := Entries.lookup_of_mem (nodup_names_gather document) h_gathered
      exact Option.some.inj (h_found.symm.trans h_schema)
    simpa using h_some
  · intro h_some
    exact ⟨(name, schema), List.mem_filter.mpr ⟨h_entry, by simpa using h_some⟩, rfl⟩

/-! ## The definitions of a document -/

/-- The definitions of a document have different names: those of its request bodies with inline
    schemas and then those of its other schemas, both in the order of the document, and none of a
    container that is a reference. The schema of a definition is the shared schema of that name or
    else that of the body, described as the body is, with references to the name replaced. The names
    that are remembered are, in this order, those whose schema the replacement changed. -/
theorem definitions_collected (document : Json) (h_document : document.WellFormed) :
    (∀ kind reference,
        document.at? [.field "components", .field kind, .field "$ref"] = some reference →
          components document kind = []) ∧
      Entries.names (ofDocument document).schemas = inlineNames document ++
        (Entries.names (components document "schemas")).filter (fun own =>
          own ∉ inlineNames document) ∧
      (Entries.names (ofDocument document).schemas).Nodup ∧
      (∀ name schema, (name, schema) ∈ components document "schemas" →
        (gather document).lookup name = some schema) ∧
      (∀ name body fields, (name, body) ∈ components document "requestBodies" →
        inlineFields? body = some fields →
        name ∉ Entries.names (components document "schemas") →
        ∃ described, Described body fields described ∧
          (gather document).lookup name = some (.object described)) ∧
      (∀ name, (ofDocument document).get? name =
        ((gather document).lookup name).map (neutralize name)) ∧
      List.Sublist (ofDocument document).selfReferential
        (Entries.names (ofDocument document).schemas) ∧
      ∀ name schema, (gather document).lookup name = some schema →
        (name ∈ (ofDocument document).selfReferential ↔ neutralize name schema ≠ schema) ∧
        (name ∈ (ofDocument document).selfReferential ↔
          schema.same (neutralize name schema) = false) := by
  have h_schemas := nodup_names_components h_document "schemas"
  rw [names_ofDocument]
  refine ⟨fun kind reference => components_eq_nil, names_gather h_document,
    nodup_names_gather document, ?_, ?_, get?_ofDocument document,
    List.filter_sublist.map Prod.fst, ?_⟩
  · intro name schema h_schema
    exact lookup_gather h_schemas h_schema
  · intro name body fields h_body h_inline h_name
    exact lookup_gather_body h_document h_body h_inline h_name
  · intro name schema h_schema
    have h_whole := wellFormed_gather h_document (name, schema) (Entries.mem_of_lookup h_schema)
    -- a name is remembered by the count of its references, which is zero for what stays
    rw [mem_selfReferential_iff h_schema, ne_eq, selfReferences_eq_zero_iff h_whole]
    refine ⟨Iff.rfl, ?_⟩
    rw [← Bool.not_eq_true, not_iff_not]
    constructor
    · intro h_eq
      rw [h_eq]
      exact Json.same_refl h_whole
    · intro h_same
      exact neutralize_of_none (selfReferences_eq_zero_of_same h_whole h_same)

/-- A shared request body with a schema for its JSON content. -/
def sharedBody (others : Entries Json) (schema : Json) : Json :=
  .object (others ++ [("content", .object [("application/json", .object [("schema", schema)])])])

/-- A document with three shared request bodies and two schemas: one name stands for a body and a
    schema that refers to itself, and the schema of one body is a reference. -/
def sharedDocument : Json :=
  .object [("components", .object
    [("requestBodies", .object
      [("Tree", sharedBody [] (.object [("type", .text "string")])),
        ("Link", sharedBody [] (.object [("$ref", .text "#/components/schemas/Owner")])),
        ("Pet", sharedBody [("description", .text "a pet")]
          (.object [("type", .text "string"), ("description", .text "a name")]))]),
      ("schemas", .object
        [("Owner", .object [("type", .text "string")]),
          ("Tree", .object [("type", .text "array"),
            ("items", .object [("$ref", .text "#/definitions/Tree")])])])])]

/-- The bodies with inline schemas come first, under `Tree` the schema stands, and it alone was
    changed. -/
theorem shared_definitions_collected :
    sharedDocument.WellFormed ∧
      Entries.names (ofDocument sharedDocument).schemas = ["Tree", "Pet", "Owner"] ∧
      (ofDocument sharedDocument).get? "Tree" = some (.object [("type", .text "array"),
        ("items", .object [("type", .text "any"), ("title", .text ("Tree" ++ marker))])]) ∧
      (∃ described, (gather sharedDocument).lookup "Pet" = some (.object described) ∧
        described.lookup "description" = some (.text "a pet")) ∧
      "Tree" ∈ (ofDocument sharedDocument).selfReferential ∧
      "Owner" ∉ (ofDocument sharedDocument).selfReferential := by
  have h_document : sharedDocument.WellFormed := by
    simp [sharedDocument, sharedBody, Json.WellFormed, Json.WellFormedFields]
  obtain ⟨-, h_names, -, h_schemas, h_bodies, h_stored, -, h_changed⟩ :=
    definitions_collected sharedDocument h_document
  have h_tree := h_schemas "Tree" _ (List.mem_cons_of_mem _ (List.mem_singleton_self _))
  have h_owner := h_schemas "Owner" _ List.mem_cons_self
  obtain ⟨described, h_described, h_pet⟩ := h_bodies "Pet" _ _
    (List.mem_cons_of_mem _ (List.mem_cons_of_mem _ (List.mem_singleton_self _))) rfl (by decide)
  refine ⟨h_document, h_names.trans (by decide), ?_, ⟨described, h_pet, h_described.description⟩,
    (h_changed "Tree" _ h_tree).2.mpr (by decide +kernel),
    mt (h_changed "Owner" _ h_owner).1.mp (not_not.mpr rfl)⟩
  rw [h_stored, h_tree]
  rfl

end OpenApiTs.Definitions
