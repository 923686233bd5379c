/-
  OpenApiTs.Proofs.Swagger.Gathered

  A document as the conversion gathers it, before references are moved. The references of its paths
  and of its components are those of the older document, and references to shared bodies; every
  other key `$ref` is the name of a media type or of a form field.
-/
import OpenApiTs.Proofs.Swagger.Referring

namespace OpenApiTs.Swagger

variable {kept : String → Prop} {made : Prop} {context : Context} {document gathered upgraded : Json}
  {fields converted : Entries Json} {entry result : String × Json}

/-! ## Gathering -/

/-- The parts of a Swagger document as parts of an OpenAPI 3 document, with the references that they
    had. -/
def gather (document : Entries Json) : Except Fault Json := do
  let context := Context.of document
  let paths ← (((document.lookup "paths").bind Json.fields?).getD []).mapM context.convertPath
  return .object
    ([("openapi", .text "3.0.0"), ("info", (document.lookup "info").getD (.object []))] ++
      optionalField "servers" (servers? document) ++
      keptKeys.flatMap (fun key => optionalField key (document.lookup key)) ++
      [("paths", .object paths), ("components", context.components document)])

/-- The conversion gathers the new document first and moves its references last. -/
theorem convert_eq_map (document : Entries Json) :
    convert document = (gather document).map moveReferences := by
  rw [convert, gather]
  cases (((document.lookup "paths").bind Json.fields?).getD []).mapM
      (Context.of document).convertPath with
  | error fault => rfl
  | ok paths => rfl

/-- An upgraded document is the gathered one with its references moved. -/
theorem exists_gathered (h_swagger : IsSwagger document)
    (h_upgrade : upgrade document = .ok upgraded) :
    ∃ gathered, gather (document.fields?.getD []) = .ok gathered ∧
      upgraded = moveReferences gathered := by
  rw [upgrade_eq_ok_iff, upgrade?, h_swagger.openApi, h_swagger.version] at h_upgrade
  simp only [convert_eq_map] at h_upgrade
  obtain ⟨gathered, h_gather, h_moved⟩ := Outcome.map_eq_ok_iff.mp h_upgrade
  exact ⟨gathered, h_gather, h_moved.symm⟩

/-! ## Paths -/

/-- Whether a media type or a form field of a document has the name that is the key of references. -/
def NamesReference (document : Json) : Prop :=
  "$ref" ∈ (Context.ofDocument document).consumes ∨ "$ref" ∈ (Context.ofDocument document).produces ∨
    ∃ listed ∈ Listed.ofDocument document,
      (Context.ofDocument document).NamesReference listed.fields

/-- The parameters of a path refer as the list they are taken from. -/
theorem refers_sharedParameters {value : Json} (h_value : Refers kept made value) :
    Refers kept made (sharedParameters value) := by
  rw [sharedParameters, refers_array_iff]
  intro parameter h_parameter
  obtain ⟨own, h_own, rfl⟩ := List.mem_map.mp h_parameter
  have h_refers : Refers kept made own := by
    cases value with
    | array items => exact refers_array_iff.mp h_value own (List.mem_filter.mp h_own).1
    | _ => cases (List.mem_filter.mp h_own).1
  rw [convertShared]
  split
  · exact h_refers
  · exact refers_convertParameter h_refers

theorem fieldRefers_of_converts (h_bodies : ∀ name, kept (bodyRoot ++ name))
    (h_names : ∀ own, (Method.ofKey? entry.1).isSome = true → entry.2 = .object own →
      context.NamesReference own → made)
    (h_entry : FieldRefers kept made entry) (h_converts : Converts context entry result) :
    FieldRefers kept made result := by
  cases h_converts with
  | operation method own =>
    -- no method is called `$ref`
    apply fieldRefers_of_ne (by cases method <;> decide)
    rw [refers_object_iff]
    intro field
    apply fieldRefers_of_mem_convertOperation h_bodies
    · apply h_names own _ rfl
      rw [Method.ofKey?_key]
      rfl
    · exact refers_object_iff.mp h_entry.value
  | shared value => exact fieldRefers_of_ne (by decide) (refers_sharedParameters h_entry.value)
  | other value h_method h_shared => exact h_entry

/-- A path takes the references of its operations along. -/
theorem fieldRefers_of_convertPath (h_bodies : ∀ name, kept (bodyRoot ++ name))
    (h_names : ∀ listed ∈ Listed.ofFields entry.1 (entry.2.fields?.getD []),
      context.NamesReference listed.fields → made)
    (h_entry : FieldRefers kept made entry) (h_path : context.convertPath entry = .ok result) :
    FieldRefers kept made result := by
  obtain ⟨fields, converted, h_value, h_all, rfl⟩ := convertPath_eq_ok_iff.mp h_path
  obtain ⟨url, value⟩ := entry
  obtain rfl : value = .object fields := h_value
  constructor
  · -- a path that is called as references are is an object, before and after
    intro h_key
    cases h_entry.target h_key with
    | object h_made => exact .object h_made
  · rw [refers_object_iff]
    intro own h_own
    obtain ⟨field, h_field, h_converts⟩ := Outcome.exists_partner (converts_of_mapM h_all).flip h_own
    apply fieldRefers_of_converts h_bodies _ (refers_object_iff.mp h_entry.value field h_field) h_converts
    intro operation h_method h_operation
    obtain ⟨method, h_method⟩ := Option.isSome_iff_exists.mp h_method
    apply h_names ⟨url, method, fields.lookup "parameters", operation⟩
    apply List.mem_filterMap.mpr
    refine ⟨field, h_field, ?_⟩
    rw [Listed.ofField?, h_method, h_operation]
    rfl

/-! ## Components -/

theorem fieldRefers_of_mem_nonEmpty {name : String} (h_key : name ≠ "$ref")
    (h_fields : Refers kept made (.object fields)) (h_entry : entry ∈ nonEmpty name fields) :
    FieldRefers kept made entry := by
  rw [nonEmpty] at h_entry
  split at h_entry
  · cases h_entry
  · obtain rfl := List.mem_singleton.mp h_entry
    exact fieldRefers_of_ne h_key h_fields

/-- A section of a document whose values are converted under their keys. -/
theorem fieldRefers_of_mem_section {f : Json → Json} {name key : String} (h_key : name ≠ "$ref")
    (h_kind : KeepsKind f) (h_step : ∀ value, Refers kept made value → Refers kept made (f value))
    (h_fields : ∀ entry ∈ fields, FieldRefers kept made entry)
    (h_entry : entry ∈ optionalField name (((fields.lookup key).bind Json.fields?).map fun own =>
      .object (own.map fun entry => (entry.1, f entry.2)))) : FieldRefers kept made entry := by
  apply fieldRefers_of_mem_optionalField h_key _ h_entry
  intro held h_held
  obtain ⟨own, h_own, rfl⟩ := Option.map_eq_some_iff.mp h_held
  apply refers_object_map h_kind h_step
  intro field h_field
  exact fieldRefers_of_mem_fields h_fields (by rwa [h_own])

/-- The shared bodies. None of them is a text, so a key `$ref` over one is over an object before. -/
theorem refers_bodies (h_media : "$ref" ∈ context.consumes → made)
    (h_fields : ∀ entry ∈ fields, FieldRefers kept made entry) :
    Refers kept made (.object ((fields.filter isBody).map fun entry =>
      (entry.1, bodyOfParameter entry.2 context.consumes))) := by
  rw [refers_object_iff]
  intro entry h_entry
  obtain ⟨⟨key, value⟩, h_own, rfl⟩ := List.mem_map.mp h_entry
  obtain ⟨h_own, h_body⟩ := List.mem_filter.mp h_own
  have h_field := h_fields _ h_own
  refine ⟨?_, refers_bodyOfParameter h_media h_field.value⟩
  intro h_key
  -- a shared parameter under the name `$ref`: a text is no body, and an object is one that is made
  cases h_field.target h_key with
  | text h_kept => cases h_body
  | object h_made => exact .object h_made

theorem refers_components (h_media : "$ref" ∈ context.consumes ∨ "$ref" ∈ context.produces → made)
    (h_fields : ∀ entry ∈ fields, FieldRefers kept made entry) :
    Refers kept made (context.components fields) := by
  have h_parameters : ∀ entry ∈ ((fields.lookup "parameters").bind Json.fields?).getD [],
      FieldRefers kept made entry := fun _ => fieldRefers_of_mem_fields h_fields
  rw [Context.components, refers_object_iff]
  intro entry h_entry
  simp only [List.mem_append] at h_entry
  -- one case for each section, in the order in which they are written
  rcases h_entry with (((h_schemas | h_shared) | h_bodies) | h_responses) | h_security
  · apply fieldRefers_of_mem_optionalField (by decide) _ h_schemas
    intro held h_held
    exact (fieldRefers_of_lookup h_fields h_held).value
  · apply fieldRefers_of_mem_nonEmpty (by decide) _ h_shared
    apply refers_object_map keepsKind_convertParameter fun _ => refers_convertParameter
    exact fun entry h_entry => h_parameters entry (List.mem_filter.mp h_entry).1
  · apply fieldRefers_of_mem_nonEmpty (by decide) _ h_bodies
    exact refers_bodies (fun h_consumes => h_media (.inl h_consumes)) h_parameters
  · exact fieldRefers_of_mem_section (by decide) (keepsKind_convertResponse context.produces)
      (fun _ => refers_convertResponse fun h_produces => h_media (.inr h_produces)) h_fields h_responses
  · exact fieldRefers_of_mem_section (by decide) keepsKind_convertSecurity
      (fun _ => refers_convertSecurity) h_fields h_security

/-! ## Documents -/

/-- The servers are made of addresses, so they refer to nothing. -/
theorem refers_servers {value : Json} (h_servers : servers? fields = some value) :
    Refers kept made value := by
  have h_server (url : String) : Refers kept made (.object [("url", .text url)]) := by
    rw [refers_object_iff, List.forall_mem_singleton]
    exact fieldRefers_of_ne (by decide) (refers_text url)
  rw [servers?] at h_servers
  split at h_servers
  · obtain rfl := Option.some.inj h_servers
    rw [refers_array_iff]
    intro server h_member
    obtain ⟨scheme, -, rfl⟩ := List.mem_map.mp h_member
    exact h_server _
  · split at h_servers
    · cases h_servers
    · obtain rfl := Option.some.inj h_servers
      rw [refers_array_iff, List.forall_mem_singleton]
      exact h_server _

/-- A gathered document has the references of the document, and those to shared bodies. -/
theorem refers_of_gather (h_bodies : ∀ name, kept (bodyRoot ++ name))
    (h_names : NamesReference document → made) (h_document : Refers kept made document)
    (h_gather : gather (document.fields?.getD []) = .ok gathered) : Refers kept made gathered := by
  obtain ⟨paths, h_paths, h_made⟩ := Outcome.bind_eq_ok_iff.mp h_gather
  obtain rfl := Except.ok.inj h_made
  have h_fields : ∀ entry ∈ document.fields?.getD [], FieldRefers kept made entry := by
    cases document with
    | object fields => exact refers_object_iff.mp h_document
    | _ => exact List.forall_mem_nil _
  have h_same : document.fieldsAt? "paths" =
      ((document.fields?.getD []).lookup "paths").bind Json.fields? := by cases document <;> rfl
  rw [refers_object_iff]
  intro entry h_entry
  simp only [List.mem_append, List.mem_cons, List.not_mem_nil, or_false] at h_entry
  -- the fields in the order in which they are gathered
  rcases h_entry with (((rfl | rfl) | h_servers) | h_kept) | (rfl | rfl)
  · exact fieldRefers_of_ne (by decide) (refers_text "3.0.0")
  · apply fieldRefers_of_ne (by decide)
    cases h_held : (document.fields?.getD []).lookup "info" with
    | none => exact refers_object_iff.mpr (List.forall_mem_nil _)
    | some held => exact (fieldRefers_of_lookup h_fields h_held).value
  · exact fieldRefers_of_mem_optionalField (by decide) (fun _ => refers_servers) h_servers
  · obtain ⟨key, h_key, h_entry⟩ := List.mem_flatMap.mp h_kept
    have h_plain : ∀ key ∈ keptKeys, key ≠ "$ref" := by decide
    apply fieldRefers_of_mem_optionalField (h_plain key h_key) _ h_entry
    intro held h_held
    exact (fieldRefers_of_lookup h_fields h_held).value
  · apply fieldRefers_of_ne (by decide)
    rw [refers_object_iff]
    intro path h_path
    obtain ⟨own, h_own, h_converted⟩ := Outcome.exists_item_of_mapM h_paths h_path
    apply fieldRefers_of_convertPath h_bodies _ (fieldRefers_of_mem_fields h_fields h_own) h_converted
    -- an operation of the path is one that the document lists
    intro listed h_listed h_own_names
    apply h_names
    refine .inr (.inr ⟨listed, ?_, h_own_names⟩)
    rw [Listed.ofDocument, h_same]
    exact List.mem_flatMap.mpr ⟨own, h_own, h_listed⟩
  · apply fieldRefers_of_ne (by decide)
    refine refers_components (fun h_media => h_names ?_) h_fields
    exact h_media.imp id .inl

end OpenApiTs.Swagger
