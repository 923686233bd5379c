/-
  OpenApiTs.Proofs.Swagger.Referring

  Where the references of a converted document come from. `Refers` says what stands under the keys
  `$ref` of a value, at any depth, and every step of the conversion keeps it: a reference is taken
  over as it stands, or made for a shared body. A key `$ref` over anything but a text arises in one
  way only, when a media type or the name of a form field becomes a key.
-/
import OpenApiTs.Proofs.Json.Nodes
import OpenApiTs.Proofs.Swagger.Placed
import OpenApiTs.Swagger.Upgrade

namespace OpenApiTs.Swagger

variable {kept : String → Prop} {made : Prop} {value held parameter : Json} {fields : Entries Json}
  {entry result : String × Json} {key : String} {media : List String} {context : Context}

/-! ## Values under `$ref` -/

/-- What may stand under a key `$ref`: a text that is kept, or an object where such keys are made. -/
inductive Target (kept : String → Prop) (made : Prop) : Json → Prop where
  | text {words : String} (h_kept : kept words) : Target kept made (.text words)
  | object {fields : Entries Json} (h_made : made) : Target kept made (.object fields)

/-- Whether everything under a key `$ref`, at any depth of a value, may stand there. -/
def Refers (kept : String → Prop) (made : Prop) (value : Json) : Prop :=
  ∀ fields, .object fields ∈ value.nodes → ∀ target, ("$ref", target) ∈ fields →
    Target kept made target

/-- As `Refers`, for a field. -/
structure FieldRefers (kept : String → Prop) (made : Prop) (entry : String × Json) : Prop where
  target : entry.1 = "$ref" → Target kept made entry.2
  value : Refers kept made entry.2

/-- An object refers as each of its fields does, and by its own target. -/
theorem refers_object_iff :
    Refers kept made (.object fields) ↔ ∀ entry ∈ fields, FieldRefers kept made entry := by
  constructor
  · intro h_refers entry h_entry
    constructor
    · intro h_key
      apply h_refers fields (Json.mem_nodes_object_iff.mpr (.inl rfl))
      rw [← h_key]
      exact h_entry
    · intro inner h_inner
      exact h_refers inner (Json.mem_nodes_object_iff.mpr (.inr ⟨entry, h_entry, h_inner⟩))
  · intro h_fields inner h_inner target h_target
    -- the node is the object itself, or stands in one of its fields
    rcases Json.mem_nodes_object_iff.mp h_inner with h_self | ⟨entry, h_entry, h_inside⟩
    · cases h_self
      exact (h_fields _ h_target).target rfl
    · exact (h_fields entry h_entry).value inner h_inside target h_target

/-- A list refers as each of its items does. -/
theorem refers_array_iff {items : List Json} :
    Refers kept made (.array items) ↔ ∀ item ∈ items, Refers kept made item := by
  constructor
  · intro h_refers item h_item inner h_inner
    exact h_refers inner (Json.mem_nodes_array_iff.mpr ⟨item, h_item, h_inner⟩)
  · intro h_items inner h_inner
    obtain ⟨item, h_item, h_inside⟩ := Json.mem_nodes_array_iff.mp h_inner
    exact h_items item h_item inner h_inside

@[simp] theorem refers_text (words : String) : Refers kept made (.text words) := by
  intro inner h_inner
  cases h_inner

/-- A key of its own asks nothing of its value. -/
theorem fieldRefers_of_ne (h_key : key ≠ "$ref") (h_value : Refers kept made value) :
    FieldRefers kept made (key, value) :=
  ⟨fun h_ref => absurd h_ref h_key, h_value⟩

theorem fieldRefers_of_lookup (h_fields : ∀ entry ∈ fields, FieldRefers kept made entry)
    (h_held : fields.lookup key = some held) : FieldRefers kept made (key, held) :=
  h_fields _ (Entries.mem_of_lookup h_held)

/-- What is held under a key refers as the whole does. -/
theorem refers_of_field? (h_refers : Refers kept made value) (h_held : value.field? key = some held) :
    Refers kept made held := by
  cases value with
  | object fields => exact (fieldRefers_of_lookup (refers_object_iff.mp h_refers) h_held).value
  | _ => cases h_held

/-- The items under a key, if they are there. -/
theorem refers_of_mem_items (h_fields : ∀ entry ∈ fields, FieldRefers kept made entry)
    (h_value : value ∈ ((fields.lookup key).bind Json.items?).getD []) : Refers kept made value := by
  cases h_held : fields.lookup key with
  | none => rw [h_held] at h_value; cases h_value
  | some held =>
    rw [h_held] at h_value
    have h_refers := (fieldRefers_of_lookup h_fields h_held).value
    cases held with
    | array items => exact refers_array_iff.mp h_refers value h_value
    | _ => cases h_value

/-- The fields of the object under a key, if it is there. -/
theorem fieldRefers_of_mem_fields (h_fields : ∀ entry ∈ fields, FieldRefers kept made entry)
    (h_entry : entry ∈ ((fields.lookup key).bind Json.fields?).getD []) :
    FieldRefers kept made entry := by
  cases h_held : fields.lookup key with
  | none => rw [h_held] at h_entry; cases h_entry
  | some held =>
    rw [h_held] at h_entry
    have h_refers := (fieldRefers_of_lookup h_fields h_held).value
    cases held with
    | object own => exact refers_object_iff.mp h_refers entry h_entry
    | _ => cases h_entry

/-! ## Lists of fields -/

theorem mem_optionalField_iff {name : String} {value : Option Json} :
    entry ∈ optionalField name value ↔ ∃ held, value = some held ∧ entry = (name, held) := by
  cases value with
  | none => simp [optionalField]
  | some own => simp [optionalField]

theorem fieldRefers_of_mem_optionalField {name : String} {value : Option Json} (h_key : name ≠ "$ref")
    (h_value : ∀ held, value = some held → Refers kept made held)
    (h_entry : entry ∈ optionalField name value) : FieldRefers kept made entry := by
  obtain ⟨held, h_held, rfl⟩ := mem_optionalField_iff.mp h_entry
  exact fieldRefers_of_ne h_key (h_value held h_held)

/-- Putting a field leaves the others as they are. -/
theorem fieldRefers_of_mem_put {name : String} (h_fields : ∀ entry ∈ fields, FieldRefers kept made entry)
    (h_own : FieldRefers kept made (name, held)) (h_entry : entry ∈ fields.put name held) :
    FieldRefers kept made entry := by
  rcases Entries.mem_put h_entry with rfl | h_entry
  · exact h_own
  · exact h_fields entry h_entry

/-! ## Values that keep their kind -/

/-- Whether a step leaves texts as they are and makes objects of objects. What stands under `$ref`
    may then still stand there. -/
structure KeepsKind (f : Json → Json) : Prop where
  text (words : String) : f (.text words) = .text words
  object (fields : Entries Json) : ∃ own, f (.object fields) = .object own

/-- A conversion that keeps texts and objects keeps targets. -/
theorem Target.keep {f : Json → Json} (h_kind : KeepsKind f) (h_target : Target kept made value) :
    Target kept made (f value) := by
  cases h_target with
  | text h_kept =>
    rw [h_kind.text]
    exact .text h_kept
  | object h_made =>
    rename_i fields
    obtain ⟨own, h_own⟩ := h_kind.object fields
    rw [h_own]
    exact .object h_made

/-- A step taken in each field of an object, under any keys. -/
theorem refers_object_map {f : Json → Json} (h_kind : KeepsKind f)
    (h_step : ∀ value, Refers kept made value → Refers kept made (f value))
    (h_fields : ∀ entry ∈ fields, FieldRefers kept made entry) :
    Refers kept made (.object (fields.map fun entry => (entry.1, f entry.2))) := by
  rw [refers_object_iff]
  intro entry h_entry
  obtain ⟨own, h_own, rfl⟩ := List.mem_map.mp h_entry
  have h_field := h_fields own h_own
  exact ⟨fun h_key => (h_field.target h_key).keep h_kind, h_step own.2 h_field.value⟩

/-! ## Parameters and headers -/

/-- The keywords of a schema refer as the fields of the parameter do. -/
theorem fieldRefers_of_mem_schemaFields (h_fields : ∀ entry ∈ fields, FieldRefers kept made entry)
    (h_entry : entry ∈ schemaFields fields) : FieldRefers kept made entry := by
  obtain ⟨own, h_own, rfl⟩ := List.mem_map.mp h_entry
  rw [schemaEntry_eq]
  split
  · exact fieldRefers_of_ne (by decide) (refers_text "string")
  · exact h_fields own (List.mem_filter.mp h_own).1

/-- A parameter keeps its references, those of its keywords under `schema`. -/
theorem refers_convertParameter (h_parameter : Refers kept made parameter) :
    Refers kept made (convertParameter parameter) := by
  cases parameter with
  | object fields =>
    rw [convertParameter]
    split
    · -- one with a schema of its own is not taken apart
      exact h_parameter
    · have h_fields := refers_object_iff.mp h_parameter
      have h_plain : ∀ entry ∈ plainFields fields, FieldRefers kept made entry :=
        fun entry h_entry => h_fields entry (List.mem_filter.mp h_entry).1
      split
      · exact refers_object_iff.mpr h_plain
      · have h_schema : Refers kept made (.object (schemaFields fields)) :=
          refers_object_iff.mpr fun entry => fieldRefers_of_mem_schemaFields h_fields
        rw [refers_object_iff]
        intro entry h_entry
        rcases List.mem_append.mp h_entry with h_entry | h_entry
        · exact h_plain entry h_entry
        · obtain rfl := List.mem_singleton.mp h_entry
          exact fieldRefers_of_ne (by decide) h_schema
  | _ => exact h_parameter

/-- A header is converted as a parameter and loses two fields. -/
theorem refers_convertHeader (h_header : Refers kept made value) :
    Refers kept made (convertHeader value) := by
  have h_converted := refers_convertParameter h_header
  rw [convertHeader]
  split
  · next fields h_fields =>
    rw [h_fields, refers_object_iff] at h_converted
    rw [refers_object_iff]
    intro entry h_entry
    exact h_converted entry (Entries.mem_of_mem_remove (Entries.mem_of_mem_remove h_entry))
  · exact h_converted

/-! ## Bodies and responses -/

/-- A media type becomes a key over an object with the schema. -/
theorem refers_contentOf (h_media : "$ref" ∈ media → made) (h_schema : Refers kept made value) :
    Refers kept made (contentOf media value) := by
  have h_holder : Refers kept made (.object [("schema", value)]) := by
    rw [refers_object_iff, List.forall_mem_singleton]
    exact fieldRefers_of_ne (by decide) h_schema
  rw [contentOf, refers_object_iff]
  intro entry h_entry
  obtain ⟨type, h_type, rfl⟩ := List.mem_map.mp (Entries.mem_of_mem_ofPairs h_entry)
  constructor
  · rintro rfl
    exact .object (h_media h_type)
  · exact h_holder

/-- The body that a parameter becomes refers as the parameter does. -/
theorem refers_bodyOfParameter (h_media : "$ref" ∈ media → made)
    (h_parameter : Refers kept made parameter) :
    Refers kept made (bodyOfParameter parameter media) := by
  -- a parameter without a schema takes anything, which refers to nothing
  have h_schema : Refers kept made ((parameter.field? "schema").getD (.object [])) := by
    cases h_held : parameter.field? "schema" with
    | none => exact refers_object_iff.mpr (List.forall_mem_nil _)
    | some held => exact refers_of_field? h_parameter h_held
  rw [bodyOfParameter, refers_object_iff]
  intro entry h_entry
  rw [List.mem_append, List.mem_append, List.mem_singleton] at h_entry
  rcases h_entry with (h_description | rfl) | h_required
  · exact fieldRefers_of_mem_optionalField (by decide)
      (fun held => refers_of_field? h_parameter) h_description
  · exact fieldRefers_of_ne (by decide) (refers_contentOf h_media h_schema)
  · exact fieldRefers_of_mem_optionalField (by decide)
      (fun held => refers_of_field? h_parameter) h_required

/-- The property that a form field becomes refers as the field does. -/
theorem refers_formProperty (h_field : Refers kept made value) :
    Refers kept made (formProperty value) := by
  -- the keywords of the field as a schema, then with the format of files, then with the description
  have h_schema : ∀ entry ∈ ((convertParameter value).fieldsAt? "schema").getD [],
      FieldRefers kept made entry := by
    cases h_held : (convertParameter value).field? "schema" with
    | none => simp [Json.fieldsAt?, h_held]
    | some held =>
      have h_refers := refers_of_field? (refers_convertParameter h_field) h_held
      rw [Json.fieldsAt?, h_held, Option.bind_some]
      cases held with
      | object fields => exact refers_object_iff.mp h_refers
      | _ => exact List.forall_mem_nil _
  have h_typed : ∀ entry ∈ (if isFile value then
      Entries.put (((convertParameter value).fieldsAt? "schema").getD []) "format" (.text "binary")
      else ((convertParameter value).fieldsAt? "schema").getD []), FieldRefers kept made entry := by
    split
    · intro entry h_entry
      exact fieldRefers_of_mem_put h_schema
        (fieldRefers_of_ne (by decide) (refers_text "binary")) h_entry
    · exact h_schema
  rw [formProperty]
  split
  · next description h_description =>
    rw [refers_object_iff]
    intro entry h_entry
    exact fieldRefers_of_mem_put h_typed
      (fieldRefers_of_ne (by decide) (refers_of_field? h_field h_description)) h_entry
  · exact refers_object_iff.mpr h_typed

theorem exists_formProperty (field : Json) : ∃ fields, formProperty field = .object fields := by
  rw [formProperty]
  split
  · exact ⟨_, rfl⟩
  · exact ⟨_, rfl⟩

/-- The name of a form field becomes a key over an object with the schema of the field. -/
theorem refers_formProperties {forms : List Json}
    (h_names : ∀ field ∈ forms, field.textAt? "name" = some "$ref" → made)
    (h_forms : ∀ field ∈ forms, Refers kept made field) :
    Refers kept made (.object (Entries.ofPairs
      ((namedFields forms).map fun entry => (entry.1, formProperty entry.2)))) := by
  rw [refers_object_iff]
  intro property h_property
  obtain ⟨entry, h_entry, rfl⟩ := List.mem_map.mp (Entries.mem_of_mem_ofPairs h_property)
  obtain ⟨field, h_field, h_named⟩ := List.mem_filterMap.mp h_entry
  obtain ⟨name, h_name, rfl⟩ := Option.map_eq_some_iff.mp h_named
  constructor
  · -- the property is named like a reference, and holds an object then
    rintro rfl
    obtain ⟨own, h_own⟩ := exists_formProperty field
    show Target kept made (formProperty field)
    rw [h_own]
    exact .object (h_names field h_field h_name)
  · exact refers_formProperty (h_forms field h_field)

/-- The schema of a form. -/
def formSchema (forms : List Json) : Json :=
  .object ([("type", .text "object"), ("properties", .object (Entries.ofPairs
      ((namedFields forms).map fun entry => (entry.1, formProperty entry.2))))] ++
    listField "required" (((namedFields forms).filter fun entry => isMarked entry.2).map
      fun entry => .text entry.1))

/-- The body of a form is its schema under one media type. -/
theorem bodyOfForm_eq (forms : List Json) (media : List String) :
    bodyOfForm forms media =
      .object [("content", contentOf [formMedia forms media] (formSchema forms))] := by
  rw [formSchema, listField_eq]
  rfl

/-- The schema of a form refers as its fields do, but that a field may be named like a reference. -/
theorem refers_formSchema {forms : List Json}
    (h_names : ∀ field ∈ forms, field.textAt? "name" = some "$ref" → made)
    (h_forms : ∀ field ∈ forms, Refers kept made field) :
    Refers kept made (formSchema forms) := by
  rw [formSchema, refers_object_iff]
  intro entry h_entry
  rw [List.mem_append, List.mem_cons, List.mem_singleton] at h_entry
  rcases h_entry with (rfl | rfl) | h_listed
  · exact fieldRefers_of_ne (by decide) (refers_text "object")
  · exact fieldRefers_of_ne (by decide) (refers_formProperties h_names h_forms)
  · apply fieldRefers_of_mem_optionalField (by decide) _ h_listed
    -- the list of required names holds texts only
    intro held h_held
    split at h_held
    · cases h_held
    · obtain rfl := Option.some.inj h_held
      rw [refers_array_iff]
      intro name h_name
      obtain ⟨own, -, rfl⟩ := List.mem_map.mp h_name
      exact refers_text own.1

/-- So does its body, whose media type is no reference. -/
theorem refers_bodyOfForm {forms : List Json}
    (h_names : ∀ field ∈ forms, field.textAt? "name" = some "$ref" → made)
    (h_forms : ∀ field ∈ forms, Refers kept made field) :
    Refers kept made (bodyOfForm forms media) := by
  -- forms have two media types, and neither is a reference
  have h_media : "$ref" ∉ [formMedia forms media] := by
    rw [List.mem_singleton]
    rcases formMedia_cases forms media with ⟨h_media, -⟩ | ⟨h_media, -⟩
    · rw [h_media]
      decide
    · rw [h_media]
      decide
  rw [bodyOfForm_eq, refers_object_iff, List.forall_mem_singleton]
  apply fieldRefers_of_ne (by decide)
  exact refers_contentOf (fun h_ref => absurd h_ref h_media) (refers_formSchema h_names h_forms)

/-! ## Responses and security schemes -/

/-- Converting a parameter keeps texts and makes objects of objects. -/
theorem keepsKind_convertParameter : KeepsKind convertParameter where
  text _ := rfl
  object fields := by
    rw [convertParameter]
    -- a parameter with a schema stays, one without keywords has none, any other one gets a schema
    split
    · exact ⟨fields, rfl⟩
    · split
      · exact ⟨_, rfl⟩
      · exact ⟨_, rfl⟩

theorem keepsKind_convertHeader : KeepsKind convertHeader where
  text _ := rfl
  object fields := by
    obtain ⟨own, h_own⟩ := keepsKind_convertParameter.object fields
    rw [convertHeader, h_own]
    exact ⟨_, rfl⟩

theorem keepsKind_convertResponse (produces : List String) :
    KeepsKind fun response => convertResponse response produces where
  text _ := rfl
  object fields := by
    show ∃ own, convertResponse (.object fields) produces = .object own
    rw [convertResponse]
    split
    · exact ⟨fields, rfl⟩
    · exact ⟨_, rfl⟩

theorem keepsKind_convertSecurity : KeepsKind convertSecurity where
  text _ := rfl
  object fields := by
    rw [convertSecurity]
    split
    · exact ⟨_, rfl⟩
    · exact ⟨fields, rfl⟩

/-- The schema of a response goes under its media types. -/
theorem refers_convertResponse (h_media : "$ref" ∈ media → made) (h_response : Refers kept made value) :
    Refers kept made (convertResponse value media) := by
  cases value with
  | object fields =>
    rw [convertResponse]
    split
    · exact h_response
    · have h_fields := refers_object_iff.mp h_response
      rw [refers_object_iff]
      intro entry h_entry
      rw [List.mem_append, List.mem_append, List.mem_singleton] at h_entry
      -- the fields of a response are its description, its content and its headers
      rcases h_entry with (rfl | h_content) | h_headers
      · apply fieldRefers_of_ne (by decide)
        cases h_held : fields.lookup "description" with
        | none => exact refers_text ""
        | some held => exact (fieldRefers_of_lookup h_fields h_held).value
      · apply fieldRefers_of_mem_optionalField (by decide) _ h_content
        intro held h_held
        obtain ⟨schema, h_schema, rfl⟩ := Option.map_eq_some_iff.mp h_held
        exact refers_contentOf h_media (fieldRefers_of_lookup h_fields h_schema).value
      · apply fieldRefers_of_mem_optionalField (by decide) _ h_headers
        intro held h_held
        obtain ⟨headers, h_own, rfl⟩ := Option.map_eq_some_iff.mp h_held
        apply refers_object_map keepsKind_convertHeader fun _ => refers_convertHeader
        intro header h_header
        exact fieldRefers_of_mem_fields h_fields (by rwa [h_own])
  | _ => exact h_response

/-- Security schemes refer to nothing new. -/
theorem refers_convertSecurity (h_scheme : Refers kept made value) :
    Refers kept made (convertSecurity value) := by
  rw [convertSecurity]
  split
  · rw [refers_object_iff, List.forall_mem_cons, List.forall_mem_singleton]
    exact ⟨fieldRefers_of_ne (by decide) (refers_text "http"),
      fieldRefers_of_ne (by decide) (refers_text "basic")⟩
  · exact h_scheme

/-! ## Operations -/

/-- Where the bodies of a document stand that operations share. -/
def bodyRoot : String := "#/components/requestBodies/"

/-- Whether an operation has a media type or a form field whose name is the key of references. -/
def Context.NamesReference (context : Context) (fields : Entries Json) : Prop :=
  "$ref" ∈ context.requestMedia fields ∨ "$ref" ∈ context.responseMedia fields ∨
    ∃ parameter ∈ listedParameters fields,
      IsFormField parameter ∧ parameter.textAt? "name" = some "$ref"

/-- What a slot holds, whichever way it goes. -/
def Slot.content : Slot → Json
  | .parameter value => value
  | .body value => value
  | .form field => field

/-- A parameter takes its references along, and a reference to a shared body is a new one. -/
theorem refers_slotOf (h_bodies : ∀ name, kept (bodyRoot ++ name)) (h_media : "$ref" ∈ media → made)
    (h_parameter : Refers kept made parameter) :
    Refers kept made (context.slotOf media parameter).content := by
  rw [Context.slotOf]
  split
  · split
    · next name h_shared =>
      -- the one reference that the conversion makes itself
      show Refers kept made (.object [("$ref", .text (bodyRoot ++ name))])
      rw [refers_object_iff, List.forall_mem_singleton]
      exact ⟨fun _ => .text (h_bodies name), refers_text (bodyRoot ++ name)⟩
    · exact h_parameter
  · split
    · exact refers_bodyOfParameter h_media h_parameter
    · exact h_parameter
    · exact refers_convertParameter h_parameter

/-- A parameter refers in its slot as it did in the list. -/
theorem refers_of_mem_slots (h_bodies : ∀ name, kept (bodyRoot ++ name))
    (h_names : context.NamesReference fields → made)
    (h_fields : ∀ entry ∈ fields, FieldRefers kept made entry) {slot : Slot}
    (h_slot : slot ∈ context.slots fields) : Refers kept made slot.content := by
  obtain ⟨parameter, h_parameter, rfl⟩ := List.mem_map.mp h_slot
  exact refers_slotOf h_bodies (fun h_media => h_names (.inl h_media))
    (refers_of_mem_items h_fields h_parameter)

/-- The body of an operation refers as its parameters do. -/
theorem refers_requestBody? (h_bodies : ∀ name, kept (bodyRoot ++ name))
    (h_names : context.NamesReference fields → made)
    (h_fields : ∀ entry ∈ fields, FieldRefers kept made entry)
    (h_body : requestBody? (context.slots fields) (context.requestMedia fields) = some value) :
    Refers kept made value := by
  rw [requestBody?] at h_body
  split at h_body
  · next body h_last =>
    -- the last body is what its slot holds
    obtain ⟨slot, h_slot, h_own⟩ := List.mem_filterMap.mp (List.mem_of_getLast? h_last)
    obtain rfl := Option.some.inj h_body
    cases slot with
    | body own =>
      obtain rfl := Option.some.inj h_own
      exact refers_of_mem_slots h_bodies h_names h_fields h_slot
    | _ => cases h_own
  · split at h_body
    · cases h_body
    · obtain rfl := Option.some.inj h_body
      -- the form is made of the form fields among the parameters
      have h_forms := (filterMap_of_sorts (sorts_slots context fields)).2.2
      rw [h_forms]
      apply refers_bodyOfForm
      · intro field h_field h_name
        obtain ⟨h_listed, h_form⟩ := List.mem_filter.mp h_field
        exact h_names (.inr (.inr ⟨field, h_listed, of_decide_eq_true h_form, h_name⟩))
      · intro field h_field
        exact refers_of_mem_items h_fields (List.mem_filter.mp h_field).1

/-- The fields that an operation keeps refer as they did, and its responses are converted. -/
theorem fieldRefers_of_mem_kept (h_names : context.NamesReference fields → made)
    (h_fields : ∀ entry ∈ fields, FieldRefers kept made entry) (h_entry : entry ∈ context.kept fields) :
    FieldRefers kept made entry := by
  rw [kept_eq] at h_entry
  obtain ⟨own, h_own, rfl⟩ := List.mem_map.mp h_entry
  have h_field := h_fields own (List.mem_filter.mp h_own).1
  rw [placedField]
  split
  · next h_key =>
    -- the responses are a new object, with the keys that they had
    rw [h_key]
    apply fieldRefers_of_ne (by decide)
    apply refers_object_map (keepsKind_convertResponse _)
    · intro response
      exact refers_convertResponse fun h_media => h_names (.inr (.inl h_media))
    · intro response h_response
      obtain ⟨key, held⟩ := own
      cases held with
      | object responses => exact refers_object_iff.mp h_field.value response h_response
      | _ => cases h_response
  · exact h_field

/-- A converted operation has the references of the operation, and those to shared bodies. -/
theorem fieldRefers_of_mem_convertOperation (h_bodies : ∀ name, kept (bodyRoot ++ name))
    (h_names : context.NamesReference fields → made)
    (h_fields : ∀ entry ∈ fields, FieldRefers kept made entry)
    (h_entry : entry ∈ context.convertOperation fields) : FieldRefers kept made entry := by
  -- first the fields without the body: those that keep their places, and the parameters that stay
  have h_kept {own : String × Json} (h_own : own ∈ context.withoutBody fields) :
      FieldRefers kept made own := by
    rw [Context.withoutBody] at h_own
    split at h_own
    · next parameters h_staying =>
      apply fieldRefers_of_mem_put (fun _ => fieldRefers_of_mem_kept h_names h_fields) _ h_own
      apply fieldRefers_of_ne (by decide)
      rw [stayingParameters?] at h_staying
      split at h_staying
      · cases h_staying
      · obtain rfl := Option.some.inj h_staying
        rw [refers_array_iff]
        intro parameter h_parameter
        obtain ⟨slot, h_slot, h_stays⟩ := List.mem_filterMap.mp h_parameter
        cases slot with
        | parameter own =>
          obtain rfl := Option.some.inj h_stays
          exact refers_of_mem_slots h_bodies h_names h_fields h_slot
        | _ => cases h_stays
    · exact fieldRefers_of_mem_kept h_names h_fields h_own
  rw [convertOperation_eq] at h_entry
  split at h_entry
  · next body h_body =>
    apply fieldRefers_of_mem_put (fun _ => h_kept) _ h_entry
    exact fieldRefers_of_ne (by decide) (refers_requestBody? h_bodies h_names h_fields h_body)
  · exact h_kept h_entry

end OpenApiTs.Swagger
