/-
  OpenApiTs.Proofs.Swagger.Placed

  Where each entry of an operation goes when the operation is converted. Fields that the conversion
  does not know keep their places. Of the parameters each one goes one way: it stays, or it is a
  body and the last of these is the request body, or it is a field of a form, and a form is the
  request body where there is no other.
-/
import OpenApiTs.Proofs.Merged
import OpenApiTs.Proofs.Swagger.Bodies
import OpenApiTs.Proofs.Swagger.Parameters

namespace OpenApiTs.Swagger

variable {context : Context} {consumes : List String} {parameter : Json} {listed : List Json}
  {slots : List Slot} {fields : Entries Json}

/-! ## Ways of a parameter -/

instance decidableIsBody (context : Context) (parameter : Json) :
    Decidable (context.IsBody parameter) :=
  decidable_of_iff ((context.slotOf [] parameter).body?.isSome = true) isSome_body?_slotOf_iff

instance decidableIsFormField (parameter : Json) : Decidable (IsFormField parameter) :=
  inferInstanceAs (Decidable (_ ∧ _))

/-- Whether a parameter stays one: it is no body, by its own words or as a reference to a shared one,
    and no field of a form. -/
def Context.Stays (context : Context) (parameter : Json) : Prop :=
  ¬ context.IsBody parameter ∧ ¬ IsFormField parameter

instance decidableStays (context : Context) (parameter : Json) :
    Decidable (context.Stays parameter) :=
  inferInstanceAs (Decidable (_ ∧ _))

/-- No parameter is a body and a form field at once. -/
theorem not_isFormField_of_isBody (h_body : context.IsBody parameter) : ¬ IsFormField parameter := by
  rintro ⟨h_direct, h_in⟩
  -- both read the one `in`, which is not two texts
  rw [Context.IsBody, h_direct] at h_body
  simp only [h_in, Option.some.injEq] at h_body
  exact absurd h_body (by decide)

/-- What becomes of a parameter that stays. A reference stays as it is, and so does a parameter with
    a schema of its own. Of any other the keywords of a schema move under `schema`, and those that
    have no place any more go. -/
inductive Rendered : Json → Json → Prop where
  | reference {parameter : Json} (h_reference : Reference.isReference parameter = true) :
      Rendered parameter parameter
  | described {fields : Entries Json} (h_direct : Reference.isReference (.object fields) = false)
      (h_schema : Entries.has fields "schema" = true) : Rendered (.object fields) (.object fields)
  | moved {fields : Entries Json} (h_direct : Reference.isReference (.object fields) = false)
      (h_bare : Entries.has fields "schema" = false) :
      Rendered (.object fields) (.object
        ((fields.filter fun entry => entry.1 ∉ schemaKeywords ++ droppedKeywords) ++
          optionalField "schema" (convertedSchema? fields)))
  | other {value : Json} (h_other : value.isObject = false) : Rendered value value

/-- The request body that a body parameter makes, or a reference to a shared one. -/
inductive MakesBody (consumes : List String) : Json → Json → Prop where
  | own {parameter : Json} (h_direct : Reference.target? parameter = none) :
      MakesBody consumes parameter (bodyOfParameter parameter consumes)
  | shared {parameter : Json} {name : String}
      (h_target : Reference.target? parameter = some (parameterRoot ++ name)) :
      MakesBody consumes parameter
        (.object [("$ref", .text ("#/components/requestBodies/" ++ name))])

/-- Which way a parameter goes. -/
inductive Context.Sorts (context : Context) (consumes : List String) : Json → Slot → Prop where
  | parameter {parameter value : Json} (h_stays : context.Stays parameter)
      (h_value : Rendered parameter value) : context.Sorts consumes parameter (.parameter value)
  | body {parameter value : Json} (h_body : context.IsBody parameter)
      (h_value : MakesBody consumes parameter value) : context.Sorts consumes parameter (.body value)
  | form {parameter : Json} (h_form : IsFormField parameter) :
      context.Sorts consumes parameter (.form parameter)

theorem plainFields_eq (fields : Entries Json) :
    plainFields fields =
      fields.filter fun entry => entry.1 ∉ schemaKeywords ++ droppedKeywords := by
  rw [plainFields]
  congr 1
  funext entry
  simp [not_or]

/-- What becomes of a direct parameter: left as it is under the guard, otherwise its keywords
    moved. -/
theorem rendered_convertParameter (h_direct : Reference.isReference parameter = false) :
    Rendered parameter (convertParameter parameter) := by
  cases parameter with
  | object fields =>
    cases h_schema : Entries.has fields "schema" with
    | true =>
      -- the guard of the conversion: nothing of the parameter is looked at
      rw [convertParameter, h_schema]
      exact .described h_direct h_schema
    | false =>
      have h_none : fields.lookup "schema" = none := by
        rwa [Entries.has, Option.isSome_eq_false_iff, Option.isNone_iff_eq_none] at h_schema
      rw [convertParameter_object h_none, convertedFields, plainFields_eq]
      exact .moved h_direct h_schema
  | _ => exact .other rfl

theorem eq_of_sharedBody? {target name : String} (h_shared : context.sharedBody? target = some name) :
    target = parameterRoot ++ name := by
  obtain ⟨own, h_own, h_shared⟩ := Option.bind_eq_some_iff.mp h_shared
  obtain ⟨parameters, -, h_shared⟩ := Option.bind_eq_some_iff.mp h_shared
  obtain ⟨parameter, -, h_shared⟩ := Option.bind_eq_some_iff.mp h_shared
  rw [Text.after?_eq_some_iff.mp h_own]
  split at h_shared
  · rw [Option.some.inj h_shared]
  · cases h_shared

/-- A reference is a body when it leads to one, and stays otherwise. -/
theorem sorts_reference {target : String} (h_target : Reference.target? parameter = some target) :
    context.Sorts consumes parameter (context.slotOf consumes parameter) := by
  have h_body : context.IsBody parameter ↔ context.LeadsToBody target := by
    rw [Context.IsBody, h_target]
  -- a reference is no form field, whatever it leads to
  have h_form : ¬ IsFormField parameter := by
    rintro ⟨h_direct, -⟩
    cases h_target.symm.trans h_direct
  rw [Context.slotOf, h_target]
  simp only
  cases h_shared : context.sharedBody? target with
  | some name =>
    have h_leads := isSome_sharedBody?_iff.mp (Option.isSome_of_eq_some h_shared)
    rw [eq_of_sharedBody? h_shared] at h_target
    exact .body (h_body.mpr h_leads) (.shared h_target)
  | none =>
    have h_stays : ¬ context.IsBody parameter := by
      rw [h_body, ← isSome_sharedBody?_iff, h_shared]
      exact Bool.false_ne_true
    have h_reference : Reference.isReference parameter = true := by
      rw [Reference.isReference, h_target]
      rfl
    exact .parameter ⟨h_stays, h_form⟩ (.reference h_reference)

/-- A parameter described in place goes by its location. -/
theorem sorts_direct (h_target : Reference.target? parameter = none) :
    context.Sorts consumes parameter (context.slotOf consumes parameter) := by
  have h_body : context.IsBody parameter ↔ parameter.textAt? "in" = some "body" := by
    rw [Context.IsBody, h_target]
  have h_form : IsFormField parameter ↔ parameter.textAt? "in" = some "formData" :=
    and_iff_right h_target
  have h_direct : Reference.isReference parameter = false := by
    rw [Reference.isReference, h_target]
    rfl
  rw [Context.slotOf, h_target]
  simp only
  split
  · next h_in => exact .body (h_body.mpr h_in) (.own h_target)
  · next h_in => exact .form (h_form.mpr h_in)
  · next h_not_body h_not_form =>
    exact .parameter ⟨mt h_body.mp h_not_body, mt h_form.mp h_not_form⟩
      (rendered_convertParameter h_direct)

/-- Every parameter goes the way of its kind. -/
theorem sorts_slotOf (context : Context) (consumes : List String) (parameter : Json) :
    context.Sorts consumes parameter (context.slotOf consumes parameter) := by
  cases h_target : Reference.target? parameter with
  | some target => exact sorts_reference h_target
  | none => exact sorts_direct h_target

/-! ## Lists of parameters -/

/-- The loop over a list of parameters: each of the three lists that it fills has what became of the
    parameters of one kind, in their order. -/
theorem filterMap_of_sorts (h_slots : List.Forall₂ (context.Sorts consumes) listed slots) :
    List.Forall₂ Rendered (listed.filter context.Stays) (slots.filterMap Slot.parameter?) ∧
    List.Forall₂ (MakesBody consumes) (listed.filter context.IsBody)
      (slots.filterMap Slot.body?) ∧
    slots.filterMap Slot.form? = listed.filter IsFormField := by
  induction h_slots with
  | nil => exact ⟨.nil, .nil, rfl⟩
  | @cons parameter slot listed slots h_sorts _ ih =>
    obtain ⟨h_stay, h_bodies, h_forms⟩ := ih
    -- the way that the parameter goes is the one filter of the three that keeps it
    cases h_sorts with
    | parameter h_stays h_value =>
      rw [List.filter_cons_of_pos (by simpa using h_stays),
        List.filter_cons_of_neg (by simpa using h_stays.1),
        List.filter_cons_of_neg (by simpa using h_stays.2)]
      exact ⟨.cons h_value h_stay, h_bodies, h_forms⟩
    | body h_body h_value =>
      rw [List.filter_cons_of_neg (by simp [Context.Stays, h_body]),
        List.filter_cons_of_pos (by simpa using h_body),
        List.filter_cons_of_neg (by simpa using not_isFormField_of_isBody h_body)]
      exact ⟨h_stay, .cons h_value h_bodies, h_forms⟩
    | form h_form =>
      have h_not_body : ¬ context.IsBody parameter :=
        fun h_body => not_isFormField_of_isBody h_body h_form
      rw [List.filter_cons_of_neg (by simp [Context.Stays, h_form]),
        List.filter_cons_of_neg (by simpa using h_not_body),
        List.filter_cons_of_pos (by simpa using h_form)]
      exact ⟨h_stay, h_bodies, congrArg (List.cons parameter) h_forms⟩

/-! ## Request bodies -/

/-- A list under a key, when it has items. -/
def listField (name : String) (items : List Json) : Entries Json :=
  optionalField name (if items.isEmpty then none else some (.array items))

/-- The fields of a form that have a name, under their names. -/
def namedFields (fields : List Json) : List (String × Json) :=
  fields.filterMap fun field => (field.textAt? "name").map fun name => (name, field)

/-- Whether a field of a form is marked as required. -/
def isMarked (field : Json) : Bool := (field.field? "required").bind Json.bool? = some true

/-- Whether a form is sent in several parts: a named field is a file, or the operation says so. -/
def SendsParts (fields : List Json) (consumes : List String) : Prop :=
  (∃ entry ∈ namedFields fields, isFile entry.2 = true) ∨ multipart ∈ consumes

/-- Whether a body is that of a form: an object with a property for each name, of the last field that
    has it, under the one media type of the form. It requires the names of the marked fields. -/
def IsFormBody (fields : List Json) (consumes : List String) (body : Json) : Prop :=
  ∃ media properties,
    body = .object [("content", .object [(media, .object [("schema", .object
      ([("type", .text "object"), ("properties", .object properties)] ++
        listField "required" (((namedFields fields).filter fun entry => isMarked entry.2).map
          fun entry => .text entry.1)))])])] ∧
    Entries.Merged ((namedFields fields).map fun entry => (entry.1, formProperty entry.2))
      properties ∧
    (media = multipart ∧ SendsParts fields consumes ∨
      media = urlEncoded ∧ ¬ SendsParts fields consumes)

/-- What the parameters of an operation make of its request body: the last body, else a form of all
    the form fields, else nothing. -/
inductive Context.Requests (context : Context) (consumes : List String) (listed : List Json) :
    Option Json → Prop where
  | body {last body : Json} (h_last : (listed.filter context.IsBody).getLast? = some last)
      (h_body : MakesBody consumes last body) : context.Requests consumes listed (some body)
  | form {body : Json} (h_bodies : listed.filter context.IsBody = [])
      (h_fields : listed.filter IsFormField ≠ [])
      (h_form : IsFormBody (listed.filter IsFormField) consumes body) :
      context.Requests consumes listed (some body)
  | nothing (h_bodies : listed.filter context.IsBody = [])
      (h_fields : listed.filter IsFormField = []) : context.Requests consumes listed none

/-- The media type of a form. -/
def formMedia (fields : List Json) (consumes : List String) : String :=
  if (namedFields fields).any (fun entry => isFile entry.2) || consumes.contains multipart then
    multipart
  else urlEncoded

/-- A form is sent in parts exactly when it has a file or says so itself. -/
theorem formMedia_cases (fields : List Json) (consumes : List String) :
    formMedia fields consumes = multipart ∧ SendsParts fields consumes ∨
      formMedia fields consumes = urlEncoded ∧ ¬ SendsParts fields consumes := by
  have h_parts : ((namedFields fields).any (fun entry => isFile entry.2) ||
      consumes.contains multipart) = true ↔ SendsParts fields consumes := by
    rw [Bool.or_eq_true, List.any_eq_true, List.contains_iff_mem]
    rfl
  rw [formMedia]
  split
  · next h_some => exact .inl ⟨rfl, h_parts.mp h_some⟩
  · next h_none => exact .inr ⟨rfl, mt h_parts.mpr h_none⟩

theorem listField_eq (name : String) (items : List Json) :
    listField name items = if items.isEmpty then [] else [(name, .array items)] := by
  rw [listField]
  split <;> rfl

/-- The body that is made of form fields is as the specification has it. -/
theorem isFormBody_bodyOfForm (fields : List Json) (consumes : List String) :
    IsFormBody fields consumes (bodyOfForm fields consumes) := by
  refine ⟨formMedia fields consumes, _, ?_, Entries.merged_ofPairs _,
    formMedia_cases fields consumes⟩
  rw [listField_eq]
  rfl

/-- Lists that match item by item match in their last items. -/
theorem rel_getLast? {α β : Type} {R : α → β → Prop} {items : List α} {results : List β}
    (h_match : List.Forall₂ R items results) : Option.Rel R items.getLast? results.getLast? := by
  have h_reverse := List.rel_reverse h_match
  rw [← List.head?_reverse, ← List.head?_reverse]
  -- the last items are the first ones of the reversed lists
  generalize items.reverse = backward, results.reverse = made at h_reverse
  cases h_reverse with
  | nil => exact .none
  | cons h_last _ => exact .some h_last

/-- The request body that parameters make, whichever way each of them goes. -/
theorem requests_requestBody? (h_slots : List.Forall₂ (context.Sorts consumes) listed slots) :
    context.Requests consumes listed (requestBody? slots consumes) := by
  obtain ⟨-, h_bodies, h_forms⟩ := filterMap_of_sorts h_slots
  have h_last := rel_getLast? h_bodies
  rw [requestBody?, h_forms]
  split
  · next body h_body =>
    -- the last body was made of the last parameter that is one
    rw [h_body] at h_last
    cases h_own : (listed.filter context.IsBody).getLast? with
    | none => rw [h_own] at h_last; cases h_last
    | some last =>
      rw [h_own] at h_last
      cases h_last with
      | some h_made => exact .body h_own h_made
  · next h_none =>
    have h_no_body : listed.filter context.IsBody = [] := by
      rw [List.getLast?_eq_none_iff.mp h_none] at h_bodies
      exact List.forall₂_nil_right_iff.mp h_bodies
    -- without a body the form decides
    split
    · next h_fields => exact .nothing h_no_body h_fields
    · next h_fields => exact .form h_no_body h_fields (isFormBody_bodyOfForm _ consumes)

/-! ## Operations -/

/-- The keys of an operation whose values go elsewhere, or nowhere. -/
def movedKeys : List String := ["consumes", "produces", "schemes", "parameters"]

/-- A field that keeps its place: responses are converted, and any other value stays as it is. -/
def placedField (produces : List String) (entry : String × Json) : String × Json :=
  if entry.1 = "responses" then
    (entry.1, .object ((entry.2.fields?.getD []).map fun response =>
      (response.1, convertResponse response.2 produces)))
  else entry

/-- The media types of the responses of an operation. -/
def Context.responseMedia (context : Context) (fields : Entries Json) : List String :=
  ownMedia fields "produces" context.produces

/-- The parameters that an operation lists. -/
def listedParameters (fields : Entries Json) : List Json :=
  ((fields.lookup "parameters").bind Json.items?).getD []

theorem keptField?_eq (produces : List String) (entry : String × Json) :
    keptField? produces entry =
      if entry.1 ∉ movedKeys then some (placedField produces entry) else none := by
  rw [keptField?, ← movedKeys]
  by_cases h_moved : entry.1 ∈ movedKeys
  · rw [if_pos (List.contains_iff_mem.mpr h_moved), if_neg (not_not.mpr h_moved)]
  · rw [if_neg (mt List.contains_iff_mem.mp h_moved), if_pos h_moved, placedField]
    split <;> rfl

/-- The fields that keep their places do so in their order. -/
theorem kept_eq (context : Context) (fields : Entries Json) :
    context.kept fields = (fields.filter fun entry => entry.1 ∉ movedKeys).map
      (placedField (context.responseMedia fields)) := by
  rw [Context.kept, ← Context.responseMedia, ← List.filterMap_eq_map, List.filterMap_filter]
  congr 1
  funext entry
  rw [keptField?_eq]
  simp only [decide_eq_true_eq, Function.comp_apply]

theorem stayingParameters?_eq (slots : List Slot) :
    optionalField "parameters" (stayingParameters? slots) =
      listField "parameters" (slots.filterMap Slot.parameter?) := by
  rw [stayingParameters?, listField]
  cases slots.filterMap Slot.parameter? with
  | nil => rfl
  | cons parameter parameters => rfl

/-- A field that is new goes behind all others. -/
theorem put_optional {name : String} {value : Option Json} (h_new : fields.lookup name = none) :
    (match value with
      | some value => Entries.put fields name value
      | none => fields) = fields ++ optionalField name value := by
  cases value with
  | none => exact (List.append_nil fields).symm
  | some value => exact Entries.put_of_not_mem (Entries.lookup_eq_none_iff.mp h_new) value

/-- A converted operation: the fields that keep their places, the parameters that stay, and the
    request body. -/
theorem convertOperation_eq_append (h_bare : fields.lookup "requestBody" = none) :
    context.convertOperation fields = context.kept fields ++
      listField "parameters" ((context.slots fields).filterMap Slot.parameter?) ++
      optionalField "requestBody"
        (requestBody? (context.slots fields) (context.requestMedia fields)) := by
  have h_new : (context.withoutBody fields).lookup "requestBody" = none := by
    rw [lookup_withoutBody, if_neg (by decide), lookup_kept (by decide), h_bare]
  -- neither key is left among the fields that keep their places, so both go to the end
  have h_parameters : context.withoutBody fields = context.kept fields ++
      optionalField "parameters" (stayingParameters? (context.slots fields)) :=
    put_optional lookup_kept_parameters
  rw [← stayingParameters?_eq, ← h_parameters]
  exact (convertOperation_eq context fields).trans (put_optional h_new)

theorem sorts_slots (context : Context) (fields : Entries Json) :
    List.Forall₂ (context.Sorts (context.requestMedia fields)) (listedParameters fields)
      (context.slots fields) := by
  rw [Context.slots, List.forall₂_map_right_iff, ← listedParameters, List.forall₂_same]
  exact fun parameter _ => sorts_slotOf context _ parameter

/-- Every entry of an operation has its place once the operation is converted. Fields keep their
    order; the parameters that stay come after them, and the request body is last. No parameter is
    both a body and a field of a form, so each one goes one way. -/
theorem operation_placed (context : Context) (h_bare : fields.lookup "requestBody" = none) :
    (∃ parameters body,
      context.convertOperation fields =
        (fields.filter fun entry => entry.1 ∉ movedKeys).map
            (placedField (context.responseMedia fields)) ++
          listField "parameters" parameters ++ optionalField "requestBody" body ∧
      List.Forall₂ Rendered ((listedParameters fields).filter context.Stays) parameters ∧
      context.Requests (context.requestMedia fields) (listedParameters fields) body) ∧
    ∀ parameter, ¬ (context.IsBody parameter ∧ IsFormField parameter) := by
  have h_slots := sorts_slots context fields
  constructor
  · refine ⟨_, _, ?_, (filterMap_of_sorts h_slots).1, requests_requestBody? h_slots⟩
    rw [convertOperation_eq_append h_bare, kept_eq]
  · exact fun parameter h_both => not_isFormField_of_isBody h_both.1 h_both.2

/-- An operation that uploads pets: a reference to a shared parameter, a field of a form, and a
    filter. -/
def uploadFields : Entries Json :=
  [("tags", .array [.text "pets"]), ("consumes", .array [.text "text/plain"]),
    ("parameters", .array [.object [("$ref", .text "#/parameters/Trace")],
      .object [("name", .text "photo"), ("in", .text "formData"), ("type", .text "file")],
      .object [("name", .text "ids"), ("in", .text "query"), ("type", .text "array"),
        ("collectionFormat", .text "csv")]]),
    ("operationId", .text "upload")]

/-- The operation once it is converted. -/
def convertedUpload : Entries Json :=
  [("tags", .array [.text "pets"]), ("operationId", .text "upload"),
    ("parameters", .array [.object [("$ref", .text "#/parameters/Trace")],
      .object [("name", .text "ids"), ("in", .text "query"),
        ("schema", .object [("type", .text "array")])]]),
    ("requestBody", .object [("content", .object [("multipart/form-data", .object [("schema",
      .object [("type", .text "object"), ("properties", .object [("photo", .object
        [("type", .text "string"), ("format", .text "binary")])])])])])])]

theorem upload_placed :
    uploadFields.lookup "requestBody" = none ∧
      (Context.of []).convertOperation uploadFields = convertedUpload ∧
      ∃ parameters body,
        convertedUpload =
          (uploadFields.filter fun entry => entry.1 ∉ movedKeys).map
              (placedField ((Context.of []).responseMedia uploadFields)) ++
            listField "parameters" parameters ++ optionalField "requestBody" body ∧
        List.Forall₂ Rendered
          ((listedParameters uploadFields).filter (Context.of []).Stays) parameters ∧
        (Context.of []).Requests ((Context.of []).requestMedia uploadFields)
          (listedParameters uploadFields) body := by
  have h_bare : uploadFields.lookup "requestBody" = none := rfl
  have h_converted : (Context.of []).convertOperation uploadFields = convertedUpload := by rfl
  obtain ⟨⟨parameters, body, h_placed⟩, -⟩ := operation_placed (Context.of []) h_bare
  -- the theorem speaks of the converted fields, which are known here
  rw [h_converted] at h_placed
  exact ⟨h_bare, h_converted, parameters, body, h_placed⟩

/-- A parameter with a schema of its own. -/
def describedParameter : Json :=
  .object [("name", .text "ids"), ("in", .text "query"), ("collectionFormat", .text "csv"),
    ("schema", .object [])]

/-- A parameter with a schema of its own stays as it is, also with a keyword that has no place any
    more. -/
theorem collectionFormat_kept :
    List.lookup "requestBody" [("parameters", Json.array [describedParameter])] = none ∧
      Reference.isReference describedParameter = false ∧
      (Context.of []).Stays describedParameter ∧
      (Context.of []).convertOperation [("parameters", .array [describedParameter])] =
        [("parameters", .array [describedParameter])] ∧
      describedParameter.field? "collectionFormat" = some (.text "csv") := by
  have h_stays : (Context.of []).Stays describedParameter := by decide
  exact ⟨rfl, rfl, h_stays, by rfl, rfl⟩

end OpenApiTs.Swagger
