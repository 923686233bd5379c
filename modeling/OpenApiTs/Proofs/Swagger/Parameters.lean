/-
  OpenApiTs.Proofs.Swagger.Parameters

  What is extracted of an upgraded document: one operation for each method of each path, in order,
  with every parameter that the operation itself describes in plain words. The conversion moves
  keywords under `schema` and takes bodies out of the list; extraction decodes what is left.
-/
import OpenApiTs.Proofs.Swagger.Operations
import OpenApiTs.Proofs.Swagger.Upgraded

namespace OpenApiTs.Swagger

variable {context : Context} {document upgraded value : Json} {parameter : Parameter}
  {fields converted paths : Entries Json} {url key : String}

/-! ## Addresses -/

/-- The address of each key of a path that is a method. -/
def addressesUnder (url : String) (fields : Entries Json) : List (String × String) :=
  fields.filterMap fun entry => (Method.ofKey? entry.1).map fun method => (url, method.key)

/-- The address of each method of each path of a document, in order. -/
def addresses (document : Json) : List (String × String) :=
  ((document.fieldsAt? "paths").getD []).flatMap fun path =>
    addressesUnder path.1 (path.2.fields?.getD [])

/-- The operations that are listed are those at the addresses, whatever they are converted to. -/
theorem address_ofFields (h_fields : List.Forall₂ (Converts context) fields converted) :
    (Listed.ofFields url fields).map Listed.address = addressesUnder url fields := by
  rw [Listed.ofFields, addressesUnder, List.map_filterMap]
  apply List.filterMap_congr
  intro entry h_entry
  obtain ⟨result, -, h_converts⟩ := Outcome.exists_partner h_fields h_entry
  -- an operation stays one under its method, and nothing else becomes one
  cases h_converts with
  | operation method own =>
    rw [Listed.ofField?, Method.ofKey?_key]
    rfl
  | shared value => rfl
  | other value h_method h_shared =>
    rw [Listed.ofField?, h_method]
    rfl

/-- A document that can be upgraded lists an operation for each method of each path. -/
theorem address_ofDocument (h_swagger : IsSwagger document)
    (h_upgrade : upgrade document = .ok upgraded) :
    (Listed.ofDocument document).map Listed.address = addresses document := by
  obtain ⟨paths, h_paths, -⟩ := exists_paths h_swagger h_upgrade
  rw [Listed.ofDocument, addresses, List.map_flatMap]
  apply List.flatMap_congr
  intro path h_path
  obtain ⟨result, -, h_result⟩ := Outcome.exists_partner (Outcome.mapM_eq_ok_iff.mp h_paths) h_path
  obtain ⟨fields, converted, h_value, h_all, -⟩ := convertPath_eq_ok_iff.mp h_result
  rw [h_value]
  exact address_ofFields (converts_of_mapM h_all)

/-! ## Values below a path -/

/-- A value below a path with its references moved. Below the path `$ref` nothing is looked into. -/
def movedBelow (url : String) (value : Json) : Json :=
  if url = "$ref" then value else moveReferences value

/-- Below anything but a reference a value is moved as one below the address. -/
theorem movedAt_of_ne (h_key : key ≠ "$ref") (url : String) (value : Json) :
    movedAt url key value = movedBelow url value := by
  rw [movedAt, movedBelow, movedField_of_ne h_key]

theorem map_movedAt_of_ne (h_key : key ≠ "$ref") (url : String) (held : Option Json) :
    held.map (movedAt url key) = held.map (movedBelow url) :=
  congrArg held.map (funext (movedAt_of_ne h_key url))

theorem movedBelow_object (url : String) (fields : Entries Json) :
    movedBelow url (.object fields) = .object (movedUnder url fields) := by
  rw [← movedAt_of_ne (by decide : "name" ≠ "$ref")]
  exact movedAt_object (by decide) url fields

/-- A list is moved item by item. -/
theorem movedBelow_array (url : String) (items : List Json) :
    movedBelow url (.array items) = .array (items.map (movedBelow url)) := by
  unfold movedBelow
  split
  · rw [List.map_id']
  · exact moveReferences_array items

/-- Moving makes no text of a value and leaves none out. -/
@[simp] theorem text?_movedBelow (url : String) (value : Json) :
    (movedBelow url value).text? = value.text? := by
  rw [movedBelow]
  split
  · rfl
  · exact text?_moveReferences value

theorem bind_text?_movedBelow (url : String) (value : Option Json) :
    (value.map (movedBelow url)).bind Json.text? = value.bind Json.text? := by
  cases value with
  | none => rfl
  | some value => exact text?_movedBelow url value

/-- The texts in a list stay the same. -/
theorem filterMap_text?_movedBelow (url : String) (items : List Json) :
    (items.map (movedBelow url)).filterMap Json.text? = items.filterMap Json.text? := by
  rw [List.filterMap_map]
  congr 1
  funext item
  exact text?_movedBelow url item

/-- So do flags. -/
theorem optionalFlag?_movedBelow (url : String) (value : Option Json) :
    Parameter.optionalFlag? (value.map (movedBelow url)) = Parameter.optionalFlag? value := by
  unfold movedBelow
  split
  · rw [Option.map_id']
  · rcases value with _ | _ | _ | _ | _ | _ | _ <;>
      simp [moveReferences, Parameter.optionalFlag?]

theorem optionalText?_movedBelow (url : String) (value : Option Json) :
    Parameter.optionalText? (value.map (movedBelow url)) = Parameter.optionalText? value := by
  unfold movedBelow
  split
  · rw [Option.map_id']
  · rcases value with _ | _ | _ | _ | _ | _ | _ <;>
      simp [moveReferences, Parameter.optionalText?]

/-! ## Parameters in plain words -/

/-- A keyword of the schema of a parameter: a type `file` is a text, and references are moved. -/
def keyword? (url : String) (entry : String × Json) : Option (String × Json) :=
  if entry.1 ∈ schemaKeywords then
    if entry.1 = "type" ∧ entry.2.text? = some "file" then some ("type", .text "string")
    else some (entry.1, movedBelow url entry.2)
  else none

/-- The schema that the keywords of a parameter make; none when it has no keyword. -/
def keywordSchema? (url : String) (fields : Entries Json) : Option Json :=
  match fields.filterMap (keyword? url) with
  | [] => none
  | keywords => some (.object keywords)

/-- The parameter that a value describes in plain words: no reference, without a schema of its own,
    with a name, a location, and at most a flag and a description of the right kinds. -/
def plainParameter? (url : String) (value : Json) : Option Parameter :=
  match value with
  | .object fields =>
    if Reference.isReference value || Entries.has fields "schema" then none
    else do
      let name ← (fields.lookup "name").bind Json.text?
      let word ← (fields.lookup "in").bind Json.text?
      let location ← Location.ofWord? word
      let required ← Parameter.optionalFlag? (fields.lookup "required")
      let description ← Parameter.optionalText? (fields.lookup "description")
      return ⟨name, location, required, description, keywordSchema? url fields⟩
  | _ => none

/-- What a value in plain words has under its keys. -/
structure IsPlain (url : String) (fields : Entries Json) (parameter : Parameter) : Prop where
  direct : Reference.isReference (.object fields) = false
  bare : fields.lookup "schema" = none
  name : (fields.lookup "name").bind Json.text? = some parameter.name
  location : ((fields.lookup "in").bind Json.text?).bind Location.ofWord? = some parameter.location
  required : Parameter.optionalFlag? (fields.lookup "required") = some parameter.required
  description :
    Parameter.optionalText? (fields.lookup "description") = some parameter.description
  schema : keywordSchema? url fields = parameter.schema

/-- What is read as a plain parameter has the fields of one. -/
theorem exists_isPlain (h_plain : plainParameter? url value = some parameter) :
    ∃ fields, value = .object fields ∧ IsPlain url fields parameter := by
  cases value with
  | object fields =>
    rw [plainParameter?] at h_plain
    split at h_plain
    · cases h_plain
    · next h_kind =>
      rw [Bool.or_eq_true, not_or, Bool.not_eq_true, Bool.not_eq_true, Entries.has,
        Option.isSome_eq_false_iff, Option.isNone_iff_eq_none] at h_kind
      obtain ⟨name, h_name, h_plain⟩ := Option.bind_eq_some_iff.mp h_plain
      obtain ⟨word, h_word, h_plain⟩ := Option.bind_eq_some_iff.mp h_plain
      obtain ⟨location, h_location, h_plain⟩ := Option.bind_eq_some_iff.mp h_plain
      obtain ⟨required, h_required, h_plain⟩ := Option.bind_eq_some_iff.mp h_plain
      obtain ⟨description, h_description, h_made⟩ := Option.bind_eq_some_iff.mp h_plain
      obtain rfl := Option.some.inj h_made
      exact ⟨fields, rfl, h_kind.1, h_kind.2, h_name,
        Option.bind_eq_some_iff.mpr ⟨word, h_word, h_location⟩, h_required, h_description, rfl⟩
  | _ => cases h_plain

/-! ## Conversion and decoding -/

/-- The parameter that extraction decodes; none for a reference. -/
def decoded? (value : Json) : Option Parameter :=
  if Reference.isReference value then none else Parameter.ofJson? value

/-- The schema of a converted parameter. -/
def convertedSchema? (fields : Entries Json) : Option Json :=
  match schemaFields fields with
  | [] => none
  | schema => some (.object schema)

/-- The fields of a converted parameter. -/
def convertedFields (fields : Entries Json) : Entries Json :=
  plainFields fields ++ optionalField "schema" (convertedSchema? fields)

/-- A parameter without a schema gets one of the keywords that it has. -/
theorem convertParameter_object (h_schema : fields.lookup "schema" = none) :
    convertParameter (.object fields) = .object (convertedFields fields) := by
  rw [convertParameter, Entries.has, h_schema, convertedFields, convertedSchema?]
  cases schemaFields fields with
  | nil => exact congrArg Json.object (List.append_nil _).symm
  | cons entry entries => rfl

/-- Fields that are neither schema keywords nor dropped stay. -/
theorem lookup_plainFields (h_key : key ∉ schemaKeywords ++ droppedKeywords) :
    (plainFields fields).lookup key = fields.lookup key := by
  have h_keep : (!schemaKeywords.contains key && !droppedKeywords.contains key) = true := by
    simpa using h_key
  exact @Entries.lookup_filter _ key
    (fun name => !schemaKeywords.contains name && !droppedKeywords.contains name) h_keep fields

/-- Keys that are no keywords keep their values. -/
theorem lookup_convertedFields (h_key : key ∉ "schema" :: (schemaKeywords ++ droppedKeywords)) :
    (convertedFields fields).lookup key = fields.lookup key := by
  rw [List.mem_cons, not_or] at h_key
  rw [convertedFields, List.lookup_append, lookup_plainFields h_key.2, lookup_optionalField,
    if_neg h_key.1, Option.or_none]

/-- The schema of a converted parameter is made of its keywords. -/
theorem lookup_convertedFields_schema (h_schema : fields.lookup "schema" = none) :
    (convertedFields fields).lookup "schema" = convertedSchema? fields := by
  rw [convertedFields, List.lookup_append, lookup_plainFields (by decide), h_schema,
    lookup_optionalField, if_pos rfl, Option.none_or]

/-- A schema entry is the keyword as it is, but for files, which become texts. -/
theorem schemaEntry_eq (entry : String × Json) :
    schemaEntry entry =
      if entry.1 = "type" ∧ entry.2.text? = some "file" then ("type", .text "string")
      else entry := by
  unfold schemaEntry
  split
  · rfl
  · next h_other =>
    rw [if_neg]
    -- the value is the text, so the first case would have applied
    rintro ⟨h_key, h_file⟩
    obtain ⟨key, value⟩ := entry
    cases value with
    | text words =>
      cases h_file
      exact h_other (Prod.ext h_key rfl)
    | _ => cases h_file

/-- A keyword is read from the fields as it is found in the schema afterwards. -/
theorem keyword?_of_mem {entry : String × Json} (h_keyword : entry.1 ∈ schemaKeywords)
    (url : String) :
    keyword? url entry =
      some ((schemaEntry entry).1, movedAt url (schemaEntry entry).1 (schemaEntry entry).2) := by
  -- a keyword of schemas is no reference, so its value is moved as one below it
  have h_key : entry.1 ≠ "$ref" := by
    intro h_key
    rw [h_key] at h_keyword
    exact absurd h_keyword (by decide)
  rw [keyword?, if_pos h_keyword, schemaEntry_eq]
  split
  · rw [movedAt_of_ne (by decide), movedBelow]
    simp [moveReferences]
  · rw [movedAt_of_ne h_key]

/-- The schema of a converted parameter, with its references moved, has its keywords. -/
theorem movedUnder_schemaFields (url : String) (fields : Entries Json) :
    movedUnder url (schemaFields fields) = fields.filterMap (keyword? url) := by
  rw [movedUnder, schemaFields, List.map_map]
  induction fields with
  | nil => rfl
  | cons entry fields ih =>
    rw [List.filter_cons, List.filterMap_cons]
    by_cases h_keyword : entry.1 ∈ schemaKeywords
    · rw [if_pos (List.contains_iff_mem.mpr h_keyword), keyword?_of_mem h_keyword, List.map_cons,
        ih]
      rfl
    · rw [if_neg (by simpa using h_keyword), keyword?, if_neg h_keyword, ih]

/-- The schema that a parameter is converted to, moved, is the one that is read from its
    keywords. -/
theorem convertedSchema?_movedBelow (url : String) (fields : Entries Json) :
    (convertedSchema? fields).map (movedBelow url) = keywordSchema? url fields := by
  rw [keywordSchema?, ← movedUnder_schemaFields, convertedSchema?]
  cases schemaFields fields with
  | nil => rfl
  | cons entry entries => exact congrArg some (movedBelow_object url _)

theorem optionalSchema_keywordSchema? (url : String) (fields : Entries Json) :
    Parameter.optionalSchema (keywordSchema? url fields) = keywordSchema? url fields := by
  rw [keywordSchema?]
  split <;> rfl

/-- A converted parameter is a reference when it was one. -/
theorem isReference_movedUnder_converted :
    Reference.isReference (.object (movedUnder url (convertedFields fields))) =
      Reference.isReference (.object fields) := by
  change ((List.lookup "$ref" (movedUnder url (convertedFields fields))).bind Json.text?).isSome =
    ((List.lookup "$ref" fields).bind Json.text?).isSome
  rw [lookup_movedUnder, lookup_convertedFields (by decide)]
  cases fields.lookup "$ref" with
  | none => rfl
  | some target =>
    -- the target is a text before and after, whether it is moved or not
    simp only [Option.map_some, movedAt, movedField]
    split
    · rfl
    · cases target <;> rfl

/-- What becomes of a field that is no keyword of the conversion. -/
theorem lookup_movedUnder_converted
    (h_key : key ∉ "$ref" :: "schema" :: (schemaKeywords ++ droppedKeywords)) :
    List.lookup key (movedUnder url (convertedFields fields)) =
      (fields.lookup key).map (movedBelow url) := by
  rw [List.mem_cons, not_or] at h_key
  rw [lookup_movedUnder, lookup_convertedFields h_key.2, map_movedAt_of_ne h_key.1]

theorem lookup_movedUnder_schema (h_schema : fields.lookup "schema" = none) :
    List.lookup "schema" (movedUnder url (convertedFields fields)) = keywordSchema? url fields := by
  rw [lookup_movedUnder, lookup_convertedFields_schema h_schema, map_movedAt_of_ne (by decide),
    convertedSchema?_movedBelow]

/-- A location is a word, so it is read as before. -/
theorem bind_ofJson?_movedBelow {held : Option Json} {location : Location}
    (h_location : (held.bind Json.text?).bind Location.ofWord? = some location) :
    (held.map (movedBelow url)).bind Location.ofJson? = some location := by
  rw [← bind_text?_movedBelow url] at h_location
  obtain ⟨word, h_word, h_location⟩ := Option.bind_eq_some_iff.mp h_location
  obtain ⟨value, h_value, h_text⟩ := Option.bind_eq_some_iff.mp h_word
  rw [h_value]
  cases value with
  | text own =>
    cases h_text
    exact h_location
  | _ => cases h_text

/-- A parameter in plain words is decoded as it stands from what the conversion makes of it. -/
theorem decoded?_converted (h_plain : IsPlain url fields parameter) :
    decoded? (movedBelow url (convertParameter (.object fields))) = some parameter := by
  rw [convertParameter_object h_plain.bare, movedBelow_object, decoded?,
    isReference_movedUnder_converted, h_plain.direct, if_neg Bool.false_ne_true,
    Parameter.ofJson?, lookup_movedUnder_converted (by decide),
    lookup_movedUnder_converted (by decide), lookup_movedUnder_converted (by decide),
    lookup_movedUnder_converted (by decide), lookup_movedUnder_schema h_plain.bare,
    Parameter.ofFields?, bind_text?_movedBelow, h_plain.name,
    bind_ofJson?_movedBelow h_plain.location, optionalFlag?_movedBelow, h_plain.required,
    optionalText?_movedBelow, h_plain.description, optionalSchema_keywordSchema?, h_plain.schema]
  rfl

/-! ## Lists of parameters -/

/-- A parameter in plain words stays a parameter: no location is called `body` or `formData`. -/
theorem slotOf_plain {consumes : List String} (h_plain : IsPlain url fields parameter) :
    context.slotOf consumes (.object fields) = .parameter (convertParameter (.object fields)) := by
  have h_target : Reference.target? (.object fields) = none :=
    Option.not_isSome_iff_eq_none.mp (Bool.not_eq_true _ ▸ h_plain.direct)
  obtain ⟨word, h_word, h_location⟩ := Option.bind_eq_some_iff.mp h_plain.location
  have h_in : (Json.object fields).textAt? "in" = some parameter.location.word :=
    h_word.trans (congrArg some (Location.ofWord?_eq_some_iff.mp h_location))
  rw [Context.slotOf, h_target]
  simp only [h_in]
  cases parameter.location <;> rfl

/-- The parameters that stay in the list are decoded in order. -/
theorem listOf_staying (slots : List Slot) :
    Parameter.listOf ((stayingParameters? slots).map (movedAt url "parameters")) =
      (slots.filterMap Slot.parameter?).filterMap fun value => decoded? (movedBelow url value) := by
  -- no parameters that stay, or a list of them
  have h_staying : (((stayingParameters? slots).map (movedAt url "parameters")).bind
      Json.items?).getD [] = (slots.filterMap Slot.parameter?).map (movedBelow url) := by
    rw [stayingParameters?]
    cases slots.filterMap Slot.parameter? with
    | nil => rfl
    | cons value values =>
      rw [Option.map_some, movedAt_of_ne (by decide), movedBelow_array]
      rfl
  rw [Parameter.listOf, h_staying, List.filterMap_map]
  rfl

/-- What one reading keeps of a list, a reading that keeps at least that much keeps in the same
    order. -/
theorem sublist_filterMap {α β : Type} {f g : α → Option β} {items : List α}
    (h_each : ∀ item ∈ items, ∀ result, f item = some result → g item = some result) :
    (items.filterMap f).Sublist (items.filterMap g) := by
  induction items with
  | nil => exact List.Sublist.slnil
  | cons item items ih =>
    have h_rest := ih fun own h_own => h_each own (List.mem_cons_of_mem item h_own)
    rw [List.filterMap_cons, List.filterMap_cons]
    -- an item that both keep, one that only the second keeps, or one that neither keeps
    cases h_first : f item with
    | none =>
      cases g item with
      | none => exact h_rest
      | some other => exact h_rest.cons other
    | some result =>
      rw [h_each item List.mem_cons_self result h_first]
      exact h_rest.cons_cons result

/-- The parameters that an operation describes in plain words stand in order among those that are
    extracted of its conversion. -/
theorem plain_sublist (context : Context) (listed : Listed) :
    (listed.parameters.filterMap (plainParameter? listed.url)).Sublist
      (Parameter.listOf ((context.convertListed listed).fields.lookup "parameters")) := by
  have h_list : (context.convertListed listed).fields.lookup "parameters" =
      (stayingParameters? (context.slots listed.fields)).map
        (movedAt listed.url "parameters") := by
    rw [Context.convertListed, lookup_movedUnder, lookup_convertOperation_parameters]
  rw [h_list, listOf_staying, Context.slots, List.filterMap_map, List.filterMap_filterMap]
  apply sublist_filterMap
  intro value _ parameter h_plain
  obtain ⟨fields, rfl, h_fields⟩ := exists_isPlain h_plain
  rw [Function.comp_apply, slotOf_plain h_fields]
  exact decoded?_converted h_fields

/-! ## Operations -/

/-- Whether an operation carries what an operation of the older form says: its words, and in each
    location the parameters that it describes in plain words, in order. -/
structure Carries (listed : Listed) (operation : Operation) : Prop where
  address : operation.address = listed.address
  operationId : operation.operationId = (listed.fields.lookup "operationId").bind Json.text?
  summary : operation.summary = (listed.fields.lookup "summary").bind Json.text?
  description : operation.description = (listed.fields.lookup "description").bind Json.text?
  tags : operation.tags = ((listed.fields.lookup "tags").bind Json.items?).map fun tags =>
    tags.filterMap Json.text?
  parameters (location : Location) :
    ((listed.parameters.filterMap (plainParameter? listed.url)).filter fun parameter =>
      parameter.location == location).Sublist (operation.placed location)

/-- Keys that the conversion of an operation does not know keep their values. -/
theorem lookup_convertListed (listed : Listed) (h_key : key ∉ "$ref" ::
      ["consumes", "produces", "schemes", "parameters", "responses", "requestBody"]) :
    (context.convertListed listed).fields.lookup key =
      (listed.fields.lookup key).map (movedBelow listed.url) := by
  rw [List.mem_cons, not_or] at h_key
  rw [Context.convertListed, lookup_movedUnder, lookup_convertOperation h_key.2,
    map_movedAt_of_ne h_key.1]

/-- Texts of an operation stay, but for those of the fields that are converted. -/
theorem text_convertListed (listed : Listed) (h_key : key ∉ "$ref" ::
      ["consumes", "produces", "schemes", "parameters", "responses", "requestBody"]) :
    ((context.convertListed listed).fields.lookup key).bind Json.text? =
      (listed.fields.lookup key).bind Json.text? := by
  rw [lookup_convertListed listed h_key, bind_text?_movedBelow]

/-- The tags of an operation are texts, so they stay. -/
theorem tags_movedBelow (url : String) (held : Option Json) :
    ((held.map (movedBelow url)).bind Json.items?).map (fun tags => tags.filterMap Json.text?) =
      (held.bind Json.items?).map fun tags => tags.filterMap Json.text? := by
  cases held with
  | none => rfl
  | some value =>
    -- tags that are no list are none, before and after
    cases value with
    | array items =>
      rw [Option.map_some, movedBelow_array]
      exact congrArg some (filterMap_text?_movedBelow url items)
    | object fields =>
      rw [Option.map_some, movedBelow_object]
      rfl
    | _ =>
      simp only [Option.map_some, movedBelow, moveReferences, ite_self]

/-- An operation carries over all that its conversion is to keep. -/
theorem carries_convertListed (context : Context) (listed : Listed) :
    Carries listed (context.convertListed listed).operation where
  address := rfl
  operationId := text_convertListed listed (by decide)
  summary := text_convertListed listed (by decide)
  description := text_convertListed listed (by decide)
  tags := by
    rw [Listed.operation, Operation.ofFields, lookup_convertListed listed (by decide)]
    exact tags_movedBelow listed.url (listed.fields.lookup "tags")
  parameters location := by
    rw [Listed.placed_operation, Parameter.merge]
    -- the operation's own parameters come behind those of its path
    apply List.Sublist.filter
    exact (plain_sublist context listed).trans (List.sublist_append_right _ _)

/-- An upgraded document gives one operation for each method of each path, in order, and each one
    carries what the document says of it. -/
theorem extracted_of_upgrade (h_swagger : IsSwagger document)
    (h_upgrade : upgrade document = .ok upgraded) :
    (Operation.listOfDocument upgraded).map Operation.address = addresses document ∧
      List.Forall₂ Carries (Listed.ofDocument document) (Operation.listOfDocument upgraded) := by
  rw [Listed.listOfDocument_eq, ofDocument_upgraded h_swagger h_upgrade, List.map_map]
  constructor
  · rw [← address_ofDocument h_swagger h_upgrade, List.map_map]
    rfl
  · rw [List.forall₂_map_right_iff, List.forall₂_map_right_iff, List.forall₂_same]
    exact fun listed _ => carries_convertListed (Context.ofDocument document) listed

/-- The keywords of a parameter for a list of identifiers. -/
def identifierKeywords (root : String) : Entries Json :=
  [("type", .text "array"), ("items", .object [("$ref", .text (root ++ "Id"))])]

/-- A document whose one operation asks for identifiers. -/
def identifiersDocument (url : String) : Json :=
  .object [("swagger", .text "2.0"), ("paths", .object [(url, .object [("get", .object
    [("operationId", .text "list"), ("parameters", .array [.object
      ([("name", .text "ids"), ("in", .text "query")] ++
        identifierKeywords "#/definitions/")])])])])]

/-- The document once it is upgraded. -/
def upgradedIdentifiers (url root : String) : Json :=
  .object [("openapi", .text "3.0.0"), ("info", .object []), ("paths", .object [(url, .object
    [("get", .object [("operationId", .text "list"), ("parameters", .array [.object
      [("name", .text "ids"), ("in", .text "query"),
        ("schema", .object (identifierKeywords root))]])])])]), ("components", .object [])]

/-- A document whose parameters have schemas with references, which are moved. -/
theorem extracted_of_identifiers :
    IsSwagger (identifiersDocument "/pets") ∧
      upgrade (identifiersDocument "/pets") =
        .ok (upgradedIdentifiers "/pets" "#/components/schemas/") ∧
      (Operation.listOfDocument (upgradedIdentifiers "/pets" "#/components/schemas/")).map
          Operation.address = addresses (identifiersDocument "/pets") ∧
      List.Forall₂ Carries (Listed.ofDocument (identifiersDocument "/pets"))
        (Operation.listOfDocument (upgradedIdentifiers "/pets" "#/components/schemas/")) := by
  have h_swagger : IsSwagger (identifiersDocument "/pets") := ⟨rfl, rfl⟩
  have h_upgrade : upgrade (identifiersDocument "/pets") =
      .ok (upgradedIdentifiers "/pets" "#/components/schemas/") := by rfl
  exact ⟨h_swagger, h_upgrade, extracted_of_upgrade h_swagger h_upgrade⟩

/-- Below the path `$ref` the references of a parameter stand as they are. -/
theorem identifiers_not_moved :
    IsSwagger (identifiersDocument "$ref") ∧
      addresses (identifiersDocument "$ref") = [("$ref", "get")] ∧
      ∃ upgraded, upgrade (identifiersDocument "$ref") = .ok upgraded ∧
        ∀ operation ∈ Operation.listOfDocument upgraded, ∀ parameter ∈ operation.query,
          parameter.schema ≠
            some (moveReferences (.object (identifierKeywords "#/definitions/"))) := by
  refine ⟨⟨rfl, rfl⟩, rfl, upgradedIdentifiers "$ref" "#/definitions/", by rfl, ?_⟩
  intro operation h_operation parameter h_parameter h_schema
  -- the document has one parameter, so its schema is the one that is looked at
  have h_queries : (Operation.listOfDocument
      (upgradedIdentifiers "$ref" "#/definitions/")).flatMap Operation.query =
        [⟨"ids", .query, false, none, some (.object (identifierKeywords "#/definitions/"))⟩] := rfl
  have h_only := List.mem_flatMap.mpr ⟨operation, h_operation, h_parameter⟩
  rw [h_queries, List.mem_singleton] at h_only
  have h_moved : moveReferences (.object (identifierKeywords "#/definitions/")) =
      .object (identifierKeywords "#/components/schemas/") := rfl
  rw [h_only, h_moved, identifierKeywords, identifierKeywords] at h_schema
  injection h_schema with h_schema
  injection h_schema with h_fields
  simp only [List.cons.injEq, Prod.mk.injEq, Json.object.injEq, Json.text.injEq] at h_fields
  exact absurd h_fields (by decide)

end OpenApiTs.Swagger
