/-
  OpenApiTs.Proofs.Swagger.Retargeted

  The references of an upgraded document. The conversion gathers a document part by part and moves
  all references at the end, so place by place a reference of the result is the moved reference of
  what was gathered. What is moved points where the components are put. The one part that the move
  does not reach is below a key `$ref` that is no reference, and only a media type or the name of a
  form field makes such a key.
-/
import OpenApiTs.Proofs.Json.Pointer
import OpenApiTs.Proofs.Swagger.Gathered

namespace OpenApiTs

/-! ## References of a value -/

namespace Json

/-- The reference at a pointer: the text under `$ref` there. -/
def reference? (value : Json) (pointer : Pointer) : Option String :=
  (value.at? pointer).bind Reference.target?

/-- Whether every key `$ref` of a value, at any depth, is over a text. -/
def HasTextReferences (value : Json) : Prop :=
  ∀ node ∈ value.nodes, ∀ entry ∈ node.fields?.getD [], entry.1 = "$ref" → entry.2.text?.isSome = true

instance decidableHasTextReferences (value : Json) : Decidable value.HasTextReferences :=
  inferInstanceAs (Decidable (∀ node ∈ value.nodes, _))

/-- Whether a value, at any depth, has a key `$ref` over these words. -/
def RefersTo (value : Json) (words : String) : Prop :=
  ∃ fields, .object fields ∈ value.nodes ∧ ("$ref", .text words) ∈ fields

end Json

namespace Swagger

open Json (Pointer Step)

variable {kept : String → Prop} {made : Prop} {context : Context}
  {document gathered upgraded value part target : Json} {fields : Entries Json}
  {entry result : String × Json} {key words : String} {pointer : Pointer} {step : Step}

theorem refers_of_hasTextReferences (h_texts : document.HasTextReferences)
    (h_kept : ∀ words, document.RefersTo words → kept words) : Refers kept made document := by
  intro fields h_fields target h_target
  have h_text := h_texts (.object fields) h_fields ("$ref", target) h_target rfl
  -- targets that are no texts are excluded
  cases target with
  | text words => exact .text (h_kept words ⟨fields, h_fields, h_target⟩)
  | _ => cases h_text

theorem refers_of_child? (h_refers : Refers kept made value) (h_part : value.child? step = some part) :
    Refers kept made part := by
  cases value with
  | object fields =>
    cases step with
    | field name => exact (fieldRefers_of_lookup (refers_object_iff.mp h_refers) h_part).value
    | item place => cases h_part
  | array items =>
    cases step with
    | field name => cases h_part
    | item place => exact refers_array_iff.mp h_refers part (List.mem_of_getElem? h_part)
  | _ => cases h_part

/-- What a document refers to holds for all its parts. -/
theorem refers_of_at? (h_refers : Refers kept made value) (h_part : value.at? pointer = some part) :
    Refers kept made part := by
  induction pointer generalizing value with
  | nil =>
    cases h_part
    exact h_refers
  | cons step rest ih =>
    obtain ⟨child, h_child, h_rest⟩ := Option.bind_eq_some_iff.mp h_part
    exact ih (refers_of_child? h_refers h_child) h_rest

theorem target_of_field? (h_refers : Refers kept made value)
    (h_target : value.field? "$ref" = some target) : Target kept made target := by
  cases value with
  | object fields =>
    exact (fieldRefers_of_lookup (refers_object_iff.mp h_refers) h_target).target rfl
  | _ => cases h_target

/-- The references of a value, wherever they stand, are texts that may stand there. -/
theorem kept_of_reference? (h_refers : Refers kept made value)
    (h_words : value.reference? pointer = some words) : kept words := by
  obtain ⟨part, h_part, h_words⟩ := Option.bind_eq_some_iff.mp h_words
  obtain ⟨target, h_target, h_text⟩ := Option.bind_eq_some_iff.mp h_words
  cases target_of_field? (refers_of_at? h_refers h_part) h_target with
  | text h_kept =>
    obtain rfl := Option.some.inj h_text
    exact h_kept
  | object h_made => cases h_text

/-! ## Moved targets -/

/-- How references to the components of the older form begin. -/
def oldRoots : List String := ["#/definitions/", "#/parameters/", "#/responses/"]

/-- A target is moved when it begins as one of the older form does, and stays otherwise. -/
theorem moveTarget_cases (words : String) :
    (∃ lead ∈ referenceRoots, ∃ rest, words = lead.1 ++ rest ∧ moveTarget words = lead.2 ++ rest) ∨
      (∀ lead ∈ referenceRoots, ∀ rest, words ≠ lead.1 ++ rest) ∧ moveTarget words = words := by
  cases h_found : referenceRoots.findSome? fun root =>
      (Text.after? root.1 words).map fun rest => root.2 ++ rest with
  | some moved =>
    obtain ⟨lead, h_lead, h_moved⟩ := List.exists_of_findSome?_eq_some h_found
    obtain ⟨rest, h_rest, rfl⟩ := Option.map_eq_some_iff.mp h_moved
    refine .inl ⟨lead, h_lead, rest, Text.after?_eq_some_iff.mp h_rest, ?_⟩
    rw [moveTarget, h_found]
    rfl
  | none =>
    refine .inr ⟨?_, ?_⟩
    · intro lead h_lead rest h_words
      have h_none := List.findSome?_eq_none_iff.mp h_found lead h_lead
      rw [Text.after?_eq_some_iff.mpr h_words] at h_none
      cases h_none
    · rw [moveTarget, h_found]
      rfl

/-- A target below an old place is moved to the new one. -/
theorem moveTarget_append {lead : String × String} (h_lead : lead ∈ referenceRoots) (rest : String) :
    moveTarget (lead.1 ++ rest) = lead.2 ++ rest := by
  rcases moveTarget_cases (lead.1 ++ rest) with ⟨own, h_own, tail, h_eq, h_moved⟩ | ⟨h_none, -⟩
  · rw [h_moved]
    -- the third character tells the old places from each other
    have h_third : (lead.1 ++ rest).toList[2]? = (own.1 ++ tail).toList[2]? := by rw [h_eq]
    rw [String.toList_append, String.toList_append] at h_third
    simp only [referenceRoots, List.mem_cons, List.not_mem_nil, or_false] at h_lead h_own
    rcases h_lead with rfl | rfl | rfl <;> rcases h_own with rfl | rfl | rfl <;>
      simp at h_third <;> simpa using h_eq.symm
  · exact absurd rfl (h_none lead h_lead rest)

/-- A moved target does not begin as one of the older form does. -/
theorem moveTarget_ne_old {root : String} (h_root : root ∈ oldRoots) (words rest : String) :
    moveTarget words ≠ root ++ rest := by
  rcases moveTarget_cases words with ⟨lead, h_lead, tail, -, h_moved⟩ | ⟨h_none, h_same⟩
  · rw [h_moved]
    intro h_eq
    -- the third character tells the old places from the new one
    have h_third : (lead.2 ++ tail).toList[2]? = (root ++ rest).toList[2]? := by rw [h_eq]
    rw [String.toList_append, String.toList_append] at h_third
    simp only [referenceRoots, List.mem_cons, List.not_mem_nil, or_false] at h_lead
    simp only [oldRoots, List.mem_cons, List.not_mem_nil, or_false] at h_root
    rcases h_lead with rfl | rfl | rfl <;> rcases h_root with rfl | rfl | rfl <;>
      simp at h_third
  · rw [h_same]
    have h_moved : ∀ root ∈ oldRoots, ∃ lead ∈ referenceRoots, lead.1 = root := by decide
    obtain ⟨lead, h_lead, rfl⟩ := h_moved root h_root
    exact h_none lead h_lead rest

/-! ## Moved references, place by place -/

theorem child?_moveReferences (h_step : step ≠ .field "$ref") (value : Json) :
    (moveReferences value).child? step = (value.child? step).map moveReferences := by
  cases value with
  | object fields =>
    rw [moveReferences_object]
    cases step with
    | field name =>
      have h_name : name ≠ "$ref" := fun h_eq => h_step (congrArg Step.field h_eq)
      -- only the value under `$ref` is treated as a target
      have h_moved : movedField name = moveReferences := funext (movedField_of_ne h_name)
      show (moveInFields fields).lookup name = (fields.lookup name).map moveReferences
      rw [← h_moved]
      exact lookup_moveInFields fields name
    | item place => rfl
  | array items =>
    rw [moveReferences_array]
    cases step with
    | field name => rfl
    | item place => exact List.getElem?_map
  | _ => rfl

/-- Away from keys `$ref` every part is moved by itself. -/
theorem at?_moveReferences (h_pointer : .field "$ref" ∉ pointer) (value : Json) :
    (moveReferences value).at? pointer = (value.at? pointer).map moveReferences := by
  induction pointer generalizing value with
  | nil => rfl
  | cons step rest ih =>
    rw [List.mem_cons, not_or] at h_pointer
    rw [Json.at?_cons, Json.at?_cons, child?_moveReferences (Ne.symm h_pointer.1)]
    cases value.child? step with
    | none => rfl
    | some part => exact ih h_pointer.2 part

theorem field?_moveReferences (value : Json) (key : String) :
    (moveReferences value).field? key = (value.field? key).map (movedField key) := by
  cases value with
  | object fields =>
    rw [moveReferences_object]
    exact lookup_moveInFields fields key
  | _ => rfl

/-- The target of a reference is moved, and no reference is made or lost. -/
theorem target?_moveReferences (value : Json) :
    Reference.target? (moveReferences value) = (Reference.target? value).map moveTarget := by
  rw [Reference.target?, Reference.target?, Json.textAt?, Json.textAt?, field?_moveReferences]
  cases value.field? "$ref" with
  | none => rfl
  | some held => cases held <;> rfl

/-- The reference at any address that does not lead through a target. -/
theorem reference?_moveReferences (h_pointer : .field "$ref" ∉ pointer) (value : Json) :
    (moveReferences value).reference? pointer = (value.reference? pointer).map moveTarget := by
  -- the address leads to the same part, with its references moved
  rw [Json.reference?, Json.reference?, at?_moveReferences h_pointer]
  cases value.at? pointer with
  | none => rfl
  | some part => exact target?_moveReferences part

/-- What stands under `$ref` becomes a text, or stays. -/
theorem movedField_ref_cases (value : Json) :
    (∃ words, movedField "$ref" value = .text words) ∨ movedField "$ref" value = value := by
  cases value with
  | text target => exact .inl ⟨moveTarget target, rfl⟩
  | _ => exact .inr rfl

/-- A key `$ref` that is over an object is so after the move as well. -/
theorem refers_moveReferences (h_refers : Refers (fun _ => True) made value) :
    Refers (fun _ => True) made (moveReferences value) := by
  induction value using Json.byParts with
  | object fields ih =>
    rw [moveReferences_object, moveInFields_eq_map, refers_object_iff]
    rw [refers_object_iff] at h_refers
    intro entry h_entry
    obtain ⟨own, h_own, rfl⟩ := List.mem_map.mp h_entry
    have h_field := h_refers own h_own
    by_cases h_key : own.1 = "$ref"
    · rw [h_key]
      -- only a text is changed there, and becomes another text
      rcases movedField_ref_cases own.2 with ⟨words, h_moved⟩ | h_same
      · rw [h_moved]
        exact ⟨fun _ => .text trivial, refers_text words⟩
      · rw [h_same]
        exact ⟨fun _ => h_field.target h_key, h_field.value⟩
    · rw [movedField_of_ne h_key]
      exact fieldRefers_of_ne h_key (ih own h_own h_field.value)
  | array items ih =>
    rw [moveReferences_array, refers_array_iff]
    rw [refers_array_iff] at h_refers
    intro item h_item
    obtain ⟨own, h_own, rfl⟩ := List.mem_map.mp h_item
    exact ih own h_own (h_refers own h_own)
  | text words => simp [moveReferences]
  | _ => simpa [moveReferences] using h_refers

/-- A reference below a key `$ref` stands in an object there. -/
theorem made_of_reference?_below (h_refers : Refers kept made value)
    (h_below : .field "$ref" ∈ pointer) (h_words : value.reference? pointer = some words) : made := by
  obtain ⟨front, back, rfl⟩ := List.append_of_mem h_below
  obtain ⟨inner, h_inner, h_words⟩ := Option.bind_eq_some_iff.mp h_words
  rw [Json.at?_append] at h_inner
  obtain ⟨part, h_part, h_inner⟩ := Option.bind_eq_some_iff.mp h_inner
  obtain ⟨target, h_target, h_inner⟩ := Option.bind_eq_some_iff.mp h_inner
  rw [Json.child?_field] at h_target
  cases target_of_field? (refers_of_at? h_refers h_part) h_target with
  | text h_kept =>
    -- below a text there is nothing, and a text is no reference
    obtain rfl := Json.eq_nil_of_at?_text h_inner
    obtain rfl := Option.some.inj h_inner
    cases h_words
  | object h_made => exact h_made

/-! ## Components -/

theorem lookup_nonEmpty_of_ne {name : String} (h_key : key ≠ name) (entries : Entries Json) :
    (nonEmpty name entries).lookup key = none := by
  rw [nonEmpty]
  split
  · rfl
  · rw [Entries.lookup_cons, if_neg h_key]
    rfl

/-- Gathering writes the components under their key once. -/
theorem field?_components (h_gather : gather fields = .ok gathered) :
    gathered.field? "components" = some ((Context.of fields).components fields) := by
  obtain ⟨paths, -, h_made⟩ := Outcome.bind_eq_ok_iff.mp h_gather
  obtain rfl := Except.ok.inj h_made
  have h_kept : (keptKeys.flatMap fun key => optionalField key
      (fields.lookup key)).lookup "components" = none := by
    simp [keptKeys, List.lookup_append, lookup_optionalField]
  show List.lookup "components" _ = _
  simp only [List.lookup_append, h_kept, lookup_optionalField]
  simp [List.lookup_cons]

theorem field?_schemas (context : Context) (fields : Entries Json) :
    (context.components fields).field? "schemas" = fields.lookup "definitions" := by
  show List.lookup "schemas" _ = _
  simp only [List.lookup_append, lookup_optionalField, lookup_nonEmpty_of_ne (by decide :
    "schemas" ≠ "parameters"), lookup_nonEmpty_of_ne (by decide : "schemas" ≠ "requestBodies")]
  simp

theorem field?_responses (context : Context) (fields : Entries Json) :
    (context.components fields).field? "responses" =
      ((fields.lookup "responses").bind Json.fields?).map fun responses =>
        .object (responses.map fun entry => (entry.1, convertResponse entry.2 context.produces)) := by
  show List.lookup "responses" _ = _
  simp only [List.lookup_append, lookup_optionalField, lookup_nonEmpty_of_ne (by decide :
    "responses" ≠ "parameters"), lookup_nonEmpty_of_ne (by decide : "responses" ≠ "requestBodies")]
  simp

/-- What stands in a section of the components once references are moved. -/
theorem at?_section {name : String} (h_name : name ≠ "$ref") (gathered : Json) (key : String) :
    (moveReferences gathered).at? [.field "components", .field name, .field key] =
      ((gathered.at? [.field "components", .field name]).bind fun held => held.field? key).map
        (movedField key) := by
  have h_pointer : Step.field "$ref" ∉ [Step.field "components", .field name] := by
    simp [Ne.symm h_name]
  show (moveReferences gathered).at? ([.field "components", .field name] ++ [.field key]) = _
  rw [Json.at?_append, at?_moveReferences h_pointer]
  cases gathered.at? [.field "components", .field name] with
  | none => rfl
  | some held =>
    show ((moveReferences held).at? [.field key]) = (held.field? key).map (movedField key)
    rw [Json.at?_cons, Json.child?_field, field?_moveReferences]
    cases held.field? key <;> rfl

theorem at?_components (h_gather : gather fields = .ok gathered) (name : String) :
    gathered.at? [.field "components", .field name] =
      ((Context.of fields).components fields).field? name := by
  rw [Json.at?_cons, Json.child?_field, field?_components h_gather, Option.bind_some, Json.at?_cons,
    Json.child?_field]
  cases ((Context.of fields).components fields).field? name <;> rfl

theorem at?_fields (document : Json) (key name : String) :
    document.at? [.field key, .field name] =
      ((document.fields?.getD []).lookup key).bind fun held => held.field? name := by
  rw [Json.at?_cons, Json.child?_field]
  have h_same : document.field? key = (document.fields?.getD []).lookup key := by
    cases document <;> rfl
  rw [h_same]
  congr 1
  funext held
  rw [Json.at?_cons, Json.child?_field]
  cases held.field? name <;> rfl

/-- A definition stands among the schemas, with its references moved. -/
theorem at?_schema (h_gather : gather (document.fields?.getD []) = .ok gathered) (name : String) :
    (moveReferences gathered).at? [.field "components", .field "schemas", .field name] =
      (document.at? [.field "definitions", .field name]).map (movedField name) := by
  rw [at?_section (by decide), at?_components h_gather, field?_schemas, at?_fields]

/-- A shared response stands among the responses. -/
theorem isSome_at?_response (h_gather : gather (document.fields?.getD []) = .ok gathered)
    (name : String) :
    ((moveReferences gathered).at? [.field "components", .field "responses", .field name]).isSome =
      (document.at? [.field "responses", .field name]).isSome := by
  rw [at?_section (by decide), at?_components h_gather, field?_responses, at?_fields,
    Option.isSome_map]
  cases (document.fields?.getD []).lookup "responses" with
  | none => rfl
  | some held =>
    -- responses that are no object are not in either document
    cases held with
    | object responses =>
      show (List.lookup name (responses.map _)).isSome = (List.lookup name responses).isSome
      rw [Entries.lookup_map fun _ response => convertResponse response _, Option.isSome_map]
    | _ => rfl

/-! ## Documents -/

/-- How the references of an upgraded document stand to those of the document that was gathered. -/
structure Retargets (document gathered upgraded : Json) : Prop where
  /-- What is gathered has references of the document, and references to shared bodies. -/
  origin (pointer : Pointer) (words : String) : gathered.reference? pointer = some words →
    document.RefersTo words ∨ ∃ name, words = bodyRoot ++ name
  /-- Each of them is moved in its place. -/
  moved (pointer : Pointer) : .field "$ref" ∉ pointer →
    upgraded.reference? pointer = (gathered.reference? pointer).map moveTarget
  /-- None is left that begins as one of the older form does. -/
  settled (pointer : Pointer) (words : String) : .field "$ref" ∉ pointer →
    upgraded.reference? pointer = some words → ∀ root ∈ oldRoots, ∀ rest, words ≠ root ++ rest
  /-- There are others only below the name of a media type or of a form field. -/
  below (pointer : Pointer) (words : String) : .field "$ref" ∈ pointer →
    gathered.reference? pointer = some words ∨ upgraded.reference? pointer = some words →
      NamesReference document
  /-- A reference to a definition leads to the same schema with its references moved. -/
  definition (pointer : Pointer) (name : String) (schema : Json) : .field "$ref" ∉ pointer →
    gathered.reference? pointer = some ("#/definitions/" ++ name) →
    document.at? [.field "definitions", .field name] = some schema →
      upgraded.reference? pointer = some ("#/components/schemas/" ++ name) ∧
      upgraded.at? [.field "components", .field "schemas", .field name] =
        some (movedField name schema)
  /-- A reference to a shared response leads to one. -/
  response (pointer : Pointer) (name : String) : .field "$ref" ∉ pointer →
    gathered.reference? pointer = some ("#/responses/" ++ name) →
    (document.at? [.field "responses", .field name]).isSome = true →
      upgraded.reference? pointer = some ("#/components/responses/" ++ name) ∧
      (upgraded.at? [.field "components", .field "responses", .field name]).isSome = true

/-- Every reference of an upgraded document is moved, in its place, to where the conversion puts what
    it led to; but for what the name of a media type or of a form field hides from the move. -/
theorem references_retargeted (h_swagger : IsSwagger document)
    (h_texts : document.HasTextReferences) (h_upgrade : upgrade document = .ok upgraded) :
    ∃ gathered, gather (document.fields?.getD []) = .ok gathered ∧
      Retargets document gathered upgraded := by
  obtain ⟨gathered, h_gather, rfl⟩ := exists_gathered h_swagger h_upgrade
  have h_refers {kept : String → Prop} (h_document : ∀ words, document.RefersTo words → kept words)
      (h_bodies : ∀ name, kept (bodyRoot ++ name)) :
      Refers kept (NamesReference document) gathered :=
    refers_of_gather h_bodies id (refers_of_hasTextReferences h_texts h_document) h_gather
  have h_any : Refers (fun _ => True) (NamesReference document) gathered :=
    h_refers (fun _ _ => trivial) fun _ => trivial
  -- the targets that are written anew are those of bodies, which name components already
  have h_origin : Refers (fun words => document.RefersTo words ∨ ∃ name, words = bodyRoot ++ name)
      (NamesReference document) gathered := h_refers (fun _ => .inl) fun name => .inr ⟨name, rfl⟩
  have h_moved (pointer : Pointer) (h_pointer : .field "$ref" ∉ pointer) :
      (moveReferences gathered).reference? pointer = (gathered.reference? pointer).map moveTarget :=
    reference?_moveReferences h_pointer gathered
  refine ⟨gathered, h_gather, ?_⟩
  constructor
  case origin =>
    intro pointer words h_words
    exact kept_of_reference? h_origin h_words
  case moved => exact h_moved
  case settled =>
    intro pointer words h_pointer h_words root h_root rest
    rw [h_moved pointer h_pointer] at h_words
    obtain ⟨target, -, rfl⟩ := Option.map_eq_some_iff.mp h_words
    exact moveTarget_ne_old h_root target rest
  case below =>
    rintro pointer words h_pointer (h_words | h_words)
    · exact made_of_reference?_below h_any h_pointer h_words
    · exact made_of_reference?_below (refers_moveReferences h_any) h_pointer h_words
  case definition =>
    intro pointer name schema h_pointer h_words h_schema
    rw [h_moved pointer h_pointer, h_words, at?_schema h_gather, h_schema]
    refine ⟨congrArg some ?_, rfl⟩
    exact moveTarget_append (by decide : ("#/definitions/", "#/components/schemas/") ∈ _) name
  case response =>
    intro pointer name h_pointer h_words h_response
    rw [h_moved pointer h_pointer, h_words, isSome_at?_response h_gather, h_response]
    refine ⟨congrArg some ?_, rfl⟩
    exact moveTarget_append (by decide : ("#/responses/", "#/components/responses/") ∈ _) name

/-- A document whose one operation asks for a pet, with what it needs below a root. -/
def petsDocument : Json :=
  .object [("swagger", .text "2.0"), ("paths", .object [("/pets", .object [("get", .object
      [("responses", .object [("200", .object [("schema", .object
        [("$ref", .text "#/definitions/Pet")])]), ("404", .object
        [("$ref", .text "#/responses/Missing")])])])])]),
    ("definitions", .object [("Pet", .object [("properties", .object [("parent", .object
      [("$ref", .text "#/definitions/Pet")])])])]),
    ("responses", .object [("Missing", .object [("description", .text "no such pet")])])]

/-- The document once it is upgraded. -/
def upgradedPets : Json :=
  .object [("openapi", .text "3.0.0"), ("info", .object []), ("paths", .object [("/pets", .object
      [("get", .object [("responses", .object [("200", .object [("description", .text ""),
        ("content", .object [("application/json", .object [("schema", .object
          [("$ref", .text "#/components/schemas/Pet")])])])]), ("404", .object
        [("$ref", .text "#/components/responses/Missing")])])])])]),
    ("components", .object [("schemas", .object [("Pet", .object [("properties", .object
      [("parent", .object [("$ref", .text "#/components/schemas/Pet")])])])]),
      ("responses", .object [("Missing", .object [("description", .text "no such pet")])])])]

theorem pets_retargeted :
    IsSwagger petsDocument ∧ petsDocument.HasTextReferences ∧
      upgrade petsDocument = .ok upgradedPets ∧
      ∃ gathered, gather (petsDocument.fields?.getD []) = .ok gathered ∧
        Retargets petsDocument gathered upgradedPets := by
  have h_swagger : IsSwagger petsDocument := ⟨rfl, rfl⟩
  have h_texts : petsDocument.HasTextReferences := by decide
  have h_upgrade : upgrade petsDocument = .ok upgradedPets := by rfl
  exact ⟨h_swagger, h_texts, h_upgrade, references_retargeted h_swagger h_texts h_upgrade⟩

/-- A document whose one operation is sent a form, with one field. -/
def formDocument (name : String) : Json :=
  .object [("swagger", .text "2.0"), ("paths", .object [("/pets", .object [("post", .object
      [("parameters", .array [.object [("name", .text name), ("in", .text "formData"),
        ("type", .text "array"), ("items", .object
          [("$ref", .text "#/definitions/Pet")])]])])])]),
    ("definitions", .object [("Pet", .object [])])]

/-- Where the form has its field once the document is upgraded. -/
def formField (name : String) : Pointer :=
  [.field "paths", .field "/pets", .field "post", .field "requestBody", .field "content",
    .field urlEncoded, .field "schema", .field "properties", .field name]

/-- Below the name `$ref` of a form field a reference stands as it was. -/
theorem form_reference_stands :
    IsSwagger (formDocument "$ref") ∧ (formDocument "$ref").HasTextReferences ∧
      ∃ upgraded, upgrade (formDocument "$ref") = .ok upgraded ∧
        upgraded.reference? (formField "$ref" ++ [.field "items"]) = some "#/definitions/Pet" := by
  have h_texts : (formDocument "$ref").HasTextReferences := by decide
  exact ⟨⟨rfl, rfl⟩, h_texts, _, rfl, by rfl⟩

end Swagger

end OpenApiTs
