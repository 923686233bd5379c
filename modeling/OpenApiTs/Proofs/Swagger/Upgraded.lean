/-
  OpenApiTs.Proofs.Swagger.Upgraded

  What an upgraded document lists. The upgrade goes over a document part by part and moves the
  references once at the end; for the operations this comes to one conversion of each listed
  operation, in place.
-/
import OpenApiTs.Proofs.Entries
import OpenApiTs.Proofs.Operation.Listed
import OpenApiTs.Proofs.Outcome
import OpenApiTs.Swagger.Upgrade

namespace OpenApiTs.Swagger

variable {context : Context} {document upgraded : Json} {fields converted paths : Entries Json}
  {entry result : String × Json} {url key : String}

/-! ## Moved references -/

/-- What stands under a key when references are moved. Under `$ref` a text is a target, and nothing
    else is looked into. -/
def movedField (key : String) (value : Json) : Json :=
  if key = "$ref" then
    match value with
    | .text target => .text (moveTarget target)
    | other => other
  else moveReferences value

/-- Fields are moved one by one, each by its key. -/
theorem moveInFields_eq_map (fields : List (String × Json)) :
    moveInFields fields = fields.map fun entry => (entry.1, movedField entry.1 entry.2) := by
  induction fields with
  | nil => rfl
  | cons entry fields ih =>
    obtain ⟨key, value⟩ := entry
    cases value <;> simp [moveInFields, movedField, ih]

theorem moveInItems_eq_map (items : List Json) : moveInItems items = items.map moveReferences := by
  induction items with
  | nil => rfl
  | cons item items ih => rw [moveInItems, ih, List.map_cons]

theorem moveReferences_object (fields : List (String × Json)) :
    moveReferences (.object fields) = .object (moveInFields fields) := by
  rw [moveReferences]

theorem moveReferences_array (items : List Json) :
    moveReferences (.array items) = .array (items.map moveReferences) := by
  rw [moveReferences, moveInItems_eq_map]

@[simp] theorem text?_moveReferences (value : Json) : (moveReferences value).text? = value.text? := by
  cases value <;> simp [moveReferences, Json.text?]

/-- What is found under a key is what was there, moved. -/
theorem lookup_moveInFields (fields : Entries Json) (key : String) :
    List.lookup key (moveInFields fields) = (fields.lookup key).map (movedField key) := by
  rw [moveInFields_eq_map]
  exact Entries.lookup_map movedField fields key

/-- Only targets of references are moved as such. -/
theorem movedField_of_ne (h_key : key ≠ "$ref") (value : Json) :
    movedField key value = moveReferences value := if_neg h_key

/-- A value under a key of a path or of an operation in it. The path itself is a key of the
    document: under `$ref` nothing is looked into. -/
def movedAt (url key : String) (value : Json) : Json :=
  if url = "$ref" then value else movedField key value

/-- The fields of a path, or of an operation in it, with their references moved. -/
def movedUnder (url : String) (fields : Entries Json) : Entries Json :=
  fields.map fun entry => (entry.1, movedAt url entry.1 entry.2)

theorem lookup_movedUnder (url : String) (fields : Entries Json) (key : String) :
    List.lookup key (movedUnder url fields) = (fields.lookup key).map (movedAt url key) :=
  Entries.lookup_map (movedAt url) fields key

/-- Fields under an address that is no reference are all moved. -/
theorem movedUnder_of_ne (h_url : url ≠ "$ref") (fields : Entries Json) :
    movedUnder url fields = moveInFields fields := by
  rw [moveInFields_eq_map, movedUnder]
  congr 1
  funext entry
  rw [movedAt, if_neg h_url]

/-- Nothing is moved under a key like a reference, as what stands there is taken for a target. -/
theorem movedUnder_ref (fields : Entries Json) : movedUnder "$ref" fields = fields :=
  List.map_id' fields

/-- An object in a field is moved as what stands under the key. -/
theorem movedField_object (url : String) (fields : Entries Json) :
    movedField url (.object fields) = .object (movedUnder url fields) := by
  by_cases h_url : url = "$ref"
  · subst h_url
    rw [movedUnder_ref]
    rfl
  · rw [movedField_of_ne h_url, moveReferences_object, movedUnder_of_ne h_url]

/-- As `movedField_object`, one level further down. -/
theorem movedAt_object (h_key : key ≠ "$ref") (url : String) (fields : Entries Json) :
    movedAt url key (.object fields) = .object (movedUnder url fields) := by
  rw [movedAt]
  split
  · next h_url => rw [h_url, movedUnder_ref]
  · next h_url => rw [movedField_of_ne h_key, ← movedField_of_ne h_url, movedField_object]

/-! ## Parts of a path -/

/-- A path is converted when it is an object whose entries all are. -/
theorem convertPath_eq_ok_iff : context.convertPath entry = .ok result ↔
    ∃ fields converted, entry.2 = .object fields ∧
      fields.mapM context.convertPathEntry = .ok converted ∧
      result = (entry.1, .object converted) := by
  rw [Context.convertPath]
  cases h_value : entry.2 with
  | object fields =>
    simp only [Outcome.bind_eq_ok_iff, Json.object.injEq]
    constructor
    · rintro ⟨converted, h_all, h_made⟩
      exact ⟨fields, converted, rfl, h_all, (Except.ok.inj h_made).symm⟩
    · rintro ⟨own, converted, rfl, h_all, rfl⟩
      exact ⟨converted, h_all, rfl⟩
  | _ => simp

/-- What a field of a path becomes: an operation is converted, shared parameters are, and anything
    else stays. -/
inductive Converts (context : Context) : String × Json → String × Json → Prop where
  | operation (method : Method) (fields : Entries Json) :
      Converts context (method.key, .object fields)
        (method.key, .object (context.convertOperation fields))
  | shared (value : Json) : Converts context ("parameters", value)
      ("parameters", sharedParameters value)
  | other {key : String} (value : Json) (h_method : Method.ofKey? key = none)
      (h_shared : key ≠ "parameters") : Converts context (key, value) (key, value)

/-- What an entry of a path is converted to: operations, shared parameters and the rest. -/
theorem converts_of_convertPathEntry (h_entry : context.convertPathEntry entry = .ok result) :
    Converts context entry result := by
  obtain ⟨key, value⟩ := entry
  rw [Context.convertPathEntry] at h_entry
  -- a key of a method has an operation, every other key but one is left alone
  cases h_method : Method.ofKey? key with
  | some method =>
    obtain rfl := Method.ofKey?_eq_some_iff.mp h_method
    rw [h_method] at h_entry
    cases value with
    | object fields =>
      obtain rfl := Except.ok.inj h_entry
      exact .operation method fields
    | _ => cases h_entry
  | none =>
    simp only [h_method, Option.isSome_none, Bool.false_eq_true, if_false] at h_entry
    split at h_entry
    · next h_shared =>
      subst h_shared
      obtain rfl := Except.ok.inj h_entry
      exact .shared value
    · next h_shared =>
      obtain rfl := Except.ok.inj h_entry
      exact .other value h_method h_shared

theorem converts_of_mapM (h_all : fields.mapM context.convertPathEntry = .ok converted) :
    List.Forall₂ (Converts context) fields converted :=
  (Outcome.mapM_eq_ok_iff.mp h_all).imp fun _ _ => converts_of_convertPathEntry

/-! ## Listed operations -/

/-- A listed operation as the upgraded document lists it. -/
def Context.convertListed (context : Context) (listed : Listed) : Listed :=
  { url := listed.url
    method := listed.method
    shared := listed.shared.map fun value =>
      movedAt listed.url "parameters" (sharedParameters value)
    fields := movedUnder listed.url (context.convertOperation listed.fields) }

/-- The parameters that a path shares are converted, and no other field becomes them. -/
theorem lookup_parameters (h_fields : List.Forall₂ (Converts context) fields converted) :
    converted.lookup "parameters" = (fields.lookup "parameters").map sharedParameters := by
  induction h_fields with
  | nil => rfl
  | @cons entry result fields converted h_entry _ ih =>
    rw [Entries.lookup_cons, Entries.lookup_cons, ih]
    cases h_entry with
    | operation method own =>
      have h_key : "parameters" ≠ method.key := by cases method <;> decide
      rw [if_neg h_key, if_neg h_key]
    | shared value => rfl
    | other value h_method h_shared => rw [if_neg h_shared.symm, if_neg h_shared.symm]

/-- An entry is listed as an operation before and after, and converting the operation it is listed
    as gives the same. -/
theorem ofField?_of_converts (url : String) (h_entry : Converts context entry result)
    (shared : Option Json) :
    Listed.ofField? url
        (shared.map fun value => movedAt url "parameters" (sharedParameters value))
        (result.1, movedAt url result.1 result.2) =
      (Listed.ofField? url shared entry).map context.convertListed := by
  cases h_entry with
  | operation method own =>
    have h_key : method.key ≠ "$ref" := by cases method <;> decide
    rw [movedAt_object h_key, Listed.ofField?, Listed.ofField?, Method.ofKey?_key]
    rfl
  | shared value => rfl
  | other value h_method h_shared =>
    rw [Listed.ofField?, Listed.ofField?, h_method]
    rfl

/-- A path lists the conversions of what it listed. -/
theorem ofFields_movedUnder (h_fields : List.Forall₂ (Converts context) fields converted) :
    Listed.ofFields url (movedUnder url converted) =
      (Listed.ofFields url fields).map context.convertListed := by
  have h_shared := lookup_parameters h_fields
  rw [Listed.ofFields, Listed.ofFields, lookup_movedUnder, h_shared, Option.map_map, movedUnder,
    List.filterMap_map, List.map_filterMap]
  generalize fields.lookup "parameters" = shared
  clear h_shared
  -- the entries of the path and what they are converted to, in one order; the shared parameters are
  -- the same for all
  induction h_fields with
  | nil => rfl
  | @cons entry result fields converted h_entry _ ih =>
    have h_head := ofField?_of_converts url h_entry shared
    rw [List.filterMap_cons, List.filterMap_cons, ih]
    simp only [Function.comp_def] at h_head ⊢
    rw [h_head]

/-! ## Documents -/

/-- Whether a document is of the older form. -/
structure IsSwagger (document : Json) : Prop where
  openApi : document.textAt? "openapi" = none
  version : document.textAt? "swagger" = some "2.0"

/-- What the parts of a document need to know of it. -/
def Context.ofDocument (document : Json) : Context := .of (document.fields?.getD [])

/-- Upgrading succeeds as its steps do. -/
theorem upgrade_eq_ok_iff : upgrade document = .ok upgraded ↔ upgrade? document = .ok upgraded := by
  rw [upgrade]
  cases upgrade? document with
  | error fault => simp [Except.mapError]
  | ok own => simp [Except.mapError]

/-- An optional field is found under its name only. -/
theorem lookup_optionalField {name : String} (value : Option Json) :
    (optionalField name value).lookup key = if key = name then value else none := by
  cases value with
  | none => simp [optionalField]
  | some value =>
    rw [optionalField, Entries.lookup_cons]
    rfl

/-- The upgraded document has the converted paths, with references moved. -/
theorem exists_paths (h_swagger : IsSwagger document)
    (h_upgrade : upgrade document = .ok upgraded) :
    ∃ paths, ((document.fieldsAt? "paths").getD []).mapM
        (Context.ofDocument document).convertPath = .ok paths ∧
      upgraded.fieldsAt? "paths" = some (moveInFields paths) := by
  rw [upgrade_eq_ok_iff, upgrade?, h_swagger.openApi, h_swagger.version] at h_upgrade
  obtain ⟨paths, h_paths, h_made⟩ := Outcome.bind_eq_ok_iff.mp h_upgrade
  obtain rfl := Except.ok.inj h_made
  refine ⟨paths, ?_, ?_⟩
  · cases document <;> exact h_paths
  · -- the paths are none of the fields that are kept as they are, so what is found is what was
    -- converted
    have h_kept : (keptKeys.flatMap fun key => optionalField key
        ((document.fields?.getD []).lookup key)).lookup "paths" = none := by
      simp [keptKeys, List.lookup_append, lookup_optionalField]
    rw [Json.fieldsAt?, moveReferences_object]
    change (List.lookup "paths" (moveInFields _)).bind Json.fields? = _
    rw [lookup_moveInFields]
    simp only [List.lookup_append, h_kept, lookup_optionalField]
    simp [List.lookup_cons, movedField, moveReferences, Json.fields?]

/-- An upgraded document lists the conversions of what the document listed. -/
theorem ofDocument_upgraded (h_swagger : IsSwagger document)
    (h_upgrade : upgrade document = .ok upgraded) :
    Listed.ofDocument upgraded =
      (Listed.ofDocument document).map (Context.ofDocument document).convertListed := by
  obtain ⟨paths, h_paths, h_upgraded⟩ := exists_paths h_swagger h_upgrade
  rw [Listed.ofDocument, Listed.ofDocument, h_upgraded, Option.getD_some, moveInFields_eq_map,
    List.flatMap_map, List.map_flatMap]
  have h_each := Outcome.mapM_eq_ok_iff.mp h_paths
  generalize (document.fieldsAt? "paths").getD [] = listed at h_each ⊢
  clear h_paths h_upgraded
  -- path by path, since each lists its operations for itself
  induction h_each with
  | nil => rfl
  | @cons path result listed paths h_path _ ih =>
    obtain ⟨fields, converted, h_value, h_all, rfl⟩ := convertPath_eq_ok_iff.mp h_path
    rw [List.flatMap_cons, List.flatMap_cons, ih, h_value, movedField_object]
    congr 1
    exact ofFields_movedUnder (converts_of_mapM h_all)

end OpenApiTs.Swagger
