/-
  OpenApiTs.Proofs.Swagger.Accepted

  Which documents are brought up to OpenAPI 3. The version decides first. Of a document of the older
  form nearly everything may be malformed: only a path that is no object, or an operation of one
  that is none, ends the conversion. What comes out is of the newer form and stays as it is.
-/
import OpenApiTs.Proofs.Swagger.Upgraded

namespace OpenApiTs.Swagger

variable {context : Context} {document upgraded : Json} {fields : Entries Json}
  {entry : String × Json} {failure : Failure}

/-! ## Paths -/

/-- Whether a key of a path, where it is a method, stands over an object. -/
def IsMethodSound (entry : String × Json) : Prop :=
  ∀ method : Method, entry.1 = method.key → entry.2.isObject = true

/-- Whether a path is an object, with an object under each method. -/
def IsPathSound (path : Json) : Prop :=
  ∃ fields, path = .object fields ∧ ∀ entry ∈ fields, IsMethodSound entry

/-- Whether each path of a document is an object with an object under each method. A document without
    an object under `paths` has no paths. -/
def HasSoundPaths (document : Json) : Prop :=
  ∀ path ∈ (document.fieldsAt? "paths").getD [], IsPathSound path.2

/-- An entry of a path is converted unless it is an operation that is no object. -/
theorem exists_convertPathEntry_iff :
    (∃ result, context.convertPathEntry entry = .ok result) ↔ IsMethodSound entry := by
  obtain ⟨key, value⟩ := entry
  rw [Context.convertPathEntry]
  cases h_method : Method.ofKey? key with
  | none =>
    -- no other key is looked into
    have h_sound : IsMethodSound (key, value) := by
      intro method h_key
      rw [Method.ofKey?_eq_some_iff.mpr h_key] at h_method
      cases h_method
    simp only [Option.isSome_none, Bool.false_eq_true, if_false]
    split
    · exact iff_of_true ⟨_, rfl⟩ h_sound
    · exact iff_of_true ⟨_, rfl⟩ h_sound
  | some method =>
    have h_key : key = method.key := Method.ofKey?_eq_some_iff.mp h_method
    -- the key is that of one method only
    have h_sound : IsMethodSound (key, value) ↔ value.isObject = true :=
      ⟨fun h_each => h_each method h_key, fun h_object _ _ => h_object⟩
    rw [h_sound]
    cases value <;> simp [Json.isObject]

/-- A path is converted when it is an object without such entries. -/
theorem exists_convertPath_iff :
    (∃ result, context.convertPath entry = .ok result) ↔ IsPathSound entry.2 := by
  constructor
  · rintro ⟨result, h_result⟩
    obtain ⟨fields, converted, h_value, h_all, -⟩ := convertPath_eq_ok_iff.mp h_result
    refine ⟨fields, h_value, ?_⟩
    intro own h_own
    obtain ⟨made, -, h_made⟩ := Outcome.exists_mem_of_mapM h_all h_own
    exact exists_convertPathEntry_iff.mp ⟨made, h_made⟩
  · rintro ⟨fields, h_value, h_sound⟩
    obtain ⟨converted, h_all⟩ := Outcome.exists_mapM_of_forall fun own h_own =>
      exists_convertPathEntry_iff.mpr (h_sound own h_own)
    exact ⟨_, convertPath_eq_ok_iff.mpr ⟨fields, converted, h_value, h_all, rfl⟩⟩

/-! ## Documents of the older form -/

/-- The conversion of a document succeeds when that of its paths does. -/
theorem exists_convert_iff :
    (∃ upgraded, convert fields = .ok upgraded) ↔
      ∀ path ∈ ((fields.lookup "paths").bind Json.fields?).getD [], IsPathSound path.2 := by
  constructor
  · rintro ⟨upgraded, h_upgraded⟩ path h_path
    obtain ⟨paths, h_paths, -⟩ := Outcome.bind_eq_ok_iff.mp h_upgraded
    obtain ⟨result, -, h_result⟩ := Outcome.exists_mem_of_mapM h_paths h_path
    exact exists_convertPath_iff.mp ⟨result, h_result⟩
  · intro h_sound
    obtain ⟨paths, h_paths⟩ := Outcome.exists_mapM_of_forall fun path h_path =>
      exists_convertPath_iff.mpr (h_sound path h_path)
    exact ⟨_, Outcome.bind_eq_ok_iff.mpr ⟨paths, h_paths, rfl⟩⟩

/-- A converted document calls itself one of the newer form. -/
theorem textAt?_convert (h_upgraded : convert fields = .ok upgraded) :
    upgraded.textAt? "openapi" = some "3.0.0" := by
  obtain ⟨paths, -, h_made⟩ := Outcome.bind_eq_ok_iff.mp h_upgraded
  obtain rfl := Except.ok.inj h_made
  rw [Json.textAt?, moveReferences_object]
  change (List.lookup "openapi" (moveInFields _)).bind Json.text? = _
  rw [lookup_moveInFields]
  rfl

/-! ## Outcomes -/

/-- Whether a document is of the newer form. -/
def IsCurrent (document : Json) : Prop :=
  ∃ version, document.textAt? "openapi" = some version ∧ Text.opensWith "3." version = true

/-- A current document stays as it is. -/
theorem upgrade_of_isCurrent (h_current : IsCurrent document) : upgrade document = .ok document := by
  obtain ⟨version, h_version, h_newer⟩ := h_current
  rw [upgrade_eq_ok_iff, upgrade?, h_version]
  simp only [h_newer, if_true]

/-- An older document is converted. -/
theorem upgrade?_of_isSwagger (h_swagger : IsSwagger document) :
    upgrade? document = convert (document.fields?.getD []) := by
  rw [upgrade?, h_swagger.openApi, h_swagger.version]
  rfl

/-- An older document is upgraded when its paths are sound. -/
theorem exists_upgrade_iff (h_swagger : IsSwagger document) :
    (∃ upgraded, upgrade document = .ok upgraded) ↔ HasSoundPaths document := by
  have h_paths : ((document.fields?.getD []).lookup "paths").bind Json.fields? =
      document.fieldsAt? "paths" := by
    cases document <;> rfl
  simp only [upgrade_eq_ok_iff, upgrade?_of_isSwagger h_swagger, exists_convert_iff, h_paths]
  rfl

/-- Only a document of the newer form, or one of the older form, is upgraded at all. -/
theorem isCurrent_or_isSwagger (h_upgraded : upgrade document = .ok upgraded) :
    IsCurrent document ∨ IsSwagger document := by
  rw [upgrade_eq_ok_iff, upgrade?] at h_upgraded
  split at h_upgraded
  · next version h_version =>
    split at h_upgraded
    · next h_newer => exact .inl ⟨version, h_version, h_newer⟩
    · cases h_upgraded
  · next h_openApi =>
    split at h_upgraded
    · next h_version => exact .inr ⟨h_openApi, h_version⟩
    · cases h_upgraded
    · cases h_upgraded

/-- Every failure is one of the conversion. -/
theorem exists_fault_of_upgrade (h_failure : upgrade document = .error failure) :
    ∃ fault : Fault, failure = .conversion ("upgrade failed: " ++ fault.message) := by
  rw [upgrade] at h_failure
  cases h_own : upgrade? document with
  | ok own => rw [h_own] at h_failure; cases h_failure
  | error fault =>
    rw [h_own] at h_failure
    cases h_failure
    exact ⟨fault, rfl⟩

/-- What comes out of an upgrade is current, so another upgrade changes nothing. -/
theorem isCurrent_upgraded (h_upgraded : upgrade document = .ok upgraded) :
    IsCurrent upgraded := by
  -- nothing was done, or the version was set
  rcases isCurrent_or_isSwagger h_upgraded with h_current | h_swagger
  · rw [upgrade_of_isCurrent h_current] at h_upgraded
    cases h_upgraded
    exact h_current
  · rw [upgrade_eq_ok_iff, upgrade?_of_isSwagger h_swagger] at h_upgraded
    exact ⟨"3.0.0", textAt?_convert h_upgraded, by decide⟩

/-- A document of the newer form stays as it is. One of the older form is upgraded exactly when each
    of its paths is an object with an object under each method. Nothing else is upgraded. Every
    failure is one of the conversion, and what is upgraded stays as it is. -/
theorem upgrade_outcome (document : Json) :
    (IsCurrent document → upgrade document = .ok document) ∧
    (IsSwagger document →
      ((∃ upgraded, upgrade document = .ok upgraded) ↔ HasSoundPaths document)) ∧
    (¬ IsCurrent document → ¬ IsSwagger document → ∃ failure, upgrade document = .error failure) ∧
    (∀ failure, upgrade document = .error failure →
      ∃ fault : Fault, failure = .conversion ("upgrade failed: " ++ fault.message)) ∧
    (∀ upgraded, upgrade document = .ok upgraded → upgrade upgraded = .ok upgraded) := by
  refine ⟨upgrade_of_isCurrent, exists_upgrade_iff, ?_, fun _ => exists_fault_of_upgrade, ?_⟩
  · intro h_current h_swagger
    cases h_outcome : upgrade document with
    | error failure => exact ⟨failure, rfl⟩
    | ok upgraded =>
      -- the version would have to be one of the two
      rcases isCurrent_or_isSwagger h_outcome with h_either | h_either
      · exact absurd h_either h_current
      · exact absurd h_either h_swagger
  · exact fun upgraded h_upgraded => upgrade_of_isCurrent (isCurrent_upgraded h_upgraded)

/-- A document with one operation and a note beside it. -/
def notedDocument : Json :=
  .object [("swagger", .text "2.0"), ("paths", .object [("/pets", .object
    [("x-note", .null), ("get", .object [])])])]

/-- What stands beside the methods of a path may be anything. -/
theorem upgrade_outcome_of_noted :
    IsSwagger notedDocument ∧ HasSoundPaths notedDocument ∧
      ∃ upgraded, upgrade notedDocument = .ok upgraded ∧ upgrade upgraded = .ok upgraded := by
  have h_swagger : IsSwagger notedDocument := ⟨rfl, rfl⟩
  have h_sound : HasSoundPaths notedDocument := by
    -- the document has one path, with an operation and a note that no method goes by
    intro path h_path
    obtain rfl := List.mem_singleton.mp h_path
    refine ⟨_, rfl, ?_⟩
    rw [List.forall_mem_cons, List.forall_mem_singleton]
    refine ⟨?_, fun _ _ => rfl⟩
    intro method h_key
    cases method <;> exact absurd h_key (by decide)
  obtain ⟨-, h_iff, -, -, h_fixed⟩ := upgrade_outcome notedDocument
  obtain ⟨upgraded, h_upgraded⟩ := (h_iff h_swagger).mpr h_sound
  exact ⟨h_swagger, h_sound, upgraded, h_upgraded, h_fixed upgraded h_upgraded⟩

end OpenApiTs.Swagger
