/-
  OpenApiTs.Proofs.Reference.Required

  Required properties of a schema, and of its normal form. A property is required when its key stands
  in the list under `required`. The key goes the way of keys and the listed text the way of texts:
  over an object a key that is dotted as a whole is folded, and a text never is. So a property with
  a dotted name is required before and optional afterwards.
-/
import OpenApiTs.Proofs.Merged
import OpenApiTs.Proofs.Reference.Linked
import OpenApiTs.Schema.Shape

namespace OpenApiTs.Reference

variable {document schema value : Json} {name : String}

/-! ## Properties of a schema -/

/-- The properties of a schema. -/
def propertiesOf (schema : Json) : Entries Json := (schema.fieldsAt? "properties").getD []

/-- The keys that a schema lists as required. -/
def requiredOf (schema : Json) : List String := Schema.requiredNames (schema.fields?.getD [])

theorem isPlainKey_properties : IsPlainKey "properties" :=
  ⟨by decide, by decide, by decide, 'p', rfl, .inl (by decide)⟩

theorem isPlainKey_required : IsPlainKey "required" :=
  ⟨by decide, by decide, by decide, 'r', rfl, .inl (by decide)⟩

/-- The properties of a schema stand under a plain key, so they are normalized as fields. -/
theorem propertiesOf_normalize (h_schema : schema.WellFormed) :
    propertiesOf (normalize schema) = Entries.ofPairs (normalFields (propertiesOf schema)) := by
  rw [propertiesOf, propertiesOf, Json.fieldsAt?, Json.fieldsAt?,
    field?_normalize h_schema isPlainKey_properties]
  cases schema.field? "properties" with
  | none => rfl
  | some held =>
    cases held with
    | object fields =>
      rw [Option.map_some, normalize_object]
      rfl
    | _ => rfl

/-- The texts of a list are normalized one by one. -/
theorem filterMap_text?_normalize (items : List Json) :
    (items.map normalize).filterMap Json.text? = (items.filterMap Json.text?).map normalPath := by
  induction items with
  | nil => rfl
  | cons item items ih =>
    rw [List.map_cons, List.filterMap_cons, List.filterMap_cons, ih]
    cases item with
    | object fields => rw [normalize_object]; rfl
    | array others => rw [normalize_array]; rfl
    | _ => rfl

theorem requiredOf_eq (schema : Json) :
    requiredOf schema =
      (((schema.field? "required").bind Json.items?).getD []).filterMap Json.text? := by
  cases schema <;> rfl

/-- The list of required keys is a list of texts, and each of them is put in normal form as a text. -/
theorem requiredOf_normalize (h_schema : schema.WellFormed) :
    requiredOf (normalize schema) = (requiredOf schema).map normalPath := by
  rw [requiredOf_eq, requiredOf_eq, field?_normalize h_schema isPlainKey_required]
  cases schema.field? "required" with
  | none => rfl
  | some held =>
    cases held with
    | array items =>
      rw [Option.map_some, normalize_array]
      exact filterMap_text?_normalize items
    | object fields => rw [Option.map_some, normalize_object]; rfl
    | _ => rfl

/-! ## Keys against listed texts -/

/-- Whether the key of a property is folded: over an object, when it is dotted as a whole. -/
def isFolded (name : String) (value : Json) : Bool := value.isObject && isDotted (normalPath name)

theorem normalKey_of_isFolded (h_folded : isFolded name value = true) :
    normalKey name (normalize value) = Name.ofDotted (normalPath name) := by
  rw [isFolded, ← isObject_normalize] at h_folded
  rw [normalKey]
  simp only [h_folded, if_true]

theorem normalKey_of_not_isFolded (h_kept : isFolded name value = false) :
    normalKey name (normalize value) = normalPath name := by
  rw [isFolded, ← isObject_normalize] at h_kept
  rw [normalKey]
  simp only [h_kept, Bool.false_eq_true, if_false]

/-- A required property of a schema is found under its key in normal form. That key is listed as
    required exactly when it is not folded, or another required key has the folded one as its normal
    form. -/
theorem required_kept_iff (h_document : document.WellFormed) (h_schema : schema ∈ document.nodes)
    (h_property : (name, value) ∈ propertiesOf schema) (h_required : name ∈ requiredOf schema) :
    normalKey name (normalize value) ∈ Entries.names (propertiesOf (normalize schema)) ∧
    (normalKey name (normalize value) ∈ requiredOf (normalize schema) ↔
      isFolded name value = false ∨
        ∃ own ∈ requiredOf schema, normalPath own = Name.ofDotted (normalPath name)) := by
  have h_inside : schema.WellFormed := Json.wellFormed_of_mem_nodes h_document h_schema
  constructor
  · rw [propertiesOf_normalize h_inside, Entries.mem_names_ofPairs_iff]
    exact Entries.mem_names_of_mem (List.mem_map.mpr ⟨(name, value), h_property, rfl⟩)
  · rw [requiredOf_normalize h_inside, List.mem_map]
    cases h_folded : isFolded name value with
    | false =>
      -- key and listed text are put in normal form alike
      rw [normalKey_of_not_isFolded h_folded]
      exact iff_of_true ⟨name, h_required, rfl⟩ (.inl rfl)
    | true =>
      rw [normalKey_of_isFolded h_folded]
      simp

/-- A schema with one property, which it requires. -/
def requiringSchema (name : String) (value : Json) : Json :=
  .object [("properties", .object [(name, value)]), ("required", .array [.text name])]

theorem wellFormed_requiringSchema (h_value : value.WellFormed) :
    (requiringSchema name value).WellFormed := by
  simp [requiringSchema, Json.WellFormed, Json.WellFormedFields, Json.WellFormedItems, h_value]

theorem requiringSchema_mem_nodes (name : String) (value : Json) :
    requiringSchema name value ∈ (requiringSchema name value).nodes :=
  Json.mem_nodes_object_iff.mpr (.inl rfl)

/-- A dotted key over the schema `true` is kept, and so is what requires it. -/
theorem required_flag_kept :
    (requiringSchema "owner.name" (.bool true)).WellFormed ∧
    requiringSchema "owner.name" (.bool true) ∈
      (requiringSchema "owner.name" (.bool true)).nodes ∧
    ("owner.name", .bool true) ∈ propertiesOf (requiringSchema "owner.name" (.bool true)) ∧
    "owner.name" ∈ requiredOf (requiringSchema "owner.name" (.bool true)) ∧
    normalKey "owner.name" (normalize (.bool true)) ∈
      requiredOf (normalize (requiringSchema "owner.name" (.bool true))) := by
  have h_document := @wellFormed_requiringSchema (.bool true) "owner.name" trivial
  have h_schema := requiringSchema_mem_nodes "owner.name" (.bool true)
  have h_property : ("owner.name", .bool true) ∈
      propertiesOf (requiringSchema "owner.name" (.bool true)) := List.mem_singleton_self _
  have h_required : "owner.name" ∈ requiredOf (requiringSchema "owner.name" (.bool true)) :=
    List.mem_singleton_self _
  obtain ⟨-, h_listed⟩ := required_kept_iff h_document h_schema h_property h_required
  exact ⟨h_document, h_schema, h_property, h_required, h_listed.mpr (.inl rfl)⟩

/-- A schema of texts. -/
def textSchema : Json := .object [("type", .text "string")]

/-- A required property whose dotted key is folded is no longer listed as required. -/
theorem required_text_not_kept :
    (requiringSchema "a.b" textSchema).WellFormed ∧
    requiringSchema "a.b" textSchema ∈ (requiringSchema "a.b" textSchema).nodes ∧
    ("a.b", textSchema) ∈ propertiesOf (requiringSchema "a.b" textSchema) ∧
    "a.b" ∈ requiredOf (requiringSchema "a.b" textSchema) ∧
    normalKey "a.b" (normalize textSchema) ∉
      requiredOf (normalize (requiringSchema "a.b" textSchema)) := by
  have h_document : (requiringSchema "a.b" textSchema).WellFormed :=
    wellFormed_requiringSchema (by simp [textSchema, Json.WellFormed, Json.WellFormedFields])
  exact ⟨h_document, requiringSchema_mem_nodes _ _, List.mem_singleton_self _,
    List.mem_singleton_self _, by decide +kernel⟩

end OpenApiTs.Reference
