/-
  OpenApiTs.Proofs.Schema.Keywords

  What the declaration of a schema looks at: the fields under keywords, and no others. Schemas that
  have the same under these are declared alike.
-/
import OpenApiTs.Proofs.Schema.Neutral
import OpenApiTs.Proofs.Schema.Rerooted

namespace OpenApiTs.Schema

open OpenApiTs.TypeScript

variable {fields fields' : Entries Json}

/-- The keywords that a declaration depends on. -/
def keywords : List String :=
  ["$ref", "allOf", "anyOf", "oneOf", "enum", "const", "type", "items", "properties", "required",
    "additionalProperties", "description"]

/-- Whether two lists of fields have the same under every keyword. -/
def SameKeywords (fields fields' : Entries Json) : Prop :=
  ∀ keyword ∈ keywords, fields.lookup keyword = fields'.lookup keyword

namespace SameKeywords

variable (h_same : SameKeywords fields fields')
include h_same

/-- A keyword is there in both or in neither. -/
theorem has_eq {keyword : String} (h_keyword : keyword ∈ keywords) :
    Entries.has fields keyword = Entries.has fields' keyword :=
  congrArg Option.isSome (h_same keyword h_keyword)

theorem combination?_eq : combination? fields = combination? fields' := by
  rw [combination?, combination?, h_same "allOf" (by decide), h_same "anyOf" (by decide),
    h_same "oneOf" (by decide)]

theorem looksLikeObject_eq : looksLikeObject fields = looksLikeObject fields' := by
  rw [looksLikeObject, looksLikeObject, h_same.has_eq (by decide), h_same.has_eq (by decide)]

/-- An array is told by its items only. -/
theorem arrayShape_eq : arrayShape fields = arrayShape fields' := by
  rw [Schema.arrayShape_eq, Schema.arrayShape_eq, h_same "items" (by decide)]

/-- A record is told by its properties, by which of them are required, and by what other keys may
    have. -/
theorem recordShape_eq : recordShape fields = recordShape fields' := by
  -- each of the three lookups is one keyword
  have h_required : requiredNames fields = requiredNames fields' := by
    rw [requiredNames, requiredNames, h_same "required" (by decide)]
  have h_listed : listedShape fields = listedShape fields' := by
    rw [listedShape_eq, listedShape_eq, h_same "properties" (by decide), h_required]
  have h_index : indexShape fields = indexShape fields' := by
    rw [indexShape_eq, indexShape_eq, h_same "additionalProperties" (by decide)]
  rw [recordShape, recordShape, h_listed, h_index]

/-- The shape of the fields looks at nothing but keywords, so it is the same. -/
theorem fieldsShape_eq : fieldsShape fields = fieldsShape fields' := by
  -- the plain shape does not look at the fields again for arrays and records: these are handed in
  have h_plain (asArray asRecord : Shaped (TypeExpr Mention)) :
      plainShape fields asArray asRecord = plainShape fields' asArray asRecord := by
    rw [plainShape, plainShape, h_same "enum" (by decide), h_same "const" (by decide),
      h_same "type" (by decide), h_same.looksLikeObject_eq, h_same.has_eq (by decide)]
  rw [Schema.fieldsShape_eq, Schema.fieldsShape_eq, h_same "$ref" (by decide),
    h_same.combination?_eq, h_plain, h_same.arrayShape_eq, h_same.recordShape_eq]

/-- As `has_eq`, for some keyword of a list. -/
theorem any_has_eq {listed : List String} (h_listed : listed ⊆ keywords) :
    listed.any (Entries.has fields) = listed.any (Entries.has fields') := by
  induction listed with
  | nil => rfl
  | cons keyword listed ih =>
    rw [List.cons_subset] at h_listed
    rw [List.any_cons, List.any_cons, h_same.has_eq h_listed.1, ih h_listed.2]

/-- Whether a declaration is an interface depends on keywords only. -/
theorem isInterface_eq : isInterface (.object fields) = isInterface (.object fields') := by
  rw [isInterface, isInterface, h_same.any_has_eq (by decide), h_same "type" (by decide),
    h_same.looksLikeObject_eq]

theorem textAt?_eq {keyword : String} (h_keyword : keyword ∈ keywords) :
    (Json.object fields).textAt? keyword = (Json.object fields').textAt? keyword := by
  rw [Json.textAt?, Json.textAt?, Json.field?, Json.field?, h_same keyword h_keyword]

/-- Schemas with the same under every keyword are declared alike. -/
theorem sameOutline : SameOutline (.object fields) (.object fields') where
  outline := by
    simp only [outline, bodyShape_object]
    rw [h_same.isInterface_eq, h_same.recordShape_eq, h_same.fieldsShape_eq]
  form := by rw [formOf, formOf, h_same.isInterface_eq]
  description := by
    rw [description?, description?, Json.wordsAt?, Json.wordsAt?, h_same.textAt?_eq (by decide)]

end SameKeywords

end OpenApiTs.Schema
