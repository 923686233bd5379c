/-
  OpenApiTs.Proofs.Endpoint.Payload

  One schema as the body of a request and as that of a response. A response lays its schema over the
  other fields that it has: a reference alone, an array or an object with all its fields. Where it
  does, a body and a response are declared by the same text but for the names of the declarations.
-/
import OpenApiTs.Proofs.Generation.SharedAliases
import OpenApiTs.Proofs.Schema.Keywords
import OpenApiTs.Proofs.Schema.Recast

namespace OpenApiTs.Endpoint

open OpenApiTs.Generation (aliasOf?)
open OpenApiTs.Outcome (Corresponds)
open OpenApiTs.Resolver (responseNode)
open OpenApiTs.Schema
open OpenApiTs.Text (Renames charPairs)

variable {definitions : Definitions} {schema schema' : Json} {fields fields' : Entries Json}
  {name name' shared : String}

/-! ## Names -/

/-- What a body and a response call what they declare: themselves, and the items of an array. -/
def payloadNames : List (String × String) := [("Body", "Data"), ("BodyItem", "DataItem")]

theorem interchangeable_payloadNames : Interchangeable payloadNames where
  flat := by decide
  signs := by decide
  marker := by decide
  opening := by decide
  closing := by decide

theorem settled_payloadNames : ∀ pair ∈ payloadNames,
    Name.identifier pair.1 = pair.1 ∧ Name.identifier pair.2 = pair.2 ∧
      ∀ name ∈ [pair.1, pair.2], Unnumbered name := by
  decide +kernel

theorem pascal_item : Name.pascal ("Body" ++ "Item") = "BodyItem" ∧
    Name.pascal ("Data" ++ "Item") = "DataItem" := by
  decide +kernel

/-- Schemas that are declared alike are compiled to the same text but for the two names, as long as
    nothing else claims these. -/
theorem clean_payload (h_names : (name, name') ∈ payloadNames) (h_schema : schema.WellFormed)
    (h_schema' : schema'.WellFormed) (h_definitions : Json.WellFormedFields definitions.schemas)
    (h_schemas : SameOutline schema schema') (h_free : LeavesFree definitions [name, name'] schema) :
    Corresponds (CompileFailures payloadNames) (Renames payloadNames)
      (typeScript.clean schema name definitions) (typeScript.clean schema' name' definitions) := by
  obtain ⟨h_name, h_name', h_unnumbered⟩ := settled_payloadNames _ h_names
  simp only at h_name h_name' h_unnumbered
  refine clean_corresponds interchangeable_payloadNames h_schema h_schema' h_definitions ?_
  rw [h_name, h_name']
  exact ⟨Renames.refl _, Renames.of_pair h_names, h_unnumbered, h_schemas, h_free⟩

/-! ## Declarations -/

/-- What is declared for the items of an array. -/
def itemText (compiler : Compiler) (definitions : Definitions) (items : Json) (name : String) :
    Except Failure String :=
  match Reference.name? items with
  | some shared => .ok (sharedAlias name shared)
  | none => compiler.clean items name definitions

/-- The declaration of an array behind that of its items. -/
def listText (schema : Json) (name itemName item : String) : String :=
  item ++ "\n" ++ ((description? schema).map lineComment).getD "" ++ "\n" ++
    ("export type " ++ name ++ " = " ++ itemName ++ "[]")

/-- A payload that is a list is declared by its item, with an alias for the list. -/
theorem declaration?_of_array (h_array : schema.textAt? "type" = some "array")
    (compiler : Compiler) (definitions : Definitions) (name : String) :
    declaration? compiler definitions (some schema) name =
      (itemText compiler definitions (itemsOf schema) (Name.pascal (name ++ "Item"))).map
        fun item => some (listText schema name (Name.pascal (name ++ "Item")) item) := by
  cases schema with
  | null => cases h_array
  | _ =>
    simp only [declaration?]
    rw [if_pos h_array, itemText]
    cases Reference.name? (itemsOf _) with
    | some shared => rfl
    | none =>
      dsimp only
      cases Compiler.clean compiler _ _ definitions <;> rfl

theorem declaration?_of_object (h_array : (Json.object fields).textAt? "type" ≠ some "array")
    (h_name : Reference.name? (.object fields) = none) (compiler : Compiler)
    (definitions : Definitions) (name : String) :
    declaration? compiler definitions (some (.object fields)) name =
      (compiler.clean (.object fields) name definitions).map some := by
  simp only [declaration?]
  rw [if_neg h_array, h_name]

/-! ## Payloads -/

/-- Whether a response lays a schema over its own fields as it stands: an array or an object with all
    of its fields, or a reference that nothing else stands beside. -/
def LaidOpen (schema : Json) : Prop :=
  schema.field? "$ref" = none ∧
      (schema.textAt? "type" = some "array" ∨ schema.textAt? "type" = some "object") ∨
    (Reference.name? schema).isSome = true ∧ description? schema = none ∧
      schema.textAt? "type" ≠ some "array"

/-- The schema that is compiled for a payload: the items of an array, or the schema. -/
def compiledPart (schema : Json) : Json :=
  if schema.textAt? "type" = some "array" then itemsOf schema else schema

/-- The names that it is compiled under, in a body and in a response. -/
def compiledNames (schema : Json) : List String :=
  if schema.textAt? "type" = some "array" then ["BodyItem", "DataItem"] else ["Body", "Data"]

/-- The payload of a response with a schema and nothing else. -/
theorem payloadSchema?_object (fields : Entries Json) (name : String) :
    payloadSchema? (responseNode ⟨none, some (.object fields)⟩) name =
      some (.object (overlay [("id", .text name)] (.object fields))) := rfl

theorem overlay_of_typed {base : Entries Json}
    (h_reference : (Json.object fields).field? "$ref" = none)
    (h_type : (Json.object fields).textAt? "type" = some "array" ∨
      (Json.object fields).textAt? "type" = some "object") :
    overlay base (.object fields) = base.putAll fields := by
  rw [overlay, h_reference]
  exact if_pos h_type

/-- Fields laid over an identifier are the same under every keyword. -/
theorem sameKeywords_putAll (h_fields : (Json.object fields).WellFormed) (name : String) :
    SameKeywords fields (Entries.putAll [("id", .text name)] fields) := by
  intro keyword h_keyword
  have h_id : "id" ∉ keywords := by decide
  have h_other : List.lookup keyword [("id", Json.text name)] = none := by
    rw [Entries.lookup_cons, if_neg, List.lookup_nil]
    rintro rfl
    exact h_id h_keyword
  rw [Entries.lookup_putAll_of_nodup _ (Json.wellFormed_object_iff.mp h_fields).1, h_other,
    Option.or_none]

theorem wellFormed_putAll (h_fields : (Json.object fields).WellFormed) (name : String) :
    (Json.object (Entries.putAll [("id", .text name)] fields)).WellFormed := by
  rw [Json.wellFormed_object_iff] at h_fields ⊢
  refine ⟨Entries.nodup_names_putAll (by simp [Entries.names]) fields, ?_⟩
  intro entry h_entry
  rcases Entries.mem_putAll h_entry with h_own | h_field
  · rw [List.mem_singleton.mp h_own]
    trivial
  · exact h_fields.2 entry h_field

/-! ## Bodies and responses -/

/-- Whether two declarations are there and the same but for the names of payloads. -/
inductive RenamedPayload : Option String → Option String → Prop where
  | intro {text text' : String} (h_texts : Renames payloadNames text text') :
      RenamedPayload (some text) (some text')

/-- The items of an array are declared by the same text but for the names of payloads. -/
theorem itemText_corresponds {items : Json} (h_items : items.WellFormed)
    (h_definitions : Json.WellFormedFields definitions.schemas)
    (h_free : Reference.name? items = none → LeavesFree definitions ["BodyItem", "DataItem"] items) :
    Corresponds (CompileFailures payloadNames) (Renames payloadNames)
      (itemText typeScript definitions items "BodyItem")
      (itemText typeScript definitions items "DataItem") := by
  have h_names : ("BodyItem", "DataItem") ∈ payloadNames := by decide
  rw [itemText, itemText]
  -- a shared item is named in an alias, any other is compiled under the item's name
  cases h_name : Reference.name? items with
  | some shared =>
    refine .ok ?_
    rw [sharedAlias, sharedAlias]
    exact (((Renames.refl _ _).append (.of_pair h_names)).append (.refl _ _)).append (.refl _ _)
  | none =>
    exact clean_payload h_names h_items h_items h_definitions (.refl items) (h_free h_name)

/-- The text for a list is renamed in its two names and in its item. -/
theorem listText_renames {item item' : String} (h_description : description? schema =
    description? schema') (h_items : Renames payloadNames item item') :
    Renames payloadNames (listText schema "Body" "BodyItem" item)
      (listText schema' "Data" "DataItem" item') := by
  have h_name : Renames payloadNames "Body" "Data" := .of_pair (by decide)
  have h_itemName : Renames payloadNames "BodyItem" "DataItem" := .of_pair (by decide)
  have h_list : Renames payloadNames ("export type " ++ "Body" ++ " = " ++ "BodyItem" ++ "[]")
      ("export type " ++ "Data" ++ " = " ++ "DataItem" ++ "[]") :=
    ((((Renames.refl _ _).append h_name).append (.refl _ _)).append h_itemName).append (.refl _ _)
  rw [listText, listText, h_description]
  exact (((h_items.append (.refl _ _)).append (.refl _ _)).append (.refl _ _)).append h_list

/-- Two arrays or objects with the same under every keyword, one declared as a body and one as data. -/
theorem declaration?_corresponds (h_fields : (Json.object fields).WellFormed)
    (h_fields' : (Json.object fields').WellFormed)
    (h_definitions : Json.WellFormedFields definitions.schemas)
    (h_same : SameKeywords fields fields')
    (h_reference : (Json.object fields).field? "$ref" = none)
    (h_free : aliasOf? (.object fields) = none →
      LeavesFree definitions (compiledNames (.object fields)) (compiledPart (.object fields))) :
    Corresponds (CompileFailures payloadNames) RenamedPayload
      (declaration? typeScript definitions (some (.object fields)) "Body")
      (declaration? typeScript definitions (some (.object fields')) "Data") := by
  have h_type : (Json.object fields).textAt? "type" = (Json.object fields').textAt? "type" :=
    h_same.textAt?_eq (by decide)
  -- lists are declared by their items, so the two shapes of payloads are compared apart
  by_cases h_array : (Json.object fields).textAt? "type" = some "array"
  · rw [aliasOf?, compiledNames, compiledPart, if_pos h_array, if_pos h_array] at h_free
    have h_items : itemsOf (.object fields) = itemsOf (.object fields') := by
      rw [itemsOf, itemsOf, Json.field?, Json.field?, h_same "items" (by decide)]
    have h_wellFormed : (itemsOf (.object fields)).WellFormed := by
      rw [itemsOf]
      cases h_field : (Json.object fields).field? "items" with
      | some items => exact Json.wellFormed_of_field? h_fields h_field
      | none => exact ⟨List.nodup_nil, trivial⟩
    rw [declaration?_of_array h_array, declaration?_of_array (h_type ▸ h_array), ← h_items,
      pascal_item.1, pascal_item.2]
    exact (itemText_corresponds h_wellFormed h_definitions h_free).map fun item item' h_texts =>
      .intro (listText_renames h_same.sameOutline.description h_texts)
  · have h_none : Reference.name? (.object fields) = none := by
      rw [Reference.name?, Reference.target?, Json.textAt?, h_reference]
      rfl
    have h_none' : Reference.name? (.object fields') = none := by
      rwa [Reference.name?, Reference.target?, h_same.textAt?_eq (by decide)] at h_none
    rw [aliasOf?, compiledNames, compiledPart, if_neg h_array, if_neg h_array] at h_free
    rw [declaration?_of_object h_array h_none, declaration?_of_object (h_type ▸ h_array) h_none']
    exact (clean_payload (by decide) h_fields h_fields' h_definitions h_same.sameOutline
      (h_free h_none)).map fun _ _ => .intro

/-- A reference that nothing stands beside is declared by an alias of the shared type, as a body and
    as data. -/
theorem alias_corresponds {target : String}
    (h_target : (Json.object fields).field? "$ref" = some (.text target))
    (h_plain : description? (.object fields) = none)
    (h_array : (Json.object fields).textAt? "type" ≠ some "array") :
    Corresponds (CompileFailures payloadNames) RenamedPayload
      (declaration? typeScript definitions (some (.object fields)) "Body")
      (declaration? typeScript definitions
        (payloadSchema? (responseNode ⟨none, some (.object fields)⟩) "Data") "Data") := by
  have h_name : Reference.name? (.object fields) = some (Text.lastPiece '/' target) := by
    rw [Reference.name?, Reference.target?, Json.textAt?, h_target]
    rfl
  have h_payload : payloadSchema? (responseNode ⟨none, some (.object fields)⟩) "Data" =
      some (.object [("id", .text "Data"), ("$ref", .text target)]) := by
    rw [payloadSchema?_object, overlay, h_target]
    rfl
  have h_data : declaration? typeScript definitions
      (some (.object [("id", .text "Data"), ("$ref", .text target)])) "Data" =
        .ok (some ("" ++ sharedAlias "Data" (Text.lastPiece '/' target))) := by
    have h_type : (Json.object [("id", .text "Data"), ("$ref", .text target)]).textAt? "type" =
        none := rfl
    rw [Generation.declaration?_reference (h_type ▸ (Option.some_ne_none _).symm) (by rfl)]
    rfl
  rw [Generation.declaration?_reference h_array h_name, h_plain, h_payload, h_data]
  refine .ok (.intro ?_)
  rw [sharedAlias, sharedAlias]
  have h_body : Renames payloadNames "Body" "Data" := .of_pair (by decide)
  exact (Renames.refl _ _).append
    ((((Renames.refl _ _).append h_body).append (.refl _ _)).append (.refl _ _))

theorem standard_response {operation : Operation} {response : Response}
    (h_response : operation.responses.lookup "200" = some response) (compiler : Compiler)
    (definitions : Definitions) :
    Resolver.standard compiler definitions .response operation =
      declaration? compiler definitions (payloadSchema? (responseNode response) "Data") "Data" := by
  simp only [Resolver.standard, Resolver.mainResponse?, h_response, Option.some_or]

/-- An operation that takes and gives the same schema. -/
def exchanging (schema : Json) : Operation :=
  { url := "/pets"
    method := "post"
    description := none
    operationId := none
    summary := none
    tags := none
    path := []
    query := []
    cookie := []
    header := []
    body := some schema
    responses := [("200", ⟨none, some schema⟩)] }

/-- A definition of an object with a list of its own kind. -/
def petDefinitions : Definitions :=
  ⟨[("Pet", .object [("properties", .object
    [("young", .object [("type", .text "array"),
      ("items", .object [("$ref", .text "#/definitions/Pet")])])])])], []⟩

/-- A list of objects that refer to the definition. -/
def petList : Json :=
  .object [("type", .text "array"), ("items", .object [("type", .text "object"),
    ("properties", .object [("pet", .object [("$ref", .text "#/definitions/Pet")])])])]

/-- A field whose text is to pass a check, and does, comes to a text. -/
theorem exists_text_of_any {check : String → Bool} {outcome : Except Failure (Option String)}
    (h_passes : outcome.toOption.any (Option.any check) = true) :
    ∃ text, outcome = .ok (some text) ∧ check text = true := by
  obtain ⟨fragment, h_outcome, h_check⟩ := Outcome.exists_ok_of_any h_passes
  cases fragment with
  | none => cases h_check
  | some text => exact ⟨text, h_outcome, h_check⟩

/-- A schema of texts. -/
def textSchema : Json := .object [("type", .text "string")]

end OpenApiTs.Endpoint
