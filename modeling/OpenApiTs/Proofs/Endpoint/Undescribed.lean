/-
  OpenApiTs.Proofs.Endpoint.Undescribed

  Descriptions that are taken out of schemas before these are compiled: that of a parameter in a
  signature, and those of the inline schemas of shared request bodies. The last field of the schema
  moves into the place of its description, and that changes nothing of what is generated, since the
  order of keys counts under `properties` only.
-/
import OpenApiTs.Endpoint.Fragment
import OpenApiTs.Proofs.Definitions.InPlace
import OpenApiTs.Proofs.Schema.KeyOrder

namespace OpenApiTs.Endpoint

open OpenApiTs.Definitions (ofDocument ofDocumentInPlace)
open OpenApiTs.Json (Reordered SameFields)
open OpenApiTs.Outcome (bind_eq_ok_iff map_eq_ok_iff rel_cases)
open OpenApiTs.Schema

variable {definitions definitions' : Definitions} {document schema : Json} {key text : String}
  {parameter : Parameter}

/-! ## Parameters -/

/-- A schema without its description, the other fields in order. -/
def undescribed : Json → Json
  | .object fields => .object (Entries.without fields "description")
  | other => other

theorem field?_undescribed (h_key : key ≠ "description") (schema : Json) :
    (undescribed schema).field? key = schema.field? key := by
  cases schema with
  | object fields => exact Entries.lookup_without_of_ne h_key fields
  | _ => rfl

theorem textAt?_undescribed (h_key : key ≠ "description") (schema : Json) :
    (undescribed schema).textAt? key = schema.textAt? key := by
  rw [Json.textAt?, field?_undescribed h_key, Json.textAt?]

theorem withoutDescription_undescribed (schema : Json) :
    withoutDescription (undescribed schema) = undescribed schema := by
  cases schema with
  | object fields =>
    exact congrArg Json.object
      (Entries.remove_of_not_mem (Entries.not_mem_names_without fields "description"))
  | _ => rfl

/-- Removing the description puts the last key in its place, which is a reordering of what filtering
    gives. -/
theorem withoutDescription_reordered (h_schema : schema.WellFormed) :
    Reordered (withoutDescription schema) (undescribed schema) := by
  cases schema with
  | object fields => exact (Json.sameFields_remove h_schema "description").reordered
  | _ => exact .refl h_schema

/-- The schema of a parameter, or any value if it has none, as it stands without its description. -/
theorem getD_map_undescribed (schema : Option Json) :
    (schema.map undescribed).getD (.object []) = undescribed (schema.getD (.object [])) := by
  cases schema with
  | none => rfl
  | some value => rfl

/-- Compilers that give the same texts for the schema of a parameter with its description taken out
    write the same parameter. -/
theorem argument_undescribed_iff (compiler : Compiler)
    (h_compiled : ∀ name text,
      compiler (withoutDescription (parameter.schema.getD (.object []))) name definitions =
          .ok text ↔
        compiler (undescribed (parameter.schema.getD (.object []))) name definitions = .ok text) :
    argument compiler definitions parameter = .ok text ↔
      argument compiler definitions { parameter with schema := parameter.schema.map undescribed } =
        .ok text := by
  simp only [argument, argumentName, itemsOf, Reference.name?, Reference.target?, Json.wordsAt?,
    getD_map_undescribed, withoutDescription_undescribed]
  generalize parameter.schema.getD (.object []) = schema at h_compiled
  -- all that is read here but the compiled text stands under other keys
  rw [textAt?_undescribed (by decide), textAt?_undescribed (by decide),
    textAt?_undescribed (by decide), field?_undescribed (by decide)]
  split
  · rfl
  · split
    · rfl
    · simp only [bind_eq_ok_iff, Compiler.clean, map_eq_ok_iff, h_compiled]

/-! ## Definitions of documents -/

/-- The definitions of a document are reordered by the way in which descriptions are taken out. -/
theorem ofDocument_reordered (h_document : document.WellFormed) :
    DefinitionsReordered (ofDocument document) (ofDocumentInPlace document) := by
  obtain ⟨h_schemas, h_names⟩ :=
    Definitions.neutralized_sameFields (Definitions.gather_sameFields h_document)
  exact .of_sameFields h_schemas h_names

theorem names_ofDocumentInPlace (h_document : document.WellFormed) :
    Entries.names (ofDocument document).schemas =
      Entries.names (ofDocumentInPlace document).schemas :=
  Entries.names_related
    (Definitions.neutralized_sameFields (Definitions.gather_sameFields h_document)).1

/-! ## Keys in another order -/

/-- The order of keys counts under `properties` only. Schemas that differ in the order of other keys
    are compiled to one text, with definitions that are listed in another order and differ in the
    order of other keys too; where the one fails, so does the other. In particular nothing that is
    generated changes by the move of the last field into the place of a description that is taken
    out: no parameter in a signature, and no text that is compiled from or with the definitions of a
    document. -/
theorem key_order_immaterial :
    (∀ definitions definitions' schema schema', DefinitionsReordered definitions definitions' →
      Reordered schema schema' → ∀ name text,
        typeScript schema name definitions = .ok text ↔
          typeScript schema' name definitions' = .ok text) ∧
    (∀ definitions parameter, Json.WellFormedFields definitions.schemas →
      (parameter.schema.getD (.object [])).WellFormed → ∀ text,
        argument typeScript definitions parameter = .ok text ↔
          argument typeScript definitions
            { parameter with schema := parameter.schema.map undescribed } = .ok text) ∧
    ∀ document, document.WellFormed →
      Entries.names (ofDocument document).schemas =
          Entries.names (ofDocumentInPlace document).schemas ∧
        (∀ key, Option.Rel
          (fun schema schema' => ∀ name text,
            typeScript schema name (ofDocument document) = .ok text ↔
              typeScript schema' name (ofDocumentInPlace document) = .ok text)
          ((ofDocument document).get? key) ((ofDocumentInPlace document).get? key)) ∧
        ∀ schema, schema.WellFormed → ∀ name text,
          typeScript schema name (ofDocument document) = .ok text ↔
            typeScript schema name (ofDocumentInPlace document) = .ok text := by
  refine ⟨?_, ?_, ?_⟩
  · intro definitions definitions' schema schema' h_definitions h_schemas
    exact typeScript_reordered h_definitions h_schemas
  · intro definitions parameter h_definitions h_schema text
    apply argument_undescribed_iff
    exact typeScript_reordered (.refl h_definitions) (withoutDescription_reordered h_schema)
  · intro document h_document
    have h_definitions := ofDocument_reordered h_document
    refine ⟨names_ofDocumentInPlace h_document, ?_, ?_⟩
    · intro key
      rcases rel_cases (h_definitions.schemas key) with
        ⟨h_none, h_none'⟩ | ⟨schema, schema', h_schema, h_schema', h_schemas⟩
      · rw [h_none, h_none']
        exact .none
      · rw [h_schema, h_schema']
        exact .some (typeScript_reordered h_definitions h_schemas)
    · intro schema h_schema
      exact typeScript_reordered h_definitions (.refl h_schema)

/-- The schema of a word, described. -/
def wordFields : Entries Json := [("type", .text "string"), ("description", .text "A word.")]

/-- The definition of pets with other properties of a given kind. -/
def petFields (others : Entries Json) : Entries Json :=
  [("type", .text "object"),
    ("properties", .object [("name", .object wordFields), ("age", .object [])]),
    ("additionalProperties", .object others)]

/-- Definitions of pets and tags. -/
def shelterDefinitions : Definitions :=
  ⟨[("Pet", .object (petFields wordFields)), ("Tag", .object [("title", .text "Tag")])], []⟩

/-- The same definitions the other way round, with keys the other way round but for properties. -/
def shelterDefinitions' : Definitions :=
  ⟨[("Tag", .object [("title", .text "Tag")]),
    ("Pet", .object (petFields wordFields.reverse).reverse)], []⟩

/-- A list of pets or tags. -/
def petsFields : Entries Json :=
  [("type", .text "array"), ("items", .object [("anyOf", .array
    [.object [("$ref", .text "#/definitions/Pet")],
      .object [("$ref", .text "#/definitions/Tag")]])])]

theorem wellFormed_petFields {others : Entries Json} (h_others : Json.WellFormed (.object others)) :
    Json.WellFormed (.object (petFields others)) := by
  simpa [petFields, wordFields, Json.WellFormed, Json.WellFormedFields] using h_others

theorem pet_reordered :
    Reordered (.object (petFields wordFields))
      (.object (petFields wordFields.reverse).reverse) := by
  have h_word : Reordered (.object wordFields) (.object wordFields.reverse) := by
    refine .of_perm ?_ (List.reverse_perm _).symm
    simp [wordFields, Json.WellFormed, Json.WellFormedFields]
  have h_pets := wellFormed_petFields h_word.wellFormed
  have h_pets' := wellFormed_petFields h_word.wellFormed'
  have h_properties := (Json.wellFormed_object_iff.mp h_pets).2 _ (.tail _ (.head _))
  have h_reverse := (List.reverse_perm (petFields wordFields.reverse)).symm
  refine .of_fields h_pets (Reordered.wellFormed_of_perm h_pets' h_reverse) ?_ ?_ ?_
  · intro name
    rw [← Entries.lookup_perm (Json.wellFormed_object_iff.mp h_pets').1 h_reverse]
    apply Entries.lookup_related
    exact .cons ⟨rfl, .refl trivial⟩ (.cons ⟨rfl, .refl h_properties⟩ (.cons ⟨rfl, h_word⟩ .nil))
  · rintro own own' ⟨⟩ ⟨⟩
    rfl
  · rintro pointer number number' (rfl | ⟨place, rfl⟩) ⟨⟩

/-- Two definitions that change places, one with its keys in another order. -/
theorem shelterDefinitions_reordered :
    DefinitionsReordered shelterDefinitions shelterDefinitions' where
  wellFormed := by
    simpa [shelterDefinitions, Json.WellFormed, Json.WellFormedFields] using
      pet_reordered.wellFormed
  wellFormed' := by
    simpa [shelterDefinitions', Json.WellFormed, Json.WellFormedFields] using
      pet_reordered.wellFormed'
  schemas := by
    intro name
    have h_names : (Entries.names shelterDefinitions'.schemas).Nodup := by decide
    rw [Definitions.get?, Definitions.get?, Entries.lookup_perm h_names (.swap _ _ _)]
    apply Entries.lookup_related
    have h_tag : Json.WellFormed (.object [("title", .text "Tag")]) := by
      simp [Json.WellFormed, Json.WellFormedFields]
    exact .cons ⟨rfl, pet_reordered⟩ (.cons ⟨rfl, .refl h_tag⟩ .nil)
  selfReferential := fun _ => rfl

/-- A parameter whose schema has its description first. -/
def limitParameter : Parameter :=
  { (default : Parameter) with
    name := "limit"
    schema := some (.object [("description", .text "How many."), ("nullable", .bool true),
      ("type", .text "integer")]) }

/-- A document whose shared request body has a described schema. -/
def orderDocument : Json :=
  .object [("components", .object [("requestBodies", .object [("Order", .object [("content",
    .object [("application/json", .object [("schema", .object [("description", .text "An order."),
      ("type", .text "object"), ("properties", .object [("pet", .object wordFields)]),
      ("required", .array [.text "pet"])])])])])])])]

/-- What the list of pets or tags is compiled to. -/
def petsText : String :=
  "export type Pets = (Pet | Tag)[]\n" ++
    "export interface Pet \x7b\n/**\n * A word.\n */\nname?: string\nage?: any\n" ++
    "[k: string]: string\n\x7d\n" ++ "export type Tag = any\n"

/-- What a reference to the definition of orders is compiled to. -/
def orderText : String :=
  "export type Body = Order\n" ++
    "export interface Order \x7b\n/**\n * A word.\n */\npet: string\n[k: string]: any\n\x7d\n"

/-- The names of the fields of the definition of orders. -/
def orderNames (definitions : Definitions) : Option (List String) :=
  ((definitions.get? "Order").bind Json.fields?).map Entries.names

/-- Neither do definitions and keys the other way round show, nor the descriptions that are taken
    out. -/
theorem pets_key_order :
    DefinitionsReordered shelterDefinitions shelterDefinitions' ∧
      Reordered (.object petsFields) (.object petsFields.reverse) ∧
      typeScript (.object petsFields.reverse) "pets" shelterDefinitions' = .ok petsText ∧
      argument typeScript shelterDefinitions
          { limitParameter with schema := limitParameter.schema.map undescribed } =
        .ok "limit?: number" ∧
      orderNames (ofDocument orderDocument) = some ["required", "type", "properties"] ∧
      orderNames (ofDocumentInPlace orderDocument) = some ["type", "properties", "required"] ∧
      typeScript (.object [("$ref", .text "#/definitions/Order")]) "body"
        (ofDocumentInPlace orderDocument) = .ok orderText := by
  obtain ⟨h_orders, h_parameters, h_documents⟩ := key_order_immaterial
  have h_pets : Reordered (.object petsFields) (.object petsFields.reverse) := by
    refine .of_perm ?_ (List.reverse_perm _).symm
    simp [petsFields, Json.WellFormed, Json.WellFormedItems, Json.WellFormedFields]
  have h_limit : (limitParameter.schema.getD (.object [])).WellFormed := by
    simp [limitParameter, Json.WellFormed, Json.WellFormedFields]
  have h_document : orderDocument.WellFormed := by
    simp [orderDocument, wordFields, Json.WellFormed, Json.WellFormedItems, Json.WellFormedFields]
  have h_reference : Json.WellFormed (.object [("$ref", .text "#/definitions/Order")]) := by
    simp [Json.WellFormed, Json.WellFormedFields]
  have h_argument : (argument typeScript shelterDefinitions limitParameter).toOption =
      some "limit?: number" := by
    decide +kernel
  refine ⟨shelterDefinitions_reordered, h_pets, ?_, ?_, by decide +kernel, by decide +kernel, ?_⟩
  · refine (h_orders _ _ _ _ shelterDefinitions_reordered h_pets _ _).mp ?_
    with_unfolding_all rfl
  · exact (h_parameters _ _ shelterDefinitions_reordered.wellFormed h_limit _).mp
      (Outcome.eq_ok_of_toOption h_argument)
  · refine ((h_documents orderDocument h_document).2.2 _ h_reference _ _).mp ?_
    with_unfolding_all rfl

/-- A schema of the one value zero, with a sign. -/
def zeroSchema (negative : Bool) : Json :=
  .object [("const", .number (.double (.zero negative)))]

/-- The two zeros are equal, but they are not written alike. -/
theorem zero_signs_written :
    (zeroSchema false).WellFormed ∧ (zeroSchema true).WellFormed ∧
      (zeroSchema false).same (zeroSchema true) = true ∧
      (∀ pointer, (zeroSchema false).at? (pointer ++ [.field "properties"]) = none) ∧
      typeScript (zeroSchema false) "body" default = .ok "export type Body = 0.0\n" ∧
      typeScript (zeroSchema true) "body" default = .ok "export type Body = -0.0\n" := by
  refine ⟨?_, ?_, by decide +kernel, ?_, ?_, ?_⟩
  · simp [zeroSchema, Json.WellFormed, Json.WellFormedFields]
  · simp [zeroSchema, Json.WellFormed, Json.WellFormedFields]
  · rintro (_ | ⟨⟨name⟩ | ⟨place⟩, rest⟩)
    · rfl
    · by_cases h_name : name = "const"
      · subst h_name
        cases rest <;> rfl
      · have h_none : (zeroSchema false).child? (.field name) = none := by
          simp [zeroSchema, Json.child?, Entries.lookup_cons, h_name]
        rw [List.cons_append, Json.at?_cons, h_none, Option.bind_none]
    · rfl
  · with_unfolding_all rfl
  · with_unfolding_all rfl

end OpenApiTs.Endpoint
