/-
  OpenApiTs.Swagger.Parameter

  Parameters, headers and bodies of Swagger 2.0 as OpenAPI 3 has them: keywords of a schema move
  under `schema`, and what a request sends or gets stands under its media types.
-/
import OpenApiTs.Json.Basic

namespace OpenApiTs.Swagger

/-! ## Media types -/

/-- The media type when none is listed. -/
def defaultMedia : String := "application/json"

/-- The media type of a form with a file. -/
def multipart : String := "multipart/form-data"

/-- The media type of any other form. -/
def urlEncoded : String := "application/x-www-form-urlencoded"

/-- The texts of a list of media types; the default one when there are none. -/
def mediaTypes (listed : Option Json) : List String :=
  match ((listed.bind Json.items?).getD []).filterMap Json.text? with
  | [] => [defaultMedia]
  | types => types

/-- A schema under each of the media types. -/
def contentOf (media : List String) (schema : Json) : Json :=
  .object (Entries.ofPairs (media.map fun type => (type, .object [("schema", schema)])))

/-! ## Parameters -/

/-- The keywords of a parameter that belong to its schema. -/
def schemaKeywords : List String :=
  ["type", "format", "items", "enum", "default", "minimum", "maximum", "exclusiveMinimum",
   "exclusiveMaximum", "minLength", "maxLength", "pattern", "minItems", "maxItems", "uniqueItems"]

/-- The keywords of a parameter that have no place in OpenAPI 3. -/
def droppedKeywords : List String := ["collectionFormat", "allowEmptyValue"]

/-- A keyword of a schema; the type `file` becomes `string`. -/
def schemaEntry (entry : String × Json) : String × Json :=
  match entry with
  | ("type", .text "file") => ("type", .text "string")
  | entry => entry

/-- The schema that the keywords of a parameter make. -/
def schemaFields (fields : Entries Json) : Entries Json :=
  (fields.filter fun entry => schemaKeywords.contains entry.1).map schemaEntry

/-- The fields of a parameter that stay where they are. -/
def plainFields (fields : Entries Json) : Entries Json :=
  fields.filter fun entry =>
    !schemaKeywords.contains entry.1 && !droppedKeywords.contains entry.1

/-- A parameter with the keywords of its schema under `schema`. One that has a schema of its own
    stays as it is. -/
def convertParameter (parameter : Json) : Json :=
  match parameter with
  | .object fields =>
    if Entries.has fields "schema" then parameter
    else
      match schemaFields fields with
      | [] => .object (plainFields fields)
      | schema => .object (plainFields fields ++ [("schema", .object schema)])
  | _ => parameter

/-! ## Bodies -/

/-- An optional field. -/
def optionalField (name : String) (value : Option Json) : Entries Json :=
  match value with
  | some value => [(name, value)]
  | none => []

/-- The request body that a body parameter describes. -/
def bodyOfParameter (parameter : Json) (consumes : List String) : Json :=
  let schema := (parameter.field? "schema").getD (.object [])
  .object (optionalField "description" (parameter.field? "description") ++
    [("content", contentOf consumes schema)] ++
    optionalField "required" (parameter.field? "required"))

/-- Whether a form field is a file. -/
def isFile (field : Json) : Bool := field.textAt? "type" = some "file"

/-- The property of a form's schema that a field makes. -/
def formProperty (field : Json) : Json :=
  let schema := ((convertParameter field).fieldsAt? "schema").getD []
  let typed := if isFile field then Entries.put schema "format" (.text "binary") else schema
  match field.field? "description" with
  | some description => .object (Entries.put typed "description" description)
  | none => .object typed

/-- The request body that form fields describe; fields without a name are left out. -/
def bodyOfForm (fields : List Json) (consumes : List String) : Json :=
  let named := fields.filterMap fun field => (field.textAt? "name").map fun name => (name, field)
  let properties := Entries.ofPairs (named.map fun entry => (entry.1, formProperty entry.2))
  let required := (named.filter fun entry =>
    (entry.2.field? "required").bind Json.bool? = some true).map fun entry => Json.text entry.1
  let media :=
    if named.any (fun entry => isFile entry.2) || consumes.contains multipart then multipart
    else urlEncoded
  let schema : Json := .object ([("type", .text "object"), ("properties", .object properties)] ++
    (if required.isEmpty then [] else [("required", .array required)]))
  .object [("content", contentOf [media] schema)]

/-! ## Responses -/

/-- A header of a response. -/
def convertHeader (header : Json) : Json :=
  match convertParameter header with
  | .object fields => .object (Entries.remove (Entries.remove fields "name") "in")
  | other => other

/-- A response with its schema under its media types. A reference stays as it is. -/
def convertResponse (response : Json) (produces : List String) : Json :=
  match response with
  | .object fields =>
    if Entries.has fields "$ref" then response
    else
      let headers := ((fields.lookup "headers").bind Json.fields?).map fun headers =>
        Json.object (headers.map fun entry => (entry.1, convertHeader entry.2))
      .object ([("description", (fields.lookup "description").getD (.text ""))] ++
        optionalField "content" ((fields.lookup "schema").map (contentOf produces)) ++
        optionalField "headers" headers)
  | _ => response

end OpenApiTs.Swagger
