/-
  OpenApiTs.Swagger.Upgrade

  Documents of Swagger 2.0 brought up to OpenAPI 3. Documents of OpenAPI 3 stay as they are.
-/
import OpenApiTs.Failure
import OpenApiTs.Swagger.Operation

namespace OpenApiTs.Swagger

/-! ## References -/

/-- Where components stood, and where they stand in OpenAPI 3. -/
def referenceRoots : List (String × String) :=
  [("#/definitions/", "#/components/schemas/"), ("#/parameters/", "#/components/parameters/"),
   ("#/responses/", "#/components/responses/")]

/-- The target of a reference as OpenAPI 3 has it. -/
def moveTarget (target : String) : String :=
  (referenceRoots.findSome? fun root =>
    (Text.after? root.1 target).map fun rest => root.2 ++ rest).getD target

mutual

/-- A value with every reference in it moved. -/
def moveReferences : Json → Json
  | .object fields => .object (moveInFields fields)
  | .array items => .array (moveInItems items)
  | other => other

/-- As `moveReferences`, over items. -/
def moveInItems : List Json → List Json
  | [] => []
  | item :: items => moveReferences item :: moveInItems items

/-- As `moveReferences`, over fields. What stands under `$ref` is a target, or nothing to look
    into. -/
def moveInFields : List (String × Json) → List (String × Json)
  | [] => []
  | (key, value) :: fields =>
    (key,
      if key = "$ref" then
        match value with
        | .text target => .text (moveTarget target)
        | other => other
      else moveReferences value) :: moveInFields fields

end

/-! ## Servers -/

/-- The servers of a document: one for each scheme of its host, or its base path alone. -/
def servers? (document : Entries Json) : Option Json :=
  let basePath := ((document.lookup "basePath").bind Json.text?).getD ""
  match (document.lookup "host").bind Json.text? with
  | some host =>
    let listed := (((document.lookup "schemes").bind Json.items?).getD []).filterMap Json.text?
    let schemes := if listed.isEmpty then ["https"] else listed
    some (.array (schemes.map fun scheme =>
      .object [("url", .text (scheme ++ "://" ++ host ++ basePath))]))
  | none =>
    if basePath = "" then none else some (.array [.object [("url", .text basePath)]])

/-! ## Components -/

/-- Whether a shared parameter is a body. -/
def isBody (entry : String × Json) : Bool := entry.2.textAt? "in" = some "body"

/-- A component that is there when it has entries. -/
def nonEmpty (name : String) (entries : Entries Json) : Entries Json :=
  if entries.isEmpty then [] else [(name, .object entries)]

/-- A security scheme; basic authentication is a scheme of HTTP. -/
def convertSecurity (scheme : Json) : Json :=
  if scheme.textAt? "type" = some "basic" then
    .object [("type", .text "http"), ("scheme", .text "basic")]
  else scheme

/-- The components of a document. -/
def Context.components (context : Context) (document : Entries Json) : Json :=
  let parameters := ((document.lookup "parameters").bind Json.fields?).getD []
  let shared := (parameters.filter fun entry => !isBody entry).map fun entry =>
    (entry.1, convertParameter entry.2)
  let bodies := (parameters.filter isBody).map fun entry =>
    (entry.1, bodyOfParameter entry.2 context.consumes)
  let responses := ((document.lookup "responses").bind Json.fields?).map fun responses =>
    Json.object (responses.map fun entry => (entry.1, convertResponse entry.2 context.produces))
  let security := ((document.lookup "securityDefinitions").bind Json.fields?).map fun schemes =>
    Json.object (schemes.map fun entry => (entry.1, convertSecurity entry.2))
  .object (optionalField "schemas" (document.lookup "definitions") ++
    nonEmpty "parameters" shared ++ nonEmpty "requestBodies" bodies ++
    optionalField "responses" responses ++ optionalField "securitySchemes" security)

/-! ## Documents -/

/-- What the parts of a document need to know of it. -/
def Context.of (document : Entries Json) : Context :=
  { parameters := document.lookup "parameters"
    consumes := mediaTypes (document.lookup "consumes")
    produces := mediaTypes (document.lookup "produces") }

/-- The fields of a Swagger document that stay as they are. -/
def keptKeys : List String := ["tags", "security", "externalDocs"]

/-- A Swagger document as an OpenAPI 3 document. -/
def convert (document : Entries Json) : Except Fault Json := do
  let context := Context.of document
  let paths ← (((document.lookup "paths").bind Json.fields?).getD []).mapM context.convertPath
  return moveReferences (.object
    ([("openapi", .text "3.0.0"), ("info", (document.lookup "info").getD (.object []))] ++
      optionalField "servers" (servers? document) ++
      keptKeys.flatMap (fun key => optionalField key (document.lookup key)) ++
      [("paths", .object paths), ("components", context.components document)]))

/-- A document of any version as an OpenAPI 3 document. -/
def upgrade? (document : Json) : Except Fault Json :=
  match document.textAt? "openapi" with
  | some version =>
    if Text.opensWith "3." version then .ok document else .error (.unsupportedOpenApi version)
  | none =>
    match document.textAt? "swagger" with
    | some "2.0" => convert (document.fields?.getD [])
    | some version => .error (.unsupportedSwagger version)
    | none => .error .noVersion

/-- The fault as a failure. -/
def Fault.failure (fault : Fault) : Failure := .conversion ("upgrade failed: " ++ fault.message)

/-- A document of any version as an OpenAPI 3 document. -/
def upgrade (document : Json) : Except Failure Json := (upgrade? document).mapError Fault.failure

end OpenApiTs.Swagger
