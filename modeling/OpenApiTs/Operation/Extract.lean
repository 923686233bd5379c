/-
  OpenApiTs.Operation.Extract

  The operations of an OpenAPI 3 document, in document order.
-/
import OpenApiTs.Operation.Basic
import OpenApiTs.Reference.Basic

namespace OpenApiTs

/-! ## Parameters -/

/-- The location that a value under `in` names: its word, or an object with the word as its one key
    and null under it. -/
def Location.ofJson? : Json → Option Location
  | .text word => Location.ofWord? word
  | .object [(word, .null)] => Location.ofWord? word
  | _ => none

namespace Parameter

/-- An optional text: null stands for none, and anything but a text is refused. -/
def optionalText? : Option Json → Option (Option String)
  | none => some none
  | some .null => some none
  | some (.text words) => some (some words)
  | some _ => none

/-- An optional flag, false when absent; anything but a Boolean is refused. -/
def optionalFlag? : Option Json → Option Bool
  | none => some false
  | some (.bool flag) => some flag
  | some _ => none

/-- An optional schema: null stands for none. -/
def optionalSchema : Option Json → Option Json
  | some .null => none
  | schema => schema

/-- A parameter from the values of its five fields. -/
def ofFields? (name location required description schema : Option Json) : Option Parameter := do
  let name ← name.bind Json.text?
  let location ← location.bind Location.ofJson?
  let required ← optionalFlag? required
  let description ← optionalText? description
  return ⟨name, location, required, description, optionalSchema schema⟩

/-- A parameter from a value: an object with its fields, or an array with the values of the fields
    in order, those at the end left out. -/
def ofJson? : Json → Option Parameter
  | .object fields =>
    ofFields? (fields.lookup "name") (fields.lookup "in") (fields.lookup "required")
      (fields.lookup "description") (fields.lookup "schema")
  | .array items =>
    if 5 < items.length then none
    else ofFields? items[0]? items[1]? items[2]? items[3]? items[4]?
  | _ => none

/-- The parameters under a key, in order. References and malformed entries are left out. -/
def listOf (parameters : Option Json) : List Parameter :=
  ((parameters.bind Json.items?).getD []).filterMap fun parameter =>
    if Reference.isReference parameter then none else ofJson? parameter

/-- Whether two parameters have the same name and location. -/
def clashes (a b : Parameter) : Bool := a.name == b.name && a.location == b.location

/-- The parameters of a path with those of an operation after them. One of the operation replaces
    one of the path with its name and location. -/
def merge (shared own : List Parameter) : List Parameter :=
  shared.filter (fun parameter => !own.any fun other => clashes other parameter) ++ own

end Parameter

/-! ## Bodies and responses -/

/-- The schema of the first media type under `content`. -/
def contentSchema? (holder : Json) : Option Json :=
  match holder.fieldsAt? "content" with
  | some ((_, media) :: _) => media.field? "schema"
  | _ => none

/-- The schema of a request body; a reference stands for itself. -/
def bodySchema? (body : Json) : Option Json :=
  if Reference.isReference body then some body else contentSchema? body

/-- A response from a value; a reference stands for its own schema. -/
def Response.ofJson (response : Json) : Response :=
  if Reference.isReference response then ⟨none, some response⟩
  else ⟨response.textAt? "description", contentSchema? response⟩

/-- The responses of an operation by status. -/
def responsesOf (responses : Option Json) : Entries Response :=
  ((responses.bind Json.fields?).getD []).map fun entry => (entry.1, Response.ofJson entry.2)

/-! ## Operations -/

namespace Operation

/-- The operation of one method of a path, given the parameters that the path shares. -/
def ofFields (url : String) (method : Method) (shared : Option Json) (fields : Entries Json) :
    Operation :=
  let textAt := fun name => (fields.lookup name).bind Json.text?
  let parameters :=
    Parameter.merge (Parameter.listOf shared) (Parameter.listOf (fields.lookup "parameters"))
  let placed := fun location => parameters.filter fun parameter => parameter.location == location
  { url := url
    method := method.key
    description := textAt "description"
    operationId := textAt "operationId"
    summary := textAt "summary"
    tags := ((fields.lookup "tags").bind Json.items?).map fun tags => tags.filterMap Json.text?
    path := placed .path
    query := placed .query
    cookie := placed .cookie
    header := placed .header
    body := (fields.lookup "requestBody").bind bodySchema?
    responses := responsesOf (fields.lookup "responses") }

/-- The operation under one key of a path: none when the key is no method or its value no object. -/
def ofMethodKey? (url : String) (shared : Option Json) (entry : String × Json) :
    Option Operation := do
  let method ← Method.ofKey? entry.1
  let fields ← entry.2.fields?
  return ofFields url method shared fields

/-- The operations of a path, in order. -/
def listOfPath (url : String) (path : Json) : List Operation :=
  (path.fields?.getD []).filterMap (ofMethodKey? url (path.field? "parameters"))

/-- The operations of a document, in order. -/
def listOfDocument (document : Json) : List Operation :=
  ((document.fieldsAt? "paths").getD []).flatMap fun entry => listOfPath entry.1 entry.2

end Operation

end OpenApiTs
