/-
  OpenApiTs.Swagger.Operation

  Operations and paths of Swagger 2.0 as OpenAPI 3 has them: of the parameters of an operation some
  stay parameters, and the others make its request body.
-/
import OpenApiTs.Operation.Basic
import OpenApiTs.Reference.Basic
import OpenApiTs.Swagger.Parameter

namespace OpenApiTs.Swagger

/-! ## Documents -/

/-- What the parts of a document need to know of it: its shared parameters and its media types. -/
structure Context where
  parameters : Option Json
  consumes : List String
  produces : List String

/-- Why a document cannot be brought up to OpenAPI 3. -/
inductive Fault where
  | unsupportedOpenApi (version : String)
  | unsupportedSwagger (version : String)
  | noVersion
  | pathNotObject
  | operationNotObject
deriving DecidableEq, Repr

/-- The fault in words. -/
def Fault.message : Fault → String
  | unsupportedOpenApi version => "unsupported openapi version " ++ version
  | unsupportedSwagger version => "unsupported swagger version " ++ version
  | noVersion => "document declares neither `openapi` nor `swagger`"
  | pathNotObject => "path item is not an object"
  | operationNotObject => "operation is not an object"

/-! ## Slots of parameters -/

/-- What becomes of a parameter of an operation. -/
inductive Slot where
  | parameter (value : Json)
  | body (value : Json)
  | form (field : Json)

/-- Where shared parameters stand. -/
def parameterRoot : String := "#/parameters/"

/-- The name of the shared body parameter that a reference points at. -/
def Context.sharedBody? (context : Context) (target : String) : Option String := do
  let name ← Text.after? parameterRoot target
  let parameters ← context.parameters
  let parameter ← parameters.field? name
  if parameter.textAt? "in" = some "body" then some name else none

/-- What becomes of a parameter: a body, or a reference to a shared one, is the request body; a form
    field is a part of it; anything else stays. -/
def Context.slotOf (context : Context) (consumes : List String) (parameter : Json) : Slot :=
  match Reference.target? parameter with
  | some target =>
    match context.sharedBody? target with
    | some name => .body (.object [("$ref", .text ("#/components/requestBodies/" ++ name))])
    | none => .parameter parameter
  | none =>
    match parameter.textAt? "in" with
    | some "body" => .body (bodyOfParameter parameter consumes)
    | some "formData" => .form parameter
    | _ => .parameter (convertParameter parameter)

/-- The parameter that stays. -/
def Slot.parameter? : Slot → Option Json
  | parameter value => some value
  | _ => none

/-- The request body. -/
def Slot.body? : Slot → Option Json
  | body value => some value
  | _ => none

/-- The form field. -/
def Slot.form? : Slot → Option Json
  | form field => some field
  | _ => none

/-- The request body of an operation: the last one given, else the form. -/
def requestBody? (slots : List Slot) (consumes : List String) : Option Json :=
  match (slots.filterMap Slot.body?).getLast? with
  | some body => some body
  | none =>
    match slots.filterMap Slot.form? with
    | [] => none
    | fields => some (bodyOfForm fields consumes)

/-! ## Operations -/

/-- The media types of an operation: its own list, else that of the document. -/
def ownMedia (fields : Entries Json) (key : String) (shared : List String) : List String :=
  match fields.lookup key with
  | some own => mediaTypes (some own)
  | none => shared

/-- A field of an operation that keeps its place, if it has one. -/
def keptField? (produces : List String) (entry : String × Json) : Option (String × Json) :=
  if ["consumes", "produces", "schemes", "parameters"].contains entry.1 then none
  else if entry.1 = "responses" then
    let responses := (entry.2.fields?.getD []).map fun response =>
      (response.1, convertResponse response.2 produces)
    some (entry.1, .object responses)
  else some entry

/-- An operation from its fields. -/
def Context.convertOperation (context : Context) (fields : Entries Json) : Entries Json :=
  let consumes := ownMedia fields "consumes" context.consumes
  let produces := ownMedia fields "produces" context.produces
  let listed := ((fields.lookup "parameters").bind Json.items?).getD []
  let slots := listed.map (context.slotOf consumes)
  let kept := fields.filterMap (keptField? produces)
  let withParameters :=
    match slots.filterMap Slot.parameter? with
    | [] => kept
    | parameters => Entries.put kept "parameters" (.array parameters)
  match requestBody? slots consumes with
  | some body => Entries.put withParameters "requestBody" body
  | none => withParameters

/-! ## Paths -/

/-- A shared parameter of a path; references stay. -/
def convertShared (parameter : Json) : Json :=
  if (parameter.field? "$ref").isSome then parameter else convertParameter parameter

/-- The parameters that a path shares; bodies are left out. -/
def sharedParameters (value : Json) : Json :=
  .array (((value.items?.getD []).filter fun parameter =>
    parameter.textAt? "in" ≠ some "body").map convertShared)

/-- A field of a path. -/
def Context.convertPathEntry (context : Context) (entry : String × Json) :
    Except Fault (String × Json) :=
  if (Method.ofKey? entry.1).isSome then
    match entry.2 with
    | .object fields => .ok (entry.1, .object (context.convertOperation fields))
    | _ => .error .operationNotObject
  else if entry.1 = "parameters" then .ok (entry.1, sharedParameters entry.2)
  else .ok entry

/-- A path with its address. -/
def Context.convertPath (context : Context) (entry : String × Json) :
    Except Fault (String × Json) :=
  match entry.2 with
  | .object fields => do
    let converted ← fields.mapM context.convertPathEntry
    return (entry.1, .object converted)
  | _ => .error .pathNotObject

end OpenApiTs.Swagger
