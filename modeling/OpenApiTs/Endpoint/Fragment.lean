/-
  OpenApiTs.Endpoint.Fragment

  Fragments of TypeScript for the schemas of an operation: declarations of their own for bodies,
  responses and parameter lists, and parameters of a function for the path.
-/
import OpenApiTs.Operation.Basic
import OpenApiTs.Reference.Basic
import OpenApiTs.Schema.Scrub
import OpenApiTs.Text.Blank
import OpenApiTs.Text.Word

namespace OpenApiTs.Endpoint

open OpenApiTs.Schema

/-! ## Payloads -/

/-- The fields under `schema` laid over a description of a payload: a reference gives its target, an
    array or object all its fields, anything else becomes the properties. -/
def overlay (base : Entries Json) (schema : Json) : Entries Json :=
  match schema.field? "$ref" with
  | some (.text target) => base.put "$ref" (.text target)
  | some _ => base
  | none =>
    match schema with
    | .object fields =>
      if schema.textAt? "type" = some "array" ∨ schema.textAt? "type" = some "object" then
        base.putAll fields
      else base.put "properties" schema
    | _ => base.put "properties" schema

/-- The plain schema of a node that may hold its schema under `schema`, as responses do. A node of
    type array is one already; null has none. -/
def payloadSchema? (node : Json) (name : String) : Option Json :=
  match node with
  | .null => none
  | .object fields =>
    if node.textAt? "type" = some "array" then some node
    else
      let base := Entries.putAll [("id", .text name)]
        (fields.filter fun entry => entry.1 ≠ "schema")
      match fields.lookup "schema" with
      | none | some .null => some (.object base)
      | some schema => some (.object (overlay base schema))
  | other => some other

/-! ## Declarations of their own -/

/-- The comment line above a declaration. -/
def lineComment (words : String) : String := "/** " ++ words ++ " */"

/-- The alias of a shared type. -/
def sharedAlias (name shared : String) : String := "export type " ++ name ++ " = Types." ++ shared

/-- The schema of the items of an array; any value when it has none. -/
def itemsOf (schema : Json) : Json := (schema.field? "items").getD (.object [])

/-- The declaration of a schema under a name. The items of an array are declared on their own before
    it, a reference becomes an alias of the shared type, and anything else is compiled. -/
def declaration? (compiler : Compiler) (definitions : Definitions) (schema : Option Json)
    (name : String) : Except Failure (Option String) :=
  match schema with
  | none | some .null => .ok none
  | some schema =>
    if schema.textAt? "type" = some "array" then do
      let itemName := Name.pascal (name ++ "Item")
      let item ←
        match Reference.name? (itemsOf schema) with
        | some shared => .ok (sharedAlias itemName shared)
        | none => compiler.clean (itemsOf schema) itemName definitions
      let comment := ((description? schema).map lineComment).getD ""
      let list := "export type " ++ name ++ " = " ++ itemName ++ "[]"
      return some (item ++ "\n" ++ comment ++ "\n" ++ list)
    else
      match Reference.name? schema with
      | some shared =>
        let comment := ((description? schema).map fun words => lineComment words ++ "\n").getD ""
        .ok (some (comment ++ sharedAlias name shared))
      | none => (compiler.clean schema name definitions).map some

/-! ## Parameters of a function -/

/-- The primitive type for a word under `type`. -/
def primitive : Option String → String
  | some "integer" | some "number" => "number"
  | some "string" => "string"
  | some "boolean" => "boolean"
  | some "null" => "null"
  | some "object" => "object"
  | _ => "any"

/-- What follows the head of a declaration (`export type Name = ` or `export interface Name = `)
    that a text opens with. -/
def afterHead? (text : List Char) : Option (List Char) := do
  let rest ← (Text.Chars.after? "export type ".toList text).or
    (Text.Chars.after? "export interface ".toList text)
  if (rest.takeWhile Text.isWord).isEmpty then none
  else Text.Chars.after? " = ".toList (rest.dropWhile Text.isWord)

/-- The first head of a declaration in a text replaced by `put`. -/
def replaceHead (put : List Char) : List Char → List Char
  | [] => []
  | c :: text =>
    match afterHead? (c :: text) with
    | some rest => put ++ rest
    | none => c :: replaceHead put text

/-- The text without the semicolon at its end. -/
def dropSemicolon (text : List Char) : List Char :=
  (Text.Chars.before? [';'] text).getD text

/-- A schema without its description. -/
def withoutDescription : Json → Json
  | .object fields => .object (Entries.remove fields "description")
  | other => other

/-- The name that a parameter has in a signature: the title of its schema, else its own. -/
def argumentName (parameter : Parameter) : String :=
  ((parameter.schema.getD (.object [])).wordsAt? "title").getD parameter.name

/-- A parameter in a signature: its name, a question mark if it may be left out, and its type. -/
def argument (compiler : Compiler) (definitions : Definitions) (parameter : Parameter) :
    Except Failure String :=
  let schema := parameter.schema.getD (.object [])
  let name := argumentName parameter
  let head := name ++ (if parameter.required then "" else "?") ++ ": "
  if schema.textAt? "type" = some "array" then
    let items := itemsOf schema
    .ok (head ++ (Reference.name? items).getD (primitive (items.textAt? "type")) ++ "[]")
  else
    match Reference.name? schema with
    | some shared => .ok (head ++ shared)
    | none => do
      let compiled ← compiler.clean (withoutDescription schema) name definitions
      let replaced := replaceHead head.toList compiled.toList
      return String.ofList (dropSemicolon (Text.Chars.trim replaced))

/-! ## Lists of parameters -/

/-- The schema of the property that a parameter becomes; its description is the parameter's. -/
def propertyOf (parameter : Parameter) : Json :=
  let fields :=
    match parameter.schema with
    | some (.object fields) => fields
    | _ => []
  match parameter.description with
  | some words => .object (Entries.put fields "description" (.text words))
  | none => .object (Entries.remove fields "description")

/-- The schema of an object with one property for each name among the parameters. -/
def listSchema (parameters : List Parameter) (name : String) : Json :=
  let properties := parameters.map fun parameter => (parameter.name, propertyOf parameter)
  let required := (parameters.filter Parameter.required).map fun parameter =>
    Json.text parameter.name
  .object
    [("title", .text name), ("type", .text "object"),
     ("properties", .object (Entries.ofPairs properties)), ("required", .array required),
     ("additionalProperties", .bool false)]

/-- The declaration of an object for a list of parameters; none for an empty list. -/
def listDeclaration? (compiler : Compiler) (definitions : Definitions)
    (parameters : List Parameter) (name : String) : Except Failure (Option String) :=
  if parameters.isEmpty then .ok none
  else (compiler.clean (listSchema parameters name) name definitions).map some

end OpenApiTs.Endpoint
