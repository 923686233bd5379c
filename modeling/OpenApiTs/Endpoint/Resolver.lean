/-
  OpenApiTs.Endpoint.Resolver

  Rules that resolve the fields of an operation. There is a default rule for each field; overrides
  put other rules over any of them, the last layer that has a rule for a field deciding.
-/
import OpenApiTs.Endpoint.Basic
import OpenApiTs.Endpoint.Fragment
import OpenApiTs.Text.Case

namespace OpenApiTs

/-- How one field of an operation becomes text, if it does. -/
abbrev Rule := Operation → Except Failure (Option String)

/-- A rule for every field. -/
abbrev Resolver := Field → Rule

/-- Rules for some of the fields. -/
abbrev Overrides := Field → Option Rule

/-! ## Layers -/

namespace Overrides

/-- No rules. -/
def none : Overrides := fun _ => .none

/-- Two layers as one, `upper` deciding where both have a rule. -/
def extend (lower upper : Overrides) : Overrides := fun field => (upper field).or (lower field)

/-- The fields that have a rule, in order. -/
def overridden (overrides : Overrides) : List Field :=
  Field.all.filter fun field => (overrides field).isSome

/-- The overridden fields in words. -/
def describe (overrides : Overrides) : String :=
  "ResolverOverrides \x7b overridden: [" ++
    ", ".intercalate (overrides.overridden.map fun field => "\"" ++ field.name ++ "\"") ++ "] \x7d"

end Overrides

namespace Resolver

/-- The rules with overrides over them. -/
def merge (resolver : Resolver) (overrides : Overrides) : Resolver := fun field =>
  (overrides field).getD (resolver field)

/-! ## Default rules -/

/-- What is written for an operation without a tag or an identifier. -/
def anonymous : String := "anonymous"

/-- The text with `* ` at the front of its second line. Later lines are kept as they are. -/
def continueFirstLine (words : String) : String := Text.replaceFirst "\n" "\n* " words

/-- The comment above what is generated for an operation. -/
def functionComment? (description summary : Option String) : Option String :=
  let described := (description.filter fun words => words ≠ "").map continueFirstLine
  let summed := (summary.filter fun words => words ≠ "").map continueFirstLine
  let short := fun words => "\n      /**\n       * " ++ words ++ "\n       */\n"
  match summed, described with
  | .none, .none => .none
  | some summary, .none => some (short summary)
  | .none, some description => some (short description)
  | some summary, some description =>
    some ("\n        /**\n         * " ++ summary ++ "\n         *\n         * @description " ++
      description ++ "\n         */\n")

/-- The response that types are generated for: that of status 200, else the default one. -/
def mainResponse? (operation : Operation) : Option Response :=
  (operation.responses.lookup "200").or (operation.responses.lookup "default")

/-- A response as a node that holds its schema under `schema`. -/
def responseNode (response : Response) : Json :=
  .object
    ((response.description.map fun words => ("description", Json.text words)).toList ++
      (response.schema.map fun schema => ("schema", schema)).toList)

/-- The default rules. -/
def standard (compiler : Schema.Compiler) (definitions : Definitions) : Resolver
  | .fileName, operation =>
    let tag := (operation.tags.bind List.head?).filter fun tag => tag ≠ ""
    .ok (some (tag.getD anonymous))
  | .url, operation => .ok (some (Text.replaceAll "\x7b" "$\x7b" operation.url))
  | .method, operation => .ok (some operation.method)
  | .fnName, operation =>
    let id := operation.operationId.filter fun id => id ≠ ""
    .ok (some (id.getD anonymous))
  | .fnComment, operation => .ok (functionComment? operation.description operation.summary)
  | .params, operation =>
    if operation.path.isEmpty then .ok .none
    else do
      let arguments ← operation.path.mapM (Endpoint.argument compiler definitions)
      return some (", ".intercalate arguments)
  | .query, operation => Endpoint.listDeclaration? compiler definitions operation.query "Query"
  | .cookie, operation => Endpoint.listDeclaration? compiler definitions operation.cookie "Cookie"
  | .header, operation => Endpoint.listDeclaration? compiler definitions operation.header "Header"
  | .body, operation => Endpoint.declaration? compiler definitions operation.body "Body"
  | .response, operation =>
    match mainResponse? operation with
    | .none => .ok .none
    | some response =>
      Endpoint.declaration? compiler definitions
        (Endpoint.payloadSchema? (responseNode response) "Data") "Data"

/-! ## Resolving -/

/-- The endpoint of an operation: every rule is applied, in the order of the fields, and the first
    failure ends it. -/
def resolve (resolver : Resolver) (operation : Operation) : Except Failure Endpoint := do
  let fileName ← resolver .fileName operation
  let url ← resolver .url operation
  let method ← resolver .method operation
  let fnName ← resolver .fnName operation
  let fnComment ← resolver .fnComment operation
  let params ← resolver .params operation
  let query ← resolver .query operation
  let cookie ← resolver .cookie operation
  let header ← resolver .header operation
  let body ← resolver .body operation
  let response ← resolver .response operation
  return ⟨fileName, url, method, fnName, fnComment, params, query, cookie, header, body, response⟩

/-- As `resolve`, a failure naming the operation. -/
def resolveNamed (resolver : Resolver) (operation : Operation) : Except Failure Endpoint :=
  (resolver.resolve operation).mapError (.resolve operation.method operation.url)

/-- The endpoints of operations, in order, up to the first failure. -/
def resolveAll (resolver : Resolver) (operations : List Operation) :
    Except Failure (List Endpoint) :=
  operations.mapM resolver.resolveNamed

end Resolver

/-! ## Controller convention -/

namespace Overrides

/-- Names for services that tag operations with `NameController` and give them identifiers of the
    form `service.controller.method`. Header and cookie types are left out unless asked for. -/
def controller (header cookie : Bool) : Overrides
  | .fileName => some fun operation =>
    .ok (some (match operation.tags.bind List.head? with
      | some tag => Text.lower (Text.replaceFirst "Controller" "" tag)
      | .none => Resolver.anonymous))
  | .fnName => some fun operation =>
    .ok (some (match operation.operationId with
      | some id =>
        match Text.pieces '.' id with
        | _ :: _ :: third :: _ => third
        | first :: _ => first
        | [] => ""
      | .none => Resolver.anonymous))
  | .header => if header then .none else some fun _ => .ok .none
  | .cookie => if cookie then .none else some fun _ => .ok .none
  | _ => .none

end Overrides

end OpenApiTs
