/-
  OpenApiTs.Output.Block

  What is generated for one endpoint: the namespace of its types, and its request function.
-/
import OpenApiTs.Options.Basic

namespace OpenApiTs.Output

/-- The name of the namespace of an endpoint. -/
def namespaceOf (endpoint : Endpoint) : String := Name.pascal (endpoint.fnName.getD "")

/-! ## Types -/

/-- The namespace with the types of an endpoint: what it sends, its data and its response. -/
def typeBlock (settings : Settings) (endpoint : Endpoint) : String :=
  let sent := [Field.query, .body, .header, .cookie].filterMap endpoint.present?
  let data := (endpoint.present? .response).getD "export type Data = any"
  let response :=
    if settings.successResponseTemplate.isSome then "Promise<ApiResponse<Data>>"
    else "Promise<Data>"
  endpoint.fnComment.getD "" ++ "export namespace " ++ namespaceOf endpoint ++ " \x7b\n      " ++
    "\n  ".intercalate sent ++ "\n      " ++ data ++ "\n      export type Response = " ++
    response ++ "\n    \x7d\n  "

/-! ## Request functions -/

/-- The parts of a request that an endpoint may send, each with its name in the signature and its
    place in the call. -/
def requestParts : List (Field × String × String) :=
  [(.query, "query", "params: query"), (.body, "body", "data: body"),
   (.header, "header", "headers: header"), (.cookie, "cookie", "cookie")]

/-- The parts that an endpoint sends. -/
def sentParts (endpoint : Endpoint) : List (Field × String × String) :=
  requestParts.filter fun part => (endpoint.present? part.1).isSome

/-- The signature of an endpoint's function between its parentheses: parameters of the path, then
    one argument for each part of the request. -/
def signature (endpoint : Endpoint) : String :=
  let arguments := ", ".intercalate ((sentParts endpoint).map fun part =>
    part.2.1 ++ ": Api." ++ namespaceOf endpoint ++ "." ++ Name.pascal part.2.1)
  match endpoint.present? .params with
  | some params => if arguments = "" then params else params ++ ", " ++ arguments
  | none => arguments

/-- The URL of an endpoint as a literal: a template when there are parameters of the path. -/
def urlLiteral (endpoint : Endpoint) : String :=
  let url := endpoint.url.getD ""
  match endpoint.present? .params with
  | some _ => "`" ++ url ++ "`"
  | none => "'" ++ url ++ "'"

/-- The request function of an endpoint. -/
def requestFunction (endpoint : Endpoint) : String :=
  let method := Text.upper ((endpoint.present? .method).getD "GET")
  let calls := ",\n    ".intercalate ((sentParts endpoint).map fun part => part.2.2)
  endpoint.fnComment.getD "" ++ "export function " ++ endpoint.fnName.getD "" ++ "(" ++
    signature endpoint ++ "): Api." ++ namespaceOf endpoint ++ ".Response \x7b\n" ++
    "  return request(\x7b\n    method: '" ++ method ++ "',\n    url: " ++ urlLiteral endpoint ++
    ",\n    " ++ calls ++ "\n  \x7d)\n\x7d\n"

end OpenApiTs.Output
