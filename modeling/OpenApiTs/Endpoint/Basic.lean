/-
  OpenApiTs.Endpoint.Basic

  Endpoints: operations with every field as text that generated files can hold.
-/

namespace OpenApiTs

/-- The fields of an endpoint, in the order in which they are resolved. -/
inductive Field where
  | fileName
  | url
  | method
  | fnName
  | fnComment
  | params
  | query
  | cookie
  | header
  | body
  | response
deriving DecidableEq, Repr, Inhabited

namespace Field

/-- All fields, in order. -/
def all : List Field :=
  [fileName, url, method, fnName, fnComment, params, query, cookie, header, body, response]

/-- The name of a field. -/
def name : Field → String
  | fileName => "fileName"
  | url => "url"
  | method => "method"
  | fnName => "fnName"
  | fnComment => "fnComment"
  | params => "params"
  | query => "query"
  | cookie => "cookie"
  | header => "header"
  | body => "body"
  | response => "response"

end Field

/-- An operation with every field as text; a field without text is left out of the files. -/
structure Endpoint where
  fileName : Option String
  url : Option String
  method : Option String
  fnName : Option String
  fnComment : Option String
  params : Option String
  query : Option String
  cookie : Option String
  header : Option String
  body : Option String
  response : Option String
deriving DecidableEq, Repr, Inhabited

namespace Endpoint

/-- The text of a field. -/
def get (endpoint : Endpoint) : Field → Option String
  | .fileName => endpoint.fileName
  | .url => endpoint.url
  | .method => endpoint.method
  | .fnName => endpoint.fnName
  | .fnComment => endpoint.fnComment
  | .params => endpoint.params
  | .query => endpoint.query
  | .cookie => endpoint.cookie
  | .header => endpoint.header
  | .body => endpoint.body
  | .response => endpoint.response

/-- The text of a field that is present and not empty. -/
def present? (endpoint : Endpoint) (field : Field) : Option String :=
  (endpoint.get field).filter fun text => text ≠ ""

end Endpoint

end OpenApiTs
