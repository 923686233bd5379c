/-
  OpenApiTs.Operation.Basic

  The operations of an API: one method of one path, with its parameters by location, its request
  body and its responses.
-/
import OpenApiTs.Json.Basic

namespace OpenApiTs

/-- The methods that a path may declare. -/
inductive Method where
  | get
  | put
  | post
  | delete
  | options
  | head
  | patch
  | trace
deriving DecidableEq, Repr, Inhabited

namespace Method

/-- The methods, in the order in which documents list them. -/
def all : List Method := [get, put, post, delete, options, head, patch, trace]

/-- The key of a method in a path. -/
def key : Method → String
  | get => "get"
  | put => "put"
  | post => "post"
  | delete => "delete"
  | options => "options"
  | head => "head"
  | patch => "patch"
  | trace => "trace"

/-- The method of a key. -/
def ofKey? (key : String) : Option Method := all.find? fun method => method.key == key

end Method

/-- Where a parameter stands in a request. -/
inductive Location where
  | path
  | query
  | header
  | cookie
deriving DecidableEq, Repr, Inhabited

namespace Location

/-- The word for a location. -/
def word : Location → String
  | path => "path"
  | query => "query"
  | header => "header"
  | cookie => "cookie"

/-- The location of a word. -/
def ofWord? (word : String) : Option Location :=
  [path, query, header, cookie].find? fun location => location.word == word

end Location

/-- A parameter of an operation. -/
structure Parameter where
  name : String
  location : Location
  required : Bool
  description : Option String
  schema : Option Json
deriving Inhabited

/-- What an operation answers under one status. -/
structure Response where
  description : Option String
  schema : Option Json
deriving Inhabited

/-- One method of one path. -/
structure Operation where
  url : String
  method : String
  description : Option String
  operationId : Option String
  summary : Option String
  tags : Option (List String)
  path : List Parameter
  query : List Parameter
  cookie : List Parameter
  header : List Parameter
  body : Option Json
  /-- The responses by status. -/
  responses : Entries Response
deriving Inhabited

end OpenApiTs
