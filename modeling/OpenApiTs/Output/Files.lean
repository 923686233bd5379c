/-
  OpenApiTs.Output.Files

  The files of a run, in order: the shared declarations, the index of the types, and for each group
  of endpoints its types and its request functions. Endpoints are in one group when they have the
  same file name.
-/
import OpenApiTs.Output.Block
import OpenApiTs.Output.Shared

namespace OpenApiTs.Output

/-! ## Groups -/

/-- The group of an endpoint. -/
def groupOf (endpoint : Endpoint) : String := endpoint.fileName.getD ""

/-- The groups of endpoints, in the order in which they are first met. -/
def groups (endpoints : List Endpoint) : List String := (endpoints.map groupOf).eraseDups

/-- The endpoints of a group, in order. -/
def members (endpoints : List Endpoint) (group : String) : List Endpoint :=
  endpoints.filter fun endpoint => groupOf endpoint == group

/-! ## Types -/

/-- The path of the index of the types. -/
def typesIndexPath : String := "types.d.ts"

/-- The path of the types of a group. -/
def typesPath (group : String) : String := "types/" ++ group ++ ".d.ts"

/-- The index of the types: every group exported. -/
def typesIndex (endpoints : List Endpoint) : OutputFile :=
  ⟨typesIndexPath,
    "\n".intercalate ((groups endpoints).map fun group =>
      "export * from './types/" ++ group ++ "'")⟩

/-- The declaration of the type that wraps the data of every response, if there is one. -/
def envelope (settings : Settings) : String :=
  match settings.successResponseTemplate with
  | some template => "type ApiResponse<T> = " ++ template ++ "\n"
  | none => ""

/-- The types of the endpoints of a group, one after the other. -/
def typeBlocks (settings : Settings) (endpoints : List Endpoint) : String :=
  String.join (endpoints.map (typeBlock settings))

/-- The file with the types of a group. The shared declarations are imported when `Types` occurs in
    it. -/
def typesFile (settings : Settings) (endpoints : List Endpoint) (group : String) : OutputFile :=
  let content := typeBlocks settings (members endpoints group)
  let name := Name.pascal group
  let sharedImport :=
    if Text.contains "Types" content then "import Types from '../common';\n" else ""
  ⟨typesPath group,
    sharedImport ++ envelope settings ++ "export namespace " ++ name ++ " \x7b\n " ++ content ++
      "\n\x7d\nexport default " ++ name⟩

/-- The index of the types and the types of each group. -/
def typesFiles (settings : Settings) (endpoints : List Endpoint) : List OutputFile :=
  typesIndex endpoints :: (groups endpoints).map (typesFile settings endpoints)

/-! ## Request functions -/

/-- The path of the request functions of a group. -/
def requestsPath (group : String) : String := "apis/" ++ group ++ ".ts"

/-- The statement that imports `request`. -/
def requestImport (settings : Settings) : String :=
  settings.requestTemplate.getD ("import request from '" ++ settings.axiosFilePath ++ "'")

/-- The request functions of endpoints, one after the other. -/
def requestFunctions (endpoints : List Endpoint) : String :=
  String.join (endpoints.map fun endpoint => requestFunction endpoint ++ "\n")

/-- The file with the request functions of a group. -/
def requestsFile (settings : Settings) (endpoints : List Endpoint) (group : String) : OutputFile :=
  ⟨requestsPath group,
    requestImport settings ++ "\nimport Api from '../types/" ++ group ++ "'\n" ++
      requestFunctions (members endpoints group)⟩

/-- The request functions of each group. -/
def requestsFiles (settings : Settings) (endpoints : List Endpoint) : List OutputFile :=
  (groups endpoints).map (requestsFile settings endpoints)

/-! ## All files -/

/-- The files of a run. -/
def files (compiler : Schema.Compiler) (definitions : Definitions) (settings : Settings)
    (endpoints : List Endpoint) : Except Failure (List OutputFile) := do
  let shared ← sharedFile? compiler definitions
  return shared.toList ++ typesFiles settings endpoints ++ requestsFiles settings endpoints

end OpenApiTs.Output
