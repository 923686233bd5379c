/-
  OpenApiTs.Generation.Basic

  From an OpenAPI 3 document to generated files.
-/
import OpenApiTs.Definitions.Collect
import OpenApiTs.Operation.Extract
import OpenApiTs.Output.Files
import OpenApiTs.Reference.Normal
import OpenApiTs.Swagger.Upgrade

namespace OpenApiTs

/-- What a run generates. -/
structure Generation where
  settings : Settings
  files : List OutputFile
  /-- How many operations the document has. -/
  operations : Nat

namespace Generation

/-- What a document and options lead to: references in normal form, definitions, settings,
    operations, endpoints and files, up to the first failure. -/
def ofDocument (compiler : Schema.Compiler) (cwd : String) (document : Json) (options : Options) :
    Except Failure Generation := do
  let normal := Reference.normalize document
  let definitions := Definitions.ofDocument normal
  let settings ← options.settings compiler definitions cwd
  let operations := Operation.listOfDocument normal
  let endpoints ← settings.resolver.resolveAll operations
  let files ← Output.files compiler definitions settings endpoints
  return ⟨settings, files, operations.length⟩

end Generation

end OpenApiTs
