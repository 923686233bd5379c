/-
  OpenApiTs.Definitions.Collect

  The definitions of a document in normal form: inline bodies of its shared requests, its schemas
  over them, and no references of a definition to itself.
-/
import OpenApiTs.Definitions.Basic
import OpenApiTs.Definitions.SelfReference

namespace OpenApiTs.Definitions

/-- The entries of one kind of component; none when the container is itself a reference. -/
def components (document : Json) (kind : String) : Entries Json :=
  match (document.field? "components").bind fun all => all.fieldsAt? kind with
  | some entries => if Entries.has entries "$ref" then [] else entries
  | none => []

/-- The schema of a request body's JSON content. -/
def jsonSchema? (body : Json) : Option Json :=
  (body.field? "content").bind fun content =>
    (content.field? "application/json").bind fun media => media.field? "schema"

/-- The definition that a shared request body gives: its inline schema, described as the body is. A
    body whose schema is a reference gives none. -/
def ofBody? (body : Json) : Option Json :=
  match jsonSchema? body with
  | some (.object fields) =>
    if Reference.isReference (.object fields) then none
    else
      match body.field? "description" with
      | none | some .null => some (.object (Entries.remove fields "description"))
      | some description => some (.object (Entries.put fields "description" description))
  | _ => none

/-- The definitions of a document before self-references are replaced. A schema stands over a
    request body of the same name. -/
def gather (document : Json) : Entries Json :=
  let bodies := (components document "requestBodies").filterMap fun entry =>
    (ofBody? entry.2).map fun schema => (entry.1, schema)
  Entries.putAll (Entries.ofPairs bodies) (components document "schemas")

/-- The definitions of a document. -/
def ofDocument (document : Json) : Definitions :=
  let gathered := gather document
  { schemas := gathered.map fun entry => (entry.1, neutralize entry.1 entry.2)
    selfReferential :=
      (gathered.filter fun entry => selfReferences entry.1 entry.2 ≠ 0).map Prod.fst }

end OpenApiTs.Definitions
