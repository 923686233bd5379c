/-
  OpenApiTs.Reference.Basic

  Reference nodes: objects with a text under `$ref`.
-/
import OpenApiTs.Json.Basic
import OpenApiTs.Text.Basic

namespace OpenApiTs.Reference

/-- Where a node refers to, when it is a reference. -/
def target? (node : Json) : Option String := node.textAt? "$ref"

/-- Whether a node is a reference. -/
def isReference (node : Json) : Bool := (target? node).isSome

/-- The name that a reference ends in: what follows its last slash. -/
def name? (node : Json) : Option String := (target? node).map (Text.lastPiece '/')

/-- How a reference to a definition begins. -/
def definitionRoot : String := "#/definitions/"

end OpenApiTs.Reference
