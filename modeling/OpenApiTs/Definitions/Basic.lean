/-
  OpenApiTs.Definitions.Basic

  The named schemas of a document.
-/
import OpenApiTs.Json.Basic

namespace OpenApiTs

/-- Named schemas in order, and the names of those whose references to themselves were replaced by
    placeholders. -/
structure Definitions where
  schemas : Entries Json
  selfReferential : List String
deriving Inhabited

namespace Definitions

/-- The schema of a name. -/
def get? (definitions : Definitions) (name : String) : Option Json :=
  definitions.schemas.lookup name

/-- Whether a name's references to itself were replaced by placeholders. -/
def isSelfReferential (definitions : Definitions) (name : String) : Bool :=
  definitions.selfReferential.contains name

end Definitions

end OpenApiTs
