/-
  OpenApiTs.Failure

  Why a run of the generator ends early, by stage, and the words for it.
-/

namespace OpenApiTs

/-- A failure of one stage of a run. Rules and services that a caller supplies may fail for reasons
    of their own, so a reason is held in words. -/
inductive Failure where
  /-- The options do not describe a run. -/
  | config (reason : String)
  /-- The document cannot be loaded. -/
  | load (reason : String)
  /-- The document cannot be brought up to OpenAPI 3. -/
  | conversion (reason : String)
  /-- The schema of a declaration is malformed. -/
  | compile (name reason : String)
  /-- A field of an operation cannot be resolved. -/
  | resolve (method url : String) (inner : Failure)
  /-- A compiled text cannot be cut into declarations: the comment of one encloses another. -/
  | overlap
  /-- The files cannot be written. -/
  | output (reason : String)
deriving DecidableEq, Repr, Inhabited

namespace Failure

/-- What every message but that of a resolved field begins with. -/
def label : String := "[openapi-gen-request]: "

/-- The failure in words. -/
def message : Failure → String
  | config reason => label ++ "invalid configuration: " ++ reason
  | load reason => label ++ "failed to load OpenAPI document: " ++ reason
  | conversion reason => label ++ "conversion failed: " ++ reason
  | compile name reason => label ++ "cannot compile schema `" ++ name ++ "`: " ++ reason
  | resolve method url inner =>
    "failed to resolve " ++ method ++ " " ++ url ++ ": " ++ message inner
  | overlap => label ++ "a compiled text has declarations that overlap"
  | output reason => label ++ "output error: " ++ reason

end Failure

end OpenApiTs
