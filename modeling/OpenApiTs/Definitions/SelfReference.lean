/-
  OpenApiTs.Definitions.SelfReference

  References of a definition to itself. Each is replaced by a placeholder of type `any` whose title
  is the definition's name with a marker, so that the name can be put back later. The search goes
  into properties of objects, items of arrays, members of combinations and negated schemas.
-/
import OpenApiTs.Reference.Basic

namespace OpenApiTs.Definitions

/-- What the title of a placeholder has after the definition's name. -/
def marker : String := "_____OpenapiGenRequestAnyToReplace"

/-! ## Placeholders -/

/-- Whether the node with these fields refers to the definition `own`, by its path or by its bare
    name. -/
def refersTo (own : String) (fields : Entries Json) : Bool :=
  match (fields.lookup "$ref").bind Json.text? with
  | some target => (Text.after? Reference.definitionRoot target).getD target == own
  | none => false

/-- The fields of the placeholder for a reference of `own` to itself: the other fields of the
    reference stay. -/
def placeholder (own : String) (fields : Entries Json) : Entries Json :=
  ((Entries.remove fields "$ref").put "type" (.text "any")).put "title" (.text (own ++ marker))

/-! ## Positions of schemas -/

/-- How the value of a field holds schemas. -/
inductive Holding where
  /-- It holds none that are searched. -/
  | nothing
  /-- It is a schema. -/
  | schema
  /-- It is a list of schemas, or one schema. -/
  | items
  /-- Its items are schemas. -/
  | members
  /-- The values of its fields are schemas. -/
  | properties
deriving DecidableEq, Repr

/-- The first of the three combining keywords that has a list. -/
def combination? (fields : Entries Json) : Option String :=
  ["allOf", "anyOf", "oneOf"].find? fun keyword =>
    ((fields.lookup keyword).bind Json.items?).isSome

/-- How the field `key` of a node holds schemas. The type decides: an object is searched through its
    properties, an array through its items, anything else through the first combination and the
    negated schema. -/
def holding (fields : Entries Json) (key : String) : Holding :=
  match (fields.lookup "type").bind Json.text? with
  | some "object" => if key = "properties" then .properties else .nothing
  | some "array" => if key = "items" then .items else .nothing
  | _ =>
    if combination? fields = some key then .members
    else if key = "not" then .schema
    else .nothing

/-! ## Replacing -/

mutual

/-- The node with every reference to `own` replaced by a placeholder. -/
def neutralize (own : String) : Json → Json
  | .object fields =>
    if refersTo own fields then .object (placeholder own fields)
    else .object (neutralizeFields own (holding fields) fields)
  | other => other

/-- As `neutralize`, for each item. -/
def neutralizeItems (own : String) : List Json → List Json
  | [] => []
  | item :: items => neutralize own item :: neutralizeItems own items

/-- As `neutralize`, for the schemas that fields hold. -/
def neutralizeFields (own : String) (holds : String → Holding) :
    List (String × Json) → List (String × Json)
  | [] => []
  | (key, value) :: fields =>
    (key,
      match holds key, value with
      | .nothing, value => value
      | .schema, value => neutralize own value
      | .items, .array items => .array (neutralizeItems own items)
      | .items, value => neutralize own value
      | .members, .array items => .array (neutralizeItems own items)
      | .members, value => value
      | .properties, .object properties =>
        .object (neutralizeFields own (fun _ => .schema) properties)
      | .properties, value => value) :: neutralizeFields own holds fields

end

/-! ## Counting -/

mutual

/-- How many references to `own` the node has where `neutralize` replaces them. -/
def selfReferences (own : String) : Json → Nat
  | .object fields =>
    if refersTo own fields then 1 else selfReferencesInFields own (holding fields) fields
  | _ => 0

/-- As `selfReferences`, over items. -/
def selfReferencesInItems (own : String) : List Json → Nat
  | [] => 0
  | item :: items => selfReferences own item + selfReferencesInItems own items

/-- As `selfReferences`, over the schemas that fields hold. -/
def selfReferencesInFields (own : String) (holds : String → Holding) :
    List (String × Json) → Nat
  | [] => 0
  | (key, value) :: fields =>
    (match holds key, value with
      | .nothing, _ => 0
      | .schema, value => selfReferences own value
      | .items, .array items => selfReferencesInItems own items
      | .items, value => selfReferences own value
      | .members, .array items => selfReferencesInItems own items
      | .members, _ => 0
      | .properties, .object properties =>
        selfReferencesInFields own (fun _ => .schema) properties
      | .properties, _ => 0) + selfReferencesInFields own holds fields

end

end OpenApiTs.Definitions
