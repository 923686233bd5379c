/-
  OpenApiTs.Schema.Shape

  The type expression that a schema describes, before names are chosen. A node with a title and a
  reference are only mentioned, so the shape of a schema needs no definitions and ends at them; a
  malformed node has no shape.
-/
import OpenApiTs.TypeScript.Declaration

namespace OpenApiTs.Schema

open OpenApiTs.TypeScript

/-! ## Mentions and faults -/

/-- What a schema mentions in the place of a name. -/
inductive Mention where
  /-- A node with a title, to be declared under a name of its own. -/
  | titled (title : String) (schema : Json)
  /-- A reference with its target. -/
  | reference (target : String)
deriving Inhabited

/-- The keywords that combine schemas, in the order in which they are looked for. -/
inductive Combination where
  | allOf
  | anyOf
  | oneOf
deriving DecidableEq, Repr

/-- The keyword of a combination. -/
def Combination.keyword : Combination → String
  | allOf => "allOf"
  | anyOf => "anyOf"
  | oneOf => "oneOf"

/-- The type that a combination of parts makes. -/
def Combination.join : Combination → List (TypeExpr Mention) → TypeExpr Mention
  | allOf, parts => .intersection parts
  | anyOf, parts => .union parts
  | oneOf, parts => .union parts

/-- Why a node is malformed. -/
inductive Fault where
  | targetNotText
  | membersNotList (combination : Combination)
  | kindNotText
  | unknownKind (value : Json)

/-- The fault in words. -/
def Fault.message : Fault → String
  | targetNotText => "`$ref` must be a string"
  | membersNotList combination => "`" ++ combination.keyword ++ "` must be an array"
  | kindNotText => "`type` entries must be strings"
  | unknownKind value => "unsupported `type` value " ++ value.print

/-- The shape of something, or what is wrong with it. -/
abbrev Shaped (α : Type) := Except Fault α

/-! ## Looking at a node -/

/-- The first combination that the fields have, with its value. -/
def combination? (fields : Entries Json) : Option (Combination × Json) :=
  match fields.lookup "allOf" with
  | some members => some (.allOf, members)
  | none =>
    match fields.lookup "anyOf" with
    | some members => some (.anyOf, members)
    | none =>
      match fields.lookup "oneOf" with
      | some members => some (.oneOf, members)
      | none => none

theorem sizeOf_of_combination? {fields : Entries Json} {combination : Combination} {members : Json}
    (h_found : combination? fields = some (combination, members)) :
    sizeOf members < sizeOf fields := by
  unfold combination? at h_found
  split at h_found
  · next h_all => cases h_found; exact Json.sizeOf_of_lookup h_all
  · split at h_found
    · next h_any => cases h_found; exact Json.sizeOf_of_lookup h_any
    · split at h_found
      · next h_one => cases h_found; exact Json.sizeOf_of_lookup h_one
      · cases h_found

/-- The properties that must be present. -/
def requiredNames (fields : Entries Json) : List String :=
  (((fields.lookup "required").bind Json.items?).getD []).filterMap Json.text?

/-- Whether fields without a type describe an object. -/
def looksLikeObject (fields : Entries Json) : Bool :=
  Entries.has fields "properties" || Entries.has fields "additionalProperties"

/-- The description of a node, unless it is empty. -/
def description? (schema : Json) : Option String := schema.wordsAt? "description"

/-- The type for a word under `type`, given the shapes as an array and as an object. -/
def ofKind (kind : String) (asArray asRecord : Shaped (TypeExpr Mention)) :
    Shaped (TypeExpr Mention) :=
  match kind with
  | "string" => .ok (.word "string")
  | "number" => .ok (.word "number")
  | "integer" => .ok (.word "number")
  | "boolean" => .ok (.word "boolean")
  | "null" => .ok (.word "null")
  | "array" => asArray
  | "object" => asRecord
  | _ => .ok .any

/-- As `ofKind`, for an entry of a list under `type`. -/
def ofKindEntry (asArray asRecord : Shaped (TypeExpr Mention)) (kind : Json) :
    Shaped (TypeExpr Mention) :=
  match kind with
  | .text kind => ofKind kind asArray asRecord
  | _ => .error .kindNotText

/-! ## Shapes -/

mutual

/-- The shape of a schema inside another one: a title makes it a declaration of its own. -/
def shape (schema : Json) : Shaped (TypeExpr Mention) :=
  match schema.wordsAt? "title" with
  | some title => .ok (.named (.titled title schema))
  | none => bodyShape schema
termination_by 3 * sizeOf schema + 2

/-- The shape of a schema, its title left aside. -/
def bodyShape (schema : Json) : Shaped (TypeExpr Mention) :=
  match schema with
  | .object fields => fieldsShape fields
  | .bool false => .ok (.word "never")
  | _ => .ok .any
termination_by 3 * sizeOf schema + 1
decreasing_by
  simp only [Json.object.sizeOf_spec]
  omega

/-- The shape of a node with these fields. A reference counts before a combination, that before a
    list of values, that before a single value, and the type comes last. -/
def fieldsShape (fields : Entries Json) : Shaped (TypeExpr Mention) :=
  match fields.lookup "$ref" with
  | some (.text target) => .ok (.named (.reference target))
  | some _ => .error .targetNotText
  | none =>
    match _h_found : combination? fields with
    | some (combination, .array members) => do
      let parts ← shapeAll members
      return combination.join parts
    | some (combination, _) => .error (.membersNotList combination)
    | none =>
      match (fields.lookup "enum").bind Json.items? with
      | some values => .ok (.alternatives (values.map fun value => .word (literal value)))
      | none =>
        match fields.lookup "const" with
        | some value => .ok (.word (literal value))
        | none =>
          match fields.lookup "type" with
          | some (.text kind) => ofKind kind (arrayShape fields) (recordShape fields)
          | some (.array kinds) => do
            let parts ← kinds.mapM (ofKindEntry (arrayShape fields) (recordShape fields))
            return .alternatives parts
          | some other => .error (.unknownKind other)
          | none =>
            if looksLikeObject fields then recordShape fields
            else if Entries.has fields "items" then arrayShape fields
            else .ok .any
termination_by 3 * sizeOf fields + 3
decreasing_by
  · have h_members := sizeOf_of_combination? _h_found
    simp only [Json.array.sizeOf_spec] at h_members
    omega
  all_goals omega

/-- The shapes of schemas, in order. -/
def shapeAll (schemas : List Json) : Shaped (List (TypeExpr Mention)) :=
  match schemas with
  | [] => .ok []
  | schema :: others => do
    let first ← shape schema
    let rest ← shapeAll others
    return first :: rest
termination_by 3 * sizeOf schemas
decreasing_by
  all_goals simp only [List.cons.sizeOf_spec]; omega

/-- The shape of an array: a tuple when its items are listed. -/
def arrayShape (fields : Entries Json) : Shaped (TypeExpr Mention) :=
  match _h_items : fields.lookup "items" with
  | some (.array items) => do
    let parts ← shapeAll items
    return .tuple parts
  | some items => do
    let element ← shape items
    return .array element
  | none => .ok (.array .any)
termination_by 3 * sizeOf fields
decreasing_by
  · have h_items := Json.sizeOf_of_lookup _h_items
    simp only [Json.array.sizeOf_spec] at h_items
    omega
  · have h_items := Json.sizeOf_of_lookup _h_items
    omega

/-- The shape of an object: its properties, and an index signature unless other keys are ruled
    out. -/
def recordShape (fields : Entries Json) : Shaped (TypeExpr Mention) := do
  let properties ← listedShape fields
  let index ← indexShape fields
  return .record (properties ++ index)
termination_by 3 * sizeOf fields + 1

/-- The members for the listed properties. -/
def listedShape (fields : Entries Json) : Shaped (List (MemberHead × TypeExpr Mention)) :=
  match _h_listed : fields.lookup "properties" with
  | some (.object properties) => propertiesShape (requiredNames fields) properties
  | _ => .ok []
termination_by 3 * sizeOf fields
decreasing_by
  have h_listed := Json.sizeOf_of_lookup _h_listed
  simp only [Json.object.sizeOf_spec] at h_listed
  omega

/-- The index signature, if there is one. -/
def indexShape (fields : Entries Json) : Shaped (List (MemberHead × TypeExpr Mention)) :=
  match _h_index : fields.lookup "additionalProperties" with
  | none => .ok [(.index, .any)]
  | some (.bool true) => .ok [(.index, .any)]
  | some (.bool false) => .ok []
  | some schema => do
    let type ← shape schema
    return [(.index, type)]
termination_by 3 * sizeOf fields
decreasing_by
  have h_index := Json.sizeOf_of_lookup _h_index
  omega

/-- The shapes of properties, in order. -/
def propertiesShape (required : List String) (properties : List (String × Json)) :
    Shaped (List (MemberHead × TypeExpr Mention)) :=
  match properties with
  | [] => .ok []
  | (key, schema) :: others => do
    let type ← shape schema
    let rest ← propertiesShape required others
    return (.property (description? schema) key (!required.contains key), type) :: rest
termination_by 3 * sizeOf properties
decreasing_by
  all_goals simp only [List.cons.sizeOf_spec, Prod.mk.sizeOf_spec]; omega

end

/-! ## Declarations -/

/-- Whether a schema is declared as an interface: it describes an object and nothing else. -/
def isInterface (schema : Json) : Bool :=
  match schema with
  | .object fields =>
    if ["$ref", "allOf", "anyOf", "oneOf", "enum", "const"].any (Entries.has fields) then false
    else
      match fields.lookup "type" with
      | some (.text kind) => kind == "object"
      | none => looksLikeObject fields
      | some _ => false
  | _ => false

/-- The declaration of a schema under a name, before names are chosen in it. -/
def declare (name : String) (schema : Json) : Shaped (Declaration Mention) :=
  match isInterface schema, schema with
  | true, .object fields => do
    let type ← recordShape fields
    return ⟨name, description? schema, .interface, type⟩
  | _, schema => do
    let type ← bodyShape schema
    return ⟨name, description? schema, .alias, type⟩

end OpenApiTs.Schema
