/-
  OpenApiTs.Schema.Roster

  The names claimed for declarations. A name goes to one schema for good: a reference claims the
  name of its definition, a titled node the first of `Title`, `Title1`, `Title2`, … that nothing
  else holds, and a name that is claimed again by an equal schema is shared.
-/
import OpenApiTs.Definitions.Basic
import OpenApiTs.Definitions.SelfReference
import OpenApiTs.Schema.Shape

namespace OpenApiTs.Schema

/-- The claimed names with their schemas, in the order in which they were claimed. -/
abbrev Roster := Entries Json

namespace Roster

/-- The roster with a name claimed for a schema, unless the name is claimed already. -/
def claim (roster : Roster) (name : String) (schema : Json) : Roster :=
  if Entries.has roster name then roster else roster ++ [(name, schema)]

/-- Whether a name is held by something other than the schema: by the schema that claimed it, or, as
    long as nobody did, by the definition of that name. -/
def taken (definitions : Definitions) (roster : Roster) (schema : Json) (name : String) : Bool :=
  match roster.lookup name with
  | some owner => !owner.same schema
  | none =>
    match definitions.get? name with
    | some definition => !definition.same schema
    | none => false

/-- The candidate names for a title: the base itself, then the base with a number. -/
def candidate (base : String) (number : Nat) : String :=
  if number = 0 then base else base ++ String.ofList (Nat.toDigits 10 number)

/-- The first candidate from `number` on that is not taken, `fuel` of them being tried. -/
def firstFree (definitions : Definitions) (roster : Roster) (schema : Json) (base : String) :
    Nat → Nat → String
  | 0, number => candidate base number
  | fuel + 1, number =>
    if taken definitions roster schema (candidate base number) then
      firstFree definitions roster schema base fuel (number + 1)
    else candidate base number

/-- The name for a titled node. At most one name per claim and definition is taken, so as many tries
    always reach a free one. -/
def nameTitled (definitions : Definitions) (title : String) (schema : Json) (roster : Roster) :
    String × Roster :=
  let tries := roster.length + definitions.schemas.length
  let name := firstFree definitions roster schema (Name.identifier title) tries 0
  (name, roster.claim name schema)

/-- The definition that a reference points at. -/
def definition? (definitions : Definitions) (target : String) : Option Json :=
  (Text.after? Reference.definitionRoot target).bind definitions.get?

/-- The name for a reference: that of the root declaration for `#`, else the identifier for what
    follows the last slash. Only a known definition claims it. -/
def nameReference (definitions : Definitions) (root target : String) (roster : Roster) :
    String × Roster :=
  if target = "#" then (root, roster)
  else
    let name := Name.identifier (Text.lastPiece '/' target)
    match definition? definitions target with
    | some schema => (name, roster.claim name schema)
    | none => (name, roster)

/-- The definition whose reference to itself left a placeholder of this title. -/
def placeholderOf? (definitions : Definitions) (title : String) : Option String :=
  (Text.before? Definitions.marker title).filter definitions.isSelfReferential

/-- The name for a mention. The placeholder of a self-reference is named after its definition and
    claims nothing. -/
def choose (definitions : Definitions) (root : String) : Mention → Roster → String × Roster
  | .titled title schema, roster =>
    match placeholderOf? definitions title with
    | some own => (Name.identifier own, roster)
    | none => nameTitled definitions title schema roster
  | .reference target, roster => nameReference definitions root target roster

end Roster

end OpenApiTs.Schema
