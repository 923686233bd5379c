/-
  OpenApiTs.Schema.Compile

  Declarations for a schema: the schema itself under a given name, then, in the order in which their
  names are claimed, every titled node and every definition that what is declared mentions.
-/
import OpenApiTs.Failure
import OpenApiTs.Schema.Roster

namespace OpenApiTs.Schema

open OpenApiTs.TypeScript

/-! ## Bound -/

/-- Whether an object has a title that is not empty. -/
def isTitled (schema : Json) : Bool := (schema.wordsAt? "title").isSome

mutual

/-- How many nodes of a value have a title that is not empty. -/
def titles : Json → Nat
  | .object fields => (if isTitled (.object fields) then 1 else 0) + titlesInFields fields
  | .array items => titlesInItems items
  | _ => 0

/-- As `titles`, over items. -/
def titlesInItems : List Json → Nat
  | [] => 0
  | item :: items => titles item + titlesInItems items

/-- As `titles`, over the values of fields. -/
def titlesInFields : List (String × Json) → Nat
  | [] => 0
  | (_, value) :: fields => titles value + titlesInFields fields

end

/-- How many declarations a schema can lead to at most: itself, each definition, and each titled
    node. -/
def declarationBound (definitions : Definitions) (schema : Json) : Nat :=
  1 + definitions.schemas.length + (titles schema + titlesInFields definitions.schemas)

/-! ## Declarations -/

/-- A malformed node, with the name of the declaration that it stands in. -/
structure Malformed where
  name : String
  fault : Fault

/-- A declaration with its names chosen, and the roster after them. -/
def nameIn (definitions : Definitions) (root : String) (declaration : Declaration Mention)
    (roster : Roster) : Declaration String × Roster :=
  let renamed := declaration.type.rename (Roster.choose definitions root) roster
  (⟨declaration.name, declaration.description, declaration.form, renamed.1⟩, renamed.2)

/-- A roster, and the declarations made for its first claims, in order. The compilation is complete
    when every claim has its declaration. -/
structure Compilation where
  roster : Roster
  made : List (Declaration String)
deriving Inhabited

/-- Declarations for the claims that have none yet, and for the claims that these add, `fuel` of
    them at most. -/
def declareFrom (definitions : Definitions) (root : String) :
    Nat → Compilation → Except Malformed Compilation
  | 0, compilation => .ok compilation
  | fuel + 1, compilation =>
    match compilation.roster[compilation.made.length]? with
    | none => .ok compilation
    | some (name, schema) =>
      match declare name schema with
      | .error fault => .error ⟨name, fault⟩
      | .ok declaration =>
        let named := nameIn definitions root declaration compilation.roster
        declareFrom definitions root fuel ⟨named.2, compilation.made ++ [named.1]⟩

/-- The compilation of a schema under the identifier for `name`. -/
def compile (definitions : Definitions) (name : String) (schema : Json) :
    Except Malformed Compilation :=
  let root := Name.identifier name
  declareFrom definitions root (declarationBound definitions schema) ⟨[(root, schema)], []⟩

/-! ## Text -/

/-- The text of a compilation: its declarations, one after the other. -/
def Compilation.render (compilation : Compilation) : String :=
  String.join (compilation.made.map Declaration.render)

/-- A malformed node as a failure. -/
def Malformed.failure (malformed : Malformed) : Failure :=
  .compile malformed.name malformed.fault.message

/-- Something that turns a schema into the text of declarations, the first under a given name. -/
abbrev Compiler := Json → String → Definitions → Except Failure String

/-- The compiler to TypeScript. -/
def typeScript : Compiler := fun schema name definitions =>
  match compile definitions name schema with
  | .ok compilation => .ok compilation.render
  | .error malformed => .error malformed.failure

end OpenApiTs.Schema
