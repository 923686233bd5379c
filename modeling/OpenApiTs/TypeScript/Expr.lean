/-
  OpenApiTs.TypeScript.Expr

  TypeScript type expressions and their text. An expression is written over a type `ν` of what
  stands in the places of names: what a schema mentions before names are chosen, the names
  themselves after.
-/
import OpenApiTs.Json.Print
import OpenApiTs.Name.Identifier
import OpenApiTs.Text.Basic

namespace OpenApiTs.TypeScript

/-- What a member of an object type is: a property, or the index signature for all other keys. -/
inductive MemberHead where
  | property (comment : Option String) (key : String) (optional : Bool)
  | index
deriving DecidableEq, Repr, Inhabited

/-- A type expression with names from `ν`. -/
inductive TypeExpr (ν : Type) where
  /-- A fixed word: a primitive type or a literal. -/
  | word (text : String)
  /-- A declared type. -/
  | named (name : ν)
  /-- All of the parts at once. -/
  | intersection (parts : List (TypeExpr ν))
  /-- One of the parts, each in parentheses where it needs them. -/
  | union (parts : List (TypeExpr ν))
  /-- One of the parts as they stand. -/
  | alternatives (parts : List (TypeExpr ν))
  /-- A list with a type for each place. -/
  | tuple (parts : List (TypeExpr ν))
  /-- A list of any length. -/
  | array (element : TypeExpr ν)
  /-- An object. -/
  | record (members : List (MemberHead × TypeExpr ν))
deriving Inhabited

/-- The type of all values. -/
def TypeExpr.any {ν : Type} : TypeExpr ν := .word "any"

/-! ## Names -/

namespace TypeExpr

variable {ν κ σ : Type}

mutual

/-- The expression with its names replaced from left to right by `choose`, which may look at a state
    and change it. -/
def rename (choose : ν → σ → κ × σ) : TypeExpr ν → σ → TypeExpr κ × σ
  | word text, state => (word text, state)
  | named name, state => (named (choose name state).1, (choose name state).2)
  | intersection parts, state =>
    (intersection (renameAll choose parts state).1, (renameAll choose parts state).2)
  | union parts, state => (union (renameAll choose parts state).1, (renameAll choose parts state).2)
  | alternatives parts, state =>
    (alternatives (renameAll choose parts state).1, (renameAll choose parts state).2)
  | tuple parts, state => (tuple (renameAll choose parts state).1, (renameAll choose parts state).2)
  | array element, state =>
    (array (rename choose element state).1, (rename choose element state).2)
  | record members, state =>
    (record (renameMembers choose members state).1, (renameMembers choose members state).2)

/-- As `rename`, over parts. -/
def renameAll (choose : ν → σ → κ × σ) : List (TypeExpr ν) → σ → List (TypeExpr κ) × σ
  | [], state => ([], state)
  | part :: parts, state =>
    ((rename choose part state).1 ::
        (renameAll choose parts (rename choose part state).2).1,
      (renameAll choose parts (rename choose part state).2).2)

/-- As `rename`, over members. -/
def renameMembers (choose : ν → σ → κ × σ) :
    List (MemberHead × TypeExpr ν) → σ → List (MemberHead × TypeExpr κ) × σ
  | [], state => ([], state)
  | (head, type) :: members, state =>
    ((head, (rename choose type state).1) ::
        (renameMembers choose members (rename choose type state).2).1,
      (renameMembers choose members (rename choose type state).2).2)

end

mutual

/-- The names of an expression from left to right. -/
def mentions : TypeExpr ν → List ν
  | word _ => []
  | named name => [name]
  | intersection parts => mentionsAll parts
  | union parts => mentionsAll parts
  | alternatives parts => mentionsAll parts
  | tuple parts => mentionsAll parts
  | array element => mentions element
  | record members => mentionsMembers members

/-- The names of parts. -/
def mentionsAll : List (TypeExpr ν) → List ν
  | [] => []
  | part :: parts => mentions part ++ mentionsAll parts

/-- The names of members. -/
def mentionsMembers : List (MemberHead × TypeExpr ν) → List ν
  | [] => []
  | (_, type) :: members => mentions type ++ mentionsMembers members

end

end TypeExpr

/-! ## Text -/

/-- A comment block above a declaration or property: one line of it for each line of the words. -/
def docComment (words : String) : String :=
  "/**\n" ++ "\n".intercalate ((Text.pieces '\n' words).map (" * " ++ ·)) ++ "\n */\n"

/-- The comment block above something that may be described. -/
def docCommentOf (description : Option String) : String :=
  match description with
  | some words => docComment words
  | none => ""

/-- A property's key: bare when it is an identifier, else between quotes. -/
def propertyKey (key : String) : String := if Name.isIdentifier key then key else Json.quote key

/-- The literal type of a value. Arrays and objects have none. -/
def literal : Json → String
  | .object _ | .array _ => "any"
  | value => value.print

/-- The text in parentheses if it joins several types and neither has parentheses at its ends nor
    begins with a brace. -/
def parenthesize (text : String) : String :=
  let compound := Text.contains " | " text || Text.contains " & " text
  let wrapped := Text.opensWith "(" text && Text.closesWith ")" text
  if compound && !wrapped && !Text.opensWith "\x7b" text then "(" ++ text ++ ")" else text

/-- What stands before the type of a member. -/
def MemberHead.render : MemberHead → String
  | property comment key optional =>
    docCommentOf comment ++ propertyKey key ++ (if optional then "?" else "") ++ ": "
  | index => "[k: string]: "

/-- The members between braces, each on a line of its own. -/
def braces (members : String) : String :=
  if members = "" then "\x7b\x7d" else "\x7b\n" ++ members ++ "\x7d"

namespace TypeExpr

/-- The parts with `separator` between them, each in parentheses where it needs them; no parts at
    all allow every value. -/
def joinParts (separator : String) (parts : List String) : String :=
  if parts.isEmpty then "any" else separator.intercalate (parts.map parenthesize)

mutual

/-- Text of an expression. -/
def render : TypeExpr String → String
  | word text => text
  | named name => name
  | intersection parts => joinParts " & " (renderAll parts)
  | union parts => joinParts " | " (renderAll parts)
  | alternatives parts => " | ".intercalate (renderAll parts)
  | tuple parts => "[" ++ ", ".intercalate (renderAll parts) ++ "]"
  | array element => parenthesize (render element) ++ "[]"
  | record members => braces (renderMembers members)

/-- Texts of parts. -/
def renderAll : List (TypeExpr String) → List String
  | [] => []
  | part :: parts => render part :: renderAll parts

/-- Text of members. -/
def renderMembers : List (MemberHead × TypeExpr String) → String
  | [] => ""
  | (head, type) :: members => head.render ++ render type ++ "\n" ++ renderMembers members

end

end TypeExpr

end OpenApiTs.TypeScript
