/-
  OpenApiTs.TypeScript.Declaration

  Exported declarations of types and their text.
-/
import OpenApiTs.TypeScript.Expr

namespace OpenApiTs.TypeScript

/-- The two ways to declare a type. -/
inductive Form where
  | interface
  | alias
deriving DecidableEq, Repr, Inhabited

/-- A declaration, with names from `ν` in its type. -/
structure Declaration (ν : Type) where
  name : String
  description : Option String
  form : Form
  type : TypeExpr ν
deriving Inhabited

namespace Declaration

/-- What stands before the type. -/
def head (form : Form) (name : String) : String :=
  match form with
  | .interface => "export interface " ++ name ++ " "
  | .alias => "export type " ++ name ++ " = "

/-- Text of a declaration, with its comment block above it and a line feed after it. -/
def render (declaration : Declaration String) : String :=
  docCommentOf declaration.description ++ head declaration.form declaration.name ++
    declaration.type.render ++ "\n"

end Declaration

end OpenApiTs.TypeScript
