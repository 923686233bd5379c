/-
  OpenApiTs.Schema.Scrub

  Placeholders of self-references in compiled text. A compiler that knows nothing of them declares
  an alias of type `any` for each; those lines go, and the marker goes from every name that has
  it.
-/
import OpenApiTs.Schema.Compile

namespace OpenApiTs.Schema

open OpenApiTs.Text

/-! ## Lines -/

/-- How the declaration of an alias begins. -/
def aliasOpening : List Char := "export type ".toList

/-- How the line that declares the alias of a placeholder ends. -/
def aliasClosing : List Char := (Definitions.marker ++ " = any").toList

/-- What stands before the first opening of an alias in a text that has something after it. -/
def beforeOpening? : List Char → Option (List Char)
  | [] => none
  | c :: text =>
    match Chars.after? aliasOpening (c :: text) with
    | some (_ :: _) => some []
    | _ => (beforeOpening? text).map (c :: ·)

/-- What is left of a line that declares the alias of a placeholder: whatever precedes the
    declaration. -/
def aliasRest? (line : List Char) : Option (List Char) :=
  (Chars.before? aliasClosing line).bind beforeOpening?

/-- The text of lines without the aliases of placeholders. Each line but the last was closed by a
    line feed, which goes with the alias. -/
def withoutAliases : List (List Char) → List Char
  | [] => []
  | [line] => line
  | line :: next :: others =>
    (match aliasRest? line with
      | some rest => rest
      | none => line ++ ['\n']) ++ withoutAliases (next :: others)

/-- Text without placeholders. -/
def scrub (text : String) : String :=
  let kept := withoutAliases (Chars.pieces (· == '\n') text.toList)
  String.ofList (Chars.replaceAll [Definitions.marker.toList] [] kept)

/-! ## Compilers -/

/-- What a compiler answers, without placeholders. -/
def Compiler.clean (compiler : Compiler) : Compiler := fun schema name definitions =>
  (compiler schema name definitions).map scrub

end OpenApiTs.Schema
