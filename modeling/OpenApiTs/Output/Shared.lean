/-
  OpenApiTs.Output.Shared

  The file of shared declarations: every definition compiled, the text cut into declarations, and
  each declaration kept once.
-/
import OpenApiTs.Schema.Scrub
import OpenApiTs.Text.Blank

namespace OpenApiTs

/-- A generated file, its path seen from the output directory. -/
structure OutputFile where
  path : String
  content : String
deriving DecidableEq, Repr, Inhabited

namespace Output

/-! ## Cutting -/

/-- The last place among the first lines where a line equals `wanted`. -/
def lastPlace? (wanted : String) (lines : List String) : Option Nat :=
  (List.range lines.length).reverse.find? fun place => lines[place]? == some wanted

/-- Where the declaration whose export stands at a place starts: at the opening of the comment that
    ends right above it, if there is one. -/
def startOf (lines : List String) (place : Nat) : Nat :=
  if 0 < place ∧ lines[place - 1]? = some " */" then
    (lastPlace? "/**" (lines.take (place - 1))).getD place
  else place

/-- The places of the exports. -/
def exportPlaces (lines : List String) : List Nat :=
  (List.range lines.length).filter fun place =>
    match lines[place]? with
    | some line => Text.opensWith "export " line
    | none => false

/-- The places where declarations start. The first one has everything above it. -/
def starts (lines : List String) : List Nat :=
  match (exportPlaces lines).map (startOf lines) with
  | [] => []
  | _ :: others => 0 :: others

/-- The lines from each place up to the next; none when a place stands after the next one. -/
def cutAt? (lines : List String) : List Nat → Option (List (List String))
  | [] => some []
  | [start] => some [lines.drop start]
  | start :: next :: others =>
    if next < start then none
    else
      (cutAt? lines (next :: others)).map fun parts =>
        (lines.drop start).take (next - start) :: parts

/-- The declarations of a compiled text, each with the comment above it and without blanks at its
    ends; none when the comment of one encloses another. -/
def splitDeclarations? (compiled : String) : Option (List String) :=
  let lines := Text.lines compiled
  (cutAt? lines (starts lines)).map fun parts =>
    (parts.map fun part => Text.trim ("\n".intercalate part)).filter fun text => text ≠ ""

/-! ## The file -/

/-- The path of the file of shared declarations. -/
def sharedPath : String := "common.d.ts"

/-- The file of shared declarations; none when nothing is declared. -/
def sharedFile? (compiler : Schema.Compiler) (definitions : Definitions) :
    Except Failure (Option OutputFile) := do
  let compiled ← definitions.schemas.mapM fun entry =>
    compiler.clean entry.2 entry.1 definitions
  match splitDeclarations? (String.join compiled) with
  | none => .error .overlap
  | some declarations =>
    match declarations.eraseDups with
    | [] => return none
    | distinct => return some ⟨sharedPath, "\n".intercalate distinct⟩

end Output

end OpenApiTs
