/-
  OpenApiTs.Path

  POSIX paths as texts: joining, normal form and the relative path between two places.
-/
import OpenApiTs.Text.Basic

namespace OpenApiTs.Path

/-! ## Joining -/

/-- Whether a path starts at the root. -/
def isAbsolute (path : String) : Bool := Text.opensWith "/" path

/-- A path seen from a directory. An absolute path stays; else one slash divides the two. -/
def join (directory path : String) : String :=
  if isAbsolute path then path
  else if directory = "" ∨ Text.closesWith "/" directory then directory ++ path
  else directory ++ "/" ++ path

/-! ## Parts -/

/-- The parts of a path that name something, `..` included. -/
def parts (path : String) : List String :=
  (Text.pieces '/' path).filter fun part => part ≠ "" ∧ part ≠ "."

/-- The names that lead to a place, `..` taking back the name before it. -/
def resolveParts : List String → List String → List String
  | done, [] => done
  | done, part :: others =>
    if part = ".." then resolveParts done.dropLast others else resolveParts (done ++ [part]) others

/-- The names that lead from the root to a place. -/
def normal (path : String) : List String := resolveParts [] (parts path)

/-! ## Relative paths -/

/-- How many names two lists share at their front. -/
def sharedLength : List String → List String → Nat
  | a :: as, b :: bs => if a = b then sharedLength as bs + 1 else 0
  | _, _ => 0

/-- The steps that lead from one place to another: up to the last place that they share, and
    down. -/
def steps (source target : List String) : List String :=
  let shared := sharedLength source target
  List.replicate (source.length - shared) ".." ++ target.drop shared

/-- The relative path from a directory to a place. -/
def relative (source target : String) : String :=
  "/".intercalate (steps (normal source) (normal target))

/-! ## Directories -/

/-- Whether a part names the place that it stands in. -/
def isIdle (part : List Char) : Bool := part.isEmpty || part == ['.']

/-- The path of the directory that an absolute path stands in, as a text; none for the root. Slashes
    and `.` parts at its end are dropped. -/
def parent? (path : String) : Option String :=
  match (Text.Chars.pieces (· == '/') path.toList).reverse.dropWhile isIdle with
  | [] => none
  | _ :: above =>
    match above.dropWhile isIdle with
    | [] => some (if isAbsolute path then "/" else "")
    | kept => some (String.ofList (List.intercalate ['/'] kept.reverse))

end OpenApiTs.Path
