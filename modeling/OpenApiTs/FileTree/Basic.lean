/-
  OpenApiTs.FileTree.Basic

  A tree of directories and text files without links, as a list of places, and what the system calls
  of POSIX do to it: they answer an error or a new tree.
-/
import OpenApiTs.Path

namespace OpenApiTs

/-- What stands at a place. -/
inductive Node where
  | directory
  | file (text : String)
deriving DecidableEq, Repr, Inhabited

/-- The names that lead from the root to a place. -/
abbrev Place := List String

/-- The places below the root with what stands there. The root is a directory. -/
abbrev FileTree := List (Place × Node)

/-- The errors of system calls. A path with a zero character cannot even be handed to one. -/
inductive SystemError where
  | notFound
  | alreadyExists
  | notADirectory
  | isADirectory
  | invalidArgument
  | nameTooLong
  | notEmpty
  | zeroInPath
deriving DecidableEq, Repr, Inhabited

/-- The error in the words of the system. -/
def SystemError.message : SystemError → String
  | notFound => "No such file or directory (os error 2)"
  | alreadyExists => "File exists (os error 17)"
  | notADirectory => "Not a directory (os error 20)"
  | isADirectory => "Is a directory (os error 21)"
  | invalidArgument => "Invalid argument (os error 22)"
  | nameTooLong => "File name too long (os error 36)"
  | notEmpty => "Directory not empty (os error 39)"
  | zeroInPath => "file name contained an unexpected NUL byte"

namespace FileTree

/-! ## Looking -/

/-- What stands at a place. -/
def node? (tree : FileTree) (place : Place) : Option Node :=
  if place = [] then some .directory else tree.lookup place

/-- The bytes that one part of a path may have. -/
def longestName : Nat := 255

/-- A path as an argument of a system call. -/
def takePath (path : String) : Except SystemError Unit :=
  if path.toList.any (·.toNat == 0) then .error .zeroInPath else .ok ()

/-- The place as one that a part of a path may follow. -/
def enter (tree : FileTree) (place : Place) (part : String) : Except SystemError Unit :=
  match tree.node? place with
  | some .directory =>
    if longestName < part.utf8ByteSize then .error .nameTooLong else .ok ()
  | some (.file _) => .error .notADirectory
  | none => .error .notFound

/-- The place next to a directory under one part of a path. -/
def next (place : Place) (part : String) : Place :=
  if part = "." then place else if part = ".." then place.dropLast else place ++ [part]

/-- The place that parts lead to; every place that another part follows is a directory. -/
def walk (tree : FileTree) : Place → List String → Except SystemError Place
  | place, [] => .ok place
  | place, part :: parts => do
    tree.enter place part
    walk tree (next place part) parts

/-- The parts of a path, `.` included. -/
def partsOf (path : String) : List String :=
  (Text.pieces '/' path).filter fun part => part ≠ ""

/-- Whether only a directory can stand at a path, by the way it ends. -/
def endsInSlash (path : String) : Bool := Text.closesWith "/" path

/-- The place of a path that is there, and what stands at it. -/
def stat (tree : FileTree) (path : String) : Except SystemError (Place × Node) := do
  takePath path
  let place ← tree.walk [] (partsOf path)
  match tree.node? place with
  | none => .error .notFound
  | some (.file text) =>
    if endsInSlash path then .error .notADirectory else .ok (place, .file text)
  | some .directory => .ok (place, .directory)

/-- Whether something stands at a path. -/
def isThere (tree : FileTree) (path : String) : Bool :=
  match tree.stat path with
  | .ok _ => true
  | .error _ => false

/-- Whether parts lead to a directory. -/
def isDirectory (tree : FileTree) (parts : List String) : Bool :=
  match tree.walk [] parts with
  | .ok place => tree.node? place == some .directory
  | .error _ => false

/-- The text of a file. -/
def readFile (tree : FileTree) (path : String) : Except SystemError String := do
  let found ← tree.stat path
  match found.2 with
  | .file text => .ok text
  | .directory => .error .isADirectory

/-- What stands below a place, each place seen from there: a directory before what it holds, and
    names in the order of their code points. -/
def below (tree : FileTree) (place : Place) : List (Place × Node) :=
  let inside := (tree.filter fun entry => place.isPrefixOf entry.1 && entry.1 != place).map
    fun entry => (entry.1.drop place.length, entry.2)
  inside.mergeSort fun a b => !decide (b.1 < a.1)

/-! ## Changing -/

/-- The tree with something at a place, in place of what stood there. -/
def set (tree : FileTree) (place : Place) (node : Node) : FileTree :=
  match tree with
  | [] => [(place, node)]
  | entry :: others =>
    if entry.1 = place then (place, node) :: others else entry :: set others place node

/-- Whether a part names no new place. -/
def isDots (part : String) : Bool := part == "." || part == ".."

/-- One new directory at the end of parts. -/
def makeDirectory (tree : FileTree) (parts : List String) : Except SystemError FileTree :=
  match parts.getLast? with
  | none => .error .alreadyExists
  | some last => do
    let above ← tree.walk [] parts.dropLast
    tree.enter above last
    if isDots last then .error .alreadyExists
    else
      match tree.node? (above ++ [last]) with
      | some _ => .error .alreadyExists
      | none => .ok (tree.set (above ++ [last]) .directory)

/-- Parts in reverse without the last one, and without the `.` parts around it. -/
def above? (reversed : List String) : Option (List String) :=
  match reversed.dropWhile (· == ".") with
  | [] => none
  | _ :: others => some (others.dropWhile (· == "."))

theorem length_dropWhile_le {α : Type} (p : α → Bool) (items : List α) :
    (items.dropWhile p).length ≤ items.length :=
  (List.dropWhile_suffix p).length_le

theorem length_of_above? {reversed above : List String} (h_above : above? reversed = some above) :
    above.length < reversed.length := by
  unfold above? at h_above
  have h_first := length_dropWhile_le (· == ".") reversed
  split at h_above
  · cases h_above
  · next part others h_parts =>
    cases h_above
    rw [h_parts, List.length_cons] at h_first
    have h_second := length_dropWhile_le (· == ".") others
    omega

/-- A directory at the end of parts, given in reverse, with every directory on the way that is
    missing. The tree of a failure has those that were made before it. -/
def makeDirectories (tree : FileTree) (reversed : List String) :
    Except SystemError Unit × FileTree :=
  match tree.makeDirectory reversed.reverse with
  | .ok made => (.ok (), made)
  | .error error =>
    if error = .notFound then
      match _h_above : above? reversed with
      | none => (.error .notFound, tree)
      | some above =>
        match makeDirectories tree above with
        | (.error error, tree) => (.error error, tree)
        | (.ok (), tree) =>
          match tree.makeDirectory reversed.reverse with
          | .ok made => (.ok (), made)
          | .error error =>
            if tree.isDirectory reversed.reverse then (.ok (), tree) else (.error error, tree)
    else if tree.isDirectory reversed.reverse then (.ok (), tree)
    else (.error error, tree)
termination_by reversed.length
decreasing_by exact length_of_above? _h_above

/-- The directory of a path, with every directory on the way that is missing. -/
def ensureDirectory (tree : FileTree) (path : String) : Except SystemError Unit × FileTree :=
  if path = "" then (.ok (), tree)
  else
    match takePath path with
    | .error error => (.error error, tree)
    | .ok () => tree.makeDirectories (partsOf path).reverse

/-- The tree without everything below a place. -/
def emptyAt (tree : FileTree) (place : Place) : FileTree :=
  tree.filter fun entry => !place.isPrefixOf entry.1 || entry.1 == place

/-- The tree without a place and everything below it. -/
def removeAt (tree : FileTree) (place : Place) : FileTree :=
  tree.filter fun entry => !place.isPrefixOf entry.1

/-- The tree without the empty directory that parts lead to. One that is called by dots is not
    removed, and one that cannot be found any more needs no removal. -/
def removeEmpty (tree : FileTree) (parts : List String) : Except SystemError FileTree :=
  match parts.getLast? with
  | none => .ok tree
  | some last =>
    match tree.walk [] parts.dropLast with
    | .error .notFound => .ok tree
    | .error error => .error error
    | .ok above =>
      match tree.enter above last with
      | .error .notFound => .ok tree
      | .error error => .error error
      | .ok () =>
        if last = "." then .error .invalidArgument
        else if last = ".." then .error .notEmpty
        else .ok (tree.removeAt (above ++ [last]))

/-- A directory removed with everything below it, from the inside out. What stood in it is gone even
    if the directory itself cannot be removed. -/
def removeDirectory (tree : FileTree) (path : String) : Except SystemError Unit × FileTree :=
  match tree.stat path with
  | .error error => (.error error, tree)
  | .ok (_, .file _) => (.error .notADirectory, tree)
  | .ok (place, .directory) =>
    let emptied := tree.emptyAt place
    match emptied.removeEmpty (partsOf path) with
    | .ok removed => (.ok (), removed)
    | .error error => (.error error, emptied)

/-- A file with a text at a path. A file that stands there is replaced. -/
def writeFile (tree : FileTree) (path text : String) : Except SystemError FileTree := do
  takePath path
  let parts := partsOf path
  match parts.getLast? with
  | none => .error .isADirectory
  | some last =>
    let above ← tree.walk [] parts.dropLast
    tree.enter above last
    if isDots last ∨ endsInSlash path then .error .isADirectory
    else
      match tree.node? (above ++ [last]) with
      | some .directory => .error .isADirectory
      | _ => .ok (tree.set (above ++ [last]) (.file text))

end FileTree

end OpenApiTs
