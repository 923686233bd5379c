/-
  OpenApiTs.Workspace.Basic

  A run in a directory of a file tree: documents and configurations are read from it, files are
  written to it, and the formatter's commands are collected.
-/
import OpenApiTs.FileTree.Basic
import OpenApiTs.Generation.Run
import OpenApiTs.Json.Flow
import OpenApiTs.Options.File

namespace OpenApiTs.Workspace

/-! ## Documents -/

/-- Why a document cannot be loaded. -/
inductive LoadFault where
  | absent (source path : String) (error : SystemError)
  | notAFile (source : String)
  | unreadable (source path : String) (error : SystemError)
  | notADocument (source : String)
  | notAUrl (source : String)
  | unreachable (source : String)
deriving DecidableEq, Repr

/-- The fault in words. -/
def LoadFault.message : LoadFault → String
  | absent source path error => source ++ " does not exist (" ++ path ++ "): " ++ error.message
  | notAFile source => source ++ " is not a file"
  | unreadable source path error =>
    "cannot read " ++ source ++ " (" ++ path ++ "): " ++ error.message
  | notADocument source => source ++ " is not a valid OpenAPI document: the text cannot be read"
  | notAUrl source => "HttpOpenApiLoader only handles HTTP(S) URLs, got: " ++ source
  | unreachable source => "request to " ++ source ++ " failed: there is no network"

/-- The fault as a failure. -/
def LoadFault.failure (fault : LoadFault) : Failure := .load fault.message

/-- Whether a source is named as a YAML file. -/
def isYaml (source : String) : Bool :=
  Text.closesWith ".yaml" source || Text.closesWith ".yml" source

/-- The document of a text, by the name of its source. -/
def parseDocument? (source text : String) : Option Json :=
  if isYaml source then Json.readFlow text else Json.read text

/-- The document in a file. A relative path is seen from `cwd`. -/
def loadFile? (cwd : String) (tree : FileTree) (source : String) : Except LoadFault Json :=
  let path := Path.join cwd source
  match tree.stat path with
  | .error error => .error (.absent source path error)
  | .ok (_, .directory) => .error (.notAFile source)
  | .ok (_, .file text) =>
    match parseDocument? source text with
    | some document => .ok document
    | none => .error (.notADocument source)

/-- The document at a URL. Only web addresses are taken, and a tree has no network. -/
def loadUrl? (source : String) : Except LoadFault Json :=
  if Source.isUrl source then .error (.unreachable source) else .error (.notAUrl source)

/-- The document of a source. -/
def load? (cwd : String) (tree : FileTree) (source : String) : Except LoadFault Json :=
  if Source.isUrl source then loadUrl? source else loadFile? cwd tree source

/-! ## Configuration files -/

/-- The configuration in a file. -/
def loadConfig (tree : FileTree) (path : String) : Except Failure ConfigFile :=
  match tree.readFile path with
  | .error error => .error (.config ("cannot read config file " ++ path ++ ": " ++ error.message))
  | .ok text =>
    match ConfigFile.read? text with
    | some file => .ok file
    | none => .error (.config (path ++ ": " ++ ConfigFile.malformed))

/-! ## Output -/

/-- Why files cannot be written. -/
inductive WriteFault where
  | removing (path : String) (error : SystemError)
  | makingDirectory (path : String) (error : SystemError)
  | makingFile (path : String) (error : SystemError)
deriving DecidableEq, Repr

/-- The fault in words. -/
def WriteFault.message : WriteFault → String
  | removing path error => "Failed to remove directory " ++ path ++ ": " ++ error.message
  | makingDirectory path error => "Failed to create directory " ++ path ++ ": " ++ error.message
  | makingFile path error => "Failed to create file " ++ path ++ ": " ++ error.message

/-- The fault as a failure. -/
def WriteFault.failure (fault : WriteFault) : Failure := .output fault.message

/-- What a step of writing answers, with the tree after it. -/
abbrev Written := Except WriteFault Unit × FileTree

/-- One step after another, the second only if the first succeeds. -/
def Written.then (first : Written) (second : FileTree → Written) : Written :=
  match first with
  | (.ok (), tree) => second tree
  | (.error fault, tree) => (.error fault, tree)

/-- The directories that every output directory has. -/
def subdirectories : List String := ["apis", "types"]

/-- A directory made with those above it. -/
def ensure (tree : FileTree) (path : String) : Written :=
  match tree.ensureDirectory path with
  | (.ok (), tree) => (.ok (), tree)
  | (.error error, tree) => (.error (.makingDirectory path error), tree)

/-- An output directory removed, if it is there. -/
def clear (tree : FileTree) (directory : String) : Written :=
  if tree.isThere directory then
    match tree.removeDirectory directory with
    | (.ok (), tree) => (.ok (), tree)
    | (.error error, tree) => (.error (.removing directory error), tree)
  else (.ok (), tree)

/-- The subdirectories of an output directory, made in order. -/
def ensureAll (directory : String) : List String → FileTree → Written
  | [], tree => (.ok (), tree)
  | name :: names, tree =>
    (ensure tree (Path.join directory name)).then (ensureAll directory names)

/-- A file with a banner, the directories above it made first. -/
def writeFile (directory banner : String) (file : OutputFile) (tree : FileTree) : Written :=
  let path := Path.join directory file.path
  let above :=
    match Path.parent? path with
    | some parent => ensure tree parent
    | none => (.ok (), tree)
  above.then fun tree =>
    match tree.writeFile path (banner ++ file.content) with
    | .ok tree => (.ok (), tree)
    | .error error => (.error (.makingFile path error), tree)

/-- Files with a banner, in order. -/
def writeFiles (directory banner : String) : List OutputFile → FileTree → Written
  | [], tree => (.ok (), tree)
  | file :: files, tree =>
    (writeFile directory banner file tree).then (writeFiles directory banner files)

/-- An output directory replaced by files. -/
def writeOutput (tree : FileTree) (directory banner : String) (files : List OutputFile) : Written :=
  (clear tree directory).then fun tree =>
    (ensureAll directory subdirectories tree).then (writeFiles directory banner files)

/-! ## Formatting -/

/-- A program with its arguments. -/
structure Command where
  program : String
  arguments : List String
deriving DecidableEq, Repr, Inhabited

/-- A command in one line. -/
def Command.text (command : Command) : String :=
  " ".intercalate (command.program :: command.arguments)

/-- Where a project has its formatter. -/
def formatter (cwd : String) : String :=
  Path.join (Path.join (Path.join cwd "node_modules") ".bin") "prettier"

/-- The command that formats an output directory. -/
def formatCommand (cwd directory : String) (config : Option String) : Command :=
  let configured :=
    match config with
    | some path => ["--config", path]
    | none => []
  ⟨formatter cwd, configured ++ ["--write", directory ++ "/**/*"]⟩

/-! ## Services -/

/-- A file tree, and the commands that were handed out. -/
structure State where
  tree : FileTree
  commands : List Command

/-- The services of a run in the directory `cwd` of a tree. A project without the formatter is not
    formatted. -/
def services (cwd : String) : Services (StateM State) where
  load source := do
    let state ← get
    return (load? cwd state.tree source).mapError LoadFault.failure
  write directory banner files := do
    let state ← get
    let written := writeOutput state.tree directory banner files
    set { state with tree := written.2 }
    return written.1.mapError WriteFault.failure
  format directory config := do
    let state ← get
    if state.tree.isThere (formatter cwd) then
      set { state with commands := state.commands ++ [formatCommand cwd directory config] }

/-- A run in the directory `cwd` of a tree. -/
def run (cwd : String) (options : Options) (state : State) : Except Failure Summary × State :=
  (Stages.standard Schema.typeScript cwd).run (services cwd) options state

end OpenApiTs.Workspace
