/-
  OpenApiTs.Main

  The command line program: the services of a run on the files of the system.
-/
import OpenApiTs.CommandLine
import OpenApiTs.Workspace.Basic

namespace OpenApiTs.Program

/-- An action whose errors are answered in words. -/
def attempt (action : IO Unit) (fault : String → Failure) : IO (Except Failure Unit) := do
  match ← action.toBaseIO with
  | .ok () => return .ok ()
  | .error error => return .error (fault (toString error))

/-- The document in a file. -/
def load (cwd source : String) : IO (Except Failure Json) := do
  if Source.isUrl source then
    return .error (Workspace.LoadFault.unreachable source).failure
  let path := Path.join cwd source
  match ← (IO.FS.readFile path).toBaseIO with
  | .error error =>
    return .error (.load ("cannot read " ++ source ++ " (" ++ path ++ "): " ++ toString error))
  | .ok text =>
    match Workspace.parseDocument? source text with
    | some document => return .ok document
    | none => return .error (Workspace.LoadFault.notADocument source).failure

/-- One file with a banner in front, below a directory. -/
def writeFile (directory banner : String) (file : OutputFile) : IO Unit := do
  let path := Path.join directory file.path
  if let some parent := Path.parent? path then
    IO.FS.createDirAll parent
  IO.FS.writeFile path (banner ++ file.content)

/-- A directory replaced by files. -/
def write (directory banner : String) (files : List OutputFile) : IO (Except Failure Unit) :=
  attempt
    (do
      IO.FS.createDirAll directory
      IO.FS.removeDirAll directory
      for name in Workspace.subdirectories do
        IO.FS.createDirAll (Path.join directory name)
      files.forM (writeFile directory banner))
    .output

/-- The services of a run on the system. Formatting is left to the caller, who is told what to
    run. -/
def services (cwd : String) : Services IO where
  load := load cwd
  write := write
  format directory config :=
    IO.eprintln ("format with: " ++ (Workspace.formatCommand cwd directory config).text)

/-- A run with options, and its exit code. -/
def run (cwd : String) (options : Options) : IO UInt32 := do
  match ← (Stages.standard Schema.typeScript cwd).run (services cwd) options with
  | .error failure =>
    IO.eprintln failure.message
    return 1
  | .ok summary =>
    IO.println ("Generated " ++ toString summary.files ++ " files for " ++
      toString summary.operations ++ " operations in " ++ summary.outputDir)
    return 0

/-- A run with the options of a configuration file. -/
def runFile (cwd path : String) : IO UInt32 := do
  match ← (IO.FS.readFile path).toBaseIO with
  | .error error =>
    IO.eprintln
      (Failure.config ("cannot read config file " ++ path ++ ": " ++ toString error)).message
    return 1
  | .ok text =>
    match ConfigFile.read text with
    | .error failure =>
      IO.eprintln failure.message
      return 1
    | .ok file => run cwd file.options

end OpenApiTs.Program

/-- The program. -/
def main (arguments : List String) : IO UInt32 := do
  let cwd := toString (← IO.currentDir)
  match OpenApiTs.CommandLine.read arguments with
  | .error fault =>
    IO.eprintln ("error: " ++ fault.message)
    return 2
  | .ok (.generate options) => OpenApiTs.Program.run cwd options
  | .ok (.fromConfig file) => OpenApiTs.Program.runFile cwd (OpenApiTs.Path.join cwd file)
