/-
  OpenApiTs.Generation.Run

  A whole run: load, upgrade, generate, write, format. What touches the world is behind services,
  so the same run works on files, on a tree in memory, and on a record of what was asked of the
  services.
-/
import OpenApiTs.Generation.Basic

namespace OpenApiTs

/-- What a run needs of the world. -/
structure Services (m : Type → Type) where
  /-- The document at a path or URL. -/
  load : String → m (Except Failure Json)
  /-- Files written under a directory, each with a banner in front. -/
  write : String → String → List OutputFile → m (Except Failure Unit)
  /-- The files of a directory formatted, by a configuration if there is one. -/
  format : String → Option String → m Unit

/-- The two stages of a run between loading and writing. -/
structure Stages where
  upgrade : Json → Except Failure Json
  generate : Json → Options → Except Failure Generation

/-- What a run that succeeds reports. -/
structure Summary where
  outputDir : String
  files : Nat
  operations : Nat
deriving DecidableEq, Repr, Inhabited

namespace Stages

/-- The stages of the generator. -/
def standard (compiler : Schema.Compiler) (cwd : String) : Stages :=
  ⟨Swagger.upgrade, Generation.ofDocument compiler cwd⟩

variable {m : Type → Type} [Monad m]

/-- The document of the options. -/
def loadDocument (services : Services m) (options : Options) : m (Except Failure Json) :=
  match options.source with
  | some (.document document) => pure (.ok document)
  | some (.path path) => services.load path
  | some (.url url) => services.load url
  | none => pure (.error Options.Fault.noSource.failure)

/-- What is generated from a loaded document. -/
def produce (stages : Stages) (options : Options) (document : Json) :
    Except Failure Generation := do
  let upgraded ← stages.upgrade document
  stages.generate upgraded options

/-- What was generated written and formatted. -/
def publish (services : Services m) (generation : Generation) : m (Except Failure Summary) := do
  let settings := generation.settings
  match ← services.write settings.outputDir settings.bannerComment generation.files with
  | .error failure => pure (.error failure)
  | .ok () =>
    services.format settings.outputDir settings.prettierConfig
    pure (.ok ⟨settings.outputDir, generation.files.length, generation.operations⟩)

/-- A run. Options are validated before any service is asked, and the first failure ends it. -/
def run (stages : Stages) (services : Services m) (options : Options) :
    m (Except Failure Summary) :=
  match options.validate with
  | .error failure => pure (.error failure)
  | .ok () => do
    match ← loadDocument services options with
    | .error failure => pure (.error failure)
    | .ok document =>
      match stages.produce options document with
      | .error failure => pure (.error failure)
      | .ok generation => publish services generation

end Stages

/-! ## Records -/

/-- What a run asked of a service. -/
inductive Request where
  | load (source : String)
  | write (directory banner : String) (files : List OutputFile)
  | format (directory : String) (config : Option String)
deriving DecidableEq, Repr, Inhabited

/-- Services with answers given beforehand. The state is the list of what was asked. -/
def Services.recording (loaded : String → Except Failure Json)
    (written : String → String → List OutputFile → Except Failure Unit) :
    Services (StateM (List Request)) where
  load source := do
    modify (· ++ [.load source])
    return loaded source
  write directory banner files := do
    modify (· ++ [.write directory banner files])
    return written directory banner files
  format directory config := modify (· ++ [.format directory config])

end OpenApiTs
