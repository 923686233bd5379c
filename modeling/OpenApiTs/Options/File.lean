/-
  OpenApiTs.Options.File

  Options from the text of a configuration file.
-/
import OpenApiTs.Options.Basic
import OpenApiTs.Toml.Read

namespace OpenApiTs

/-- What a configuration file says, defaults filled in. -/
structure ConfigFile where
  openapi : Option String
  outputDir : String
  axiosFilePath : Option String
  requestTemplate : Option String
  successResponseTemplate : Option String
  bannerComment : Option String
  prettierConfig : Option String
  convention : Convention
  header : Bool
  cookie : Bool
deriving DecidableEq, Repr, Inhabited

namespace ConfigFile

/-- The name of the file that is read when none is given. -/
def defaultName : String := "gen-request.toml"

/-- The output directory when the file names none. -/
def defaultOutputDir : String := "./src/api"

/-! ## Entries -/

/-- A text entry that may be absent; any other value is refused. -/
def text? (entries : Entries Toml) (key : String) : Option (Option String) :=
  match entries.lookup key with
  | none => some none
  | some (.text value) => some (some value)
  | some _ => none

/-- A flag that is off when absent; any other value is refused. -/
def flag? (entries : Entries Toml) (key : String) : Option Bool :=
  match entries.lookup key with
  | none => some false
  | some (.flag value) => some value
  | some _ => none

/-- The convention of a word. -/
def conventionOf? : String → Option Convention
  | "default" => some .plain
  | "controller" => some .controller
  | _ => none

/-- The convention, that of controllers when absent: its word, or a table with the word as its one
    key and nothing under it. -/
def convention? (entries : Entries Toml) : Option Convention :=
  match entries.lookup "convention" with
  | none => some .controller
  | some (.text word) => conventionOf? word
  | some (.table _ [(word, .table _ [])]) => conventionOf? word
  | some (.table _ [(word, .list [])]) => conventionOf? word
  | some _ => none

/-! ## Files -/

/-- What the entries of a file say; keys that mean nothing are passed over. -/
def ofEntries? (entries : Entries Toml) : Option ConfigFile := do
  let openapi ← text? entries "openapi"
  let outputDir ← text? entries "output_dir"
  let axiosFilePath ← text? entries "axios_file_path"
  let requestTemplate ← text? entries "request_template"
  let successResponseTemplate ← text? entries "success_response_template"
  let bannerComment ← text? entries "banner_comment"
  let prettierConfig ← text? entries "prettier_config"
  let convention ← convention? entries
  let header ← flag? entries "header"
  let cookie ← flag? entries "cookie"
  return {
      openapi := openapi
      outputDir := outputDir.getD defaultOutputDir
      axiosFilePath := axiosFilePath
      requestTemplate := requestTemplate
      successResponseTemplate := successResponseTemplate
      bannerComment := bannerComment
      prettierConfig := prettierConfig
      convention := convention
      header := header
      cookie := cookie }

/-- What the text of a file says; none when it is not well formed. -/
def read? (text : String) : Option ConfigFile := (Toml.read text).bind ofEntries?

/-- What is said of a file that is not well formed. -/
def malformed : String := "not a configuration of the generator"

/-- What the text of a file says. -/
def read (text : String) : Except Failure ConfigFile :=
  match read? text with
  | some file => .ok file
  | none => .error (.config malformed)

/-- The options that a file gives. -/
def options (file : ConfigFile) : Options :=
  { source := file.openapi.map Source.ofText
    outputDir := some file.outputDir
    axiosFilePath := file.axiosFilePath
    requestTemplate := file.requestTemplate
    successResponseTemplate := file.successResponseTemplate
    bannerComment := file.bannerComment
    prettierConfig := file.prettierConfig
    convention := file.convention
    header := file.header
    cookie := file.cookie
    overrides := Overrides.none }

end ConfigFile

end OpenApiTs
