/-
  OpenApiTs.Options.Basic

  What a caller asks for, and the settings of a run that follow from it.
-/
import OpenApiTs.Endpoint.Resolver
import OpenApiTs.Path

namespace OpenApiTs

/-! ## Sources -/

/-- Where the document comes from. -/
inductive Source where
  | path (path : String)
  | url (url : String)
  | document (document : Json)
deriving Inhabited

namespace Source

/-- Whether a text is the URL of a web page. -/
def isUrl (text : String) : Bool :=
  Text.opensWith "http://" text || Text.opensWith "https://" text

/-- The source that a text names: a URL, else a path. -/
def ofText (text : String) : Source := if isUrl text then .url text else .path text

end Source

/-! ## Options -/

/-- How files and functions are named. -/
inductive Convention where
  /-- Files after the first tag, functions after the operation's identifier. -/
  | plain
  /-- Tags and identifiers of services with controllers. -/
  | controller
deriving DecidableEq, Repr, Inhabited

/-- What a caller asks for. -/
structure Options where
  source : Option Source
  outputDir : Option String
  /-- The module that `request` is imported from. -/
  axiosFilePath : Option String
  /-- An import statement in place of that one. -/
  requestTemplate : Option String
  /-- The type that wraps the data of every response. -/
  successResponseTemplate : Option String
  /-- What every generated file begins with. -/
  bannerComment : Option String
  prettierConfig : Option String
  convention : Convention
  /-- Whether the controller convention has header types. -/
  header : Bool
  /-- Whether the controller convention has cookie types. -/
  cookie : Bool
  /-- The caller's own rules. -/
  overrides : Overrides

namespace Options

/-- Why options do not describe a run. -/
inductive Fault where
  | noSource
  | noOutputDir
  | requestNotImported (template : String)
deriving DecidableEq, Repr

/-- The fault in words. -/
def Fault.message : Fault → String
  | noSource => "openapi is required"
  | noOutputDir => "outputDir is required"
  | requestNotImported template =>
    "requestTemplate must import `request`, e.g. import \x7b request \x7d from " ++
      "\"../utils/request\" (got `" ++ template ++ "`)"

/-- The fault as a failure. -/
def Fault.failure (fault : Fault) : Failure := .config fault.message

/-- The first fault in what concerns the output. -/
def outputFault? (options : Options) : Option Fault :=
  if options.outputDir.getD "" = "" then some .noOutputDir
  else
    match options.requestTemplate with
    | some template =>
      if Text.contains "request" template then none else some (.requestNotImported template)
    | none => none

/-- The first fault of the options. -/
def fault? (options : Options) : Option Fault :=
  match options.source with
  | none => some .noSource
  | some _ => options.outputFault?

/-- Whether the options describe a run. -/
def validate (options : Options) : Except Failure Unit :=
  match options.fault? with
  | some fault => .error fault.failure
  | none => .ok ()

/-- The rules of the convention with the caller's over them. -/
def allOverrides (options : Options) : Overrides :=
  match options.convention with
  | .plain => Overrides.none.extend options.overrides
  | .controller => (Overrides.controller options.header options.cookie).extend options.overrides

end Options

/-! ## Settings -/

/-- What every generated file begins with when the caller says nothing else. -/
def defaultBanner : String :=
  "/* eslint-disable */\n// @ts-nocheck\n/**\n" ++
    " * This file is generated by openapi-gen-request, do not edit it by hand.\n" ++
    " * Change the source document and regenerate instead.\n */\n\n"

/-- The module that `request` is imported from when the caller says nothing else. -/
def defaultAxiosFilePath : String := "axios"

/-- The settings of a run, with every default filled in. -/
structure Settings where
  outputDir : String
  axiosFilePath : String
  requestTemplate : Option String
  successResponseTemplate : Option String
  bannerComment : String
  prettierConfig : Option String
  resolver : Resolver

/-- A text, or the default for it when it is absent or empty. -/
def orDefault (text : Option String) (default : String) : String :=
  (text.filter fun text => text ≠ "").getD default

/-- The settings that options lead to. A relative output directory is seen from `cwd`; an absolute
    module path becomes relative to the directory of the request functions. -/
def Options.settings (options : Options) (compiler : Schema.Compiler) (definitions : Definitions)
    (cwd : String) : Except Failure Settings :=
  match options.outputFault? with
  | some fault => .error fault.failure
  | none =>
    let outputDir := Path.join cwd (options.outputDir.getD "")
    let axios := orDefault options.axiosFilePath defaultAxiosFilePath
    .ok
      { outputDir := outputDir
        axiosFilePath :=
          if Path.isAbsolute axios then Path.relative (Path.join outputDir "apis") axios else axios
        requestTemplate := options.requestTemplate
        successResponseTemplate := options.successResponseTemplate
        bannerComment := orDefault options.bannerComment defaultBanner
        prettierConfig := options.prettierConfig
        resolver := (Resolver.standard compiler definitions).merge options.allOverrides }

end OpenApiTs
