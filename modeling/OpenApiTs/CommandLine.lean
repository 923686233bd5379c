/-
  OpenApiTs.CommandLine

  The arguments of the command line: generate from flags, or from a configuration file.
-/
import OpenApiTs.Options.File

namespace OpenApiTs.CommandLine

/-- What the command line asks for. -/
inductive Command where
  | generate (options : Options)
  | fromConfig (file : String)

/-- Why arguments make no command. -/
inductive Fault where
  | noCommand
  | unknownCommand (word : String)
  | unknownFlag (word : String)
  | noValue (flag : String)
  | unknownConvention (word : String)
deriving DecidableEq, Repr

/-- The fault in words. -/
def Fault.message : Fault → String
  | noCommand => "a command is required: generate or from-config"
  | unknownCommand word => "unrecognized command '" ++ word ++ "'"
  | unknownFlag word => "unexpected argument '" ++ word ++ "'"
  | noValue flag => "a value is required for '" ++ flag ++ "'"
  | unknownConvention word => "invalid convention '" ++ word ++ "', expected default or controller"

/-- Options before any flag is read. -/
def noOptions : Options :=
  { source := none, outputDir := none, axiosFilePath := none, requestTemplate := none,
    successResponseTemplate := none, bannerComment := none, prettierConfig := none,
    convention := .plain, header := false, cookie := false, overrides := Overrides.none }

/-- The options with one flag and its value taken in. -/
def withValue (options : Options) (flag value : String) : Except Fault Options :=
  match flag with
  | "--openapi" => .ok { options with source := some (Source.ofText value) }
  | "--output-dir" => .ok { options with outputDir := some value }
  | "--axios-file-path" => .ok { options with axiosFilePath := some value }
  | "--request-template" => .ok { options with requestTemplate := some value }
  | "--success-response-template" => .ok { options with successResponseTemplate := some value }
  | "--banner-comment" => .ok { options with bannerComment := some value }
  | "--prettier-config" => .ok { options with prettierConfig := some value }
  | "--convention" =>
    match ConfigFile.conventionOf? value with
    | some convention => .ok { options with convention }
    | none => .error (.unknownConvention value)
  | _ => .error (.unknownFlag flag)

/-- The options that flags give. -/
def readFlags (options : Options) : List String → Except Fault Options
  | [] => .ok options
  | "--header" :: words => readFlags { options with header := true } words
  | "--cookie" :: words => readFlags { options with cookie := true } words
  | [flag] => .error (.noValue flag)
  | flag :: value :: words => do
    let options ← withValue options flag value
    readFlags options words

/-- The command of the arguments. -/
def read : List String → Except Fault Command
  | [] => .error .noCommand
  | "generate" :: words => (readFlags noOptions words).map .generate
  | ["from-config"] => .ok (.fromConfig ConfigFile.defaultName)
  | ["from-config", "--file", file] => .ok (.fromConfig file)
  | "from-config" :: word :: _ => .error (.unknownFlag word)
  | word :: _ => .error (.unknownCommand word)

end OpenApiTs.CommandLine
