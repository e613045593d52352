/-!
# Settings

The log level and the format of the report. Both have a default, which the environment may
replace; the command line goes over the environment.
-/

namespace FeatureDoc

/-- How much is logged. -/
inductive LogLevel where
  | trace
  | debug
  | info
  | warn
  | error
  deriving DecidableEq, Repr

/-- The form of a report. -/
inductive Format where
  | text
  | json
  deriving DecidableEq, Repr

/-- A setting that is not among the choices. -/
inductive SettingError where
  | unknownLogLevel (text : String)
  | unknownFormat (text : String)
  deriving DecidableEq, Repr

/-- The wording of a setting error. -/
def SettingError.message : SettingError → String
  | .unknownLogLevel text =>
    "invalid configuration: unknown log level '" ++ text
      ++ "', expected one of: trace, debug, info, warn, error"
  | .unknownFormat text =>
    "invalid configuration: unknown report format '" ++ text ++ "', expected one of: text, json"

/-- A text in small letters. The choices have ASCII letters only, and no other capital letter
becomes one of these. -/
def lowercase (s : String) : String := String.ofList (s.toList.map Char.toLower)

namespace LogLevel

/-- The name of a level. -/
def name : LogLevel → String
  | .trace => "trace"
  | .debug => "debug"
  | .info => "info"
  | .warn => "warn"
  | .error => "error"

/-- The level that a text names, in capital or small letters. -/
def parse (text : String) : Except SettingError LogLevel :=
  match lowercase text with
  | "trace" => .ok .trace
  | "debug" => .ok .debug
  | "info" => .ok .info
  | "warn" => .ok .warn
  | "warning" => .ok .warn
  | "error" => .ok .error
  | _ => .error (.unknownLogLevel text)

end LogLevel

namespace Format

/-- The name of a format. -/
def name : Format → String
  | .text => "text"
  | .json => "json"

/-- The format that a text names, in capital or small letters. -/
def parse (text : String) : Except SettingError Format :=
  match lowercase text with
  | "text" => .ok .text
  | "json" => .ok .json
  | _ => .error (.unknownFormat text)

end Format

/-- How a run behaves. -/
structure Settings where
  /-- How much is logged. -/
  logLevel : LogLevel := .warn
  /-- The form of the report. -/
  format : Format := .text
  deriving DecidableEq, Repr

namespace Settings

/-- The variable that sets the log level. -/
def logLevelVariable : String := "GHERKIN_LITE_LOG_LEVEL"

/-- The variable that sets the format. -/
def formatVariable : String := "GHERKIN_LITE_FORMAT"

/-- Replace the settings that are given. -/
def override (s : Settings) (logLevel : Option LogLevel) (format : Option Format) : Settings :=
  ⟨logLevel.getD s.logLevel, format.getD s.format⟩

/-- The settings of an environment. -/
def ofEnvironment (lookup : String → Option String) : Except SettingError Settings := do
  let logLevel ← (lookup logLevelVariable).mapM LogLevel.parse
  let format ← (lookup formatVariable).mapM Format.parse
  return ({} : Settings).override logLevel format

end Settings

end FeatureDoc
