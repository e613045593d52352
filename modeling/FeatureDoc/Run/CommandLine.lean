import FeatureDoc.Run.Execute

/-!
# The command line

The arguments of the program are paths and options in any order. An option has its value after an
equals sign or in the next argument, which then does not start with a dash; two dashes alone end
the options. Arguments are read from left to right, and the first thing that is wrong, or that
asks for the version, decides.

* `CommandLine.read` reads the arguments.
* `CommandLine.run` is the whole program: the exit status and what it prints.
-/

namespace FeatureDoc.CommandLine

/-- The options that have a value. -/
inductive Flag where
  | tags
  | lines
  | format
  | logLevel
  deriving DecidableEq, Repr

/-- The option of a name. -/
def Flag.ofName? (name : String) : Option Flag :=
  if name = "tags" then some .tags
  else if name = "lines" then some .lines
  else if name = "format" then some .format
  else if name = "log-level" then some .logLevel
  else none

/-- What the arguments ask for. -/
structure Arguments where
  /-- Files and directories. -/
  paths : List String := []
  /-- A tag expression. -/
  tags : Option String := none
  /-- A line range. -/
  lines : Option String := none
  /-- The form of the report. -/
  format : Option Format := none
  /-- How much is logged. -/
  logLevel : Option LogLevel := none
  deriving DecidableEq, Repr

namespace Arguments

/-- Add a path. -/
def addPath (a : Arguments) (path : String) : Arguments := { a with paths := a.paths ++ [path] }

/-- Give an option its value, which has to be a valid one. No option is given twice. -/
def set? (a : Arguments) (flag : Flag) (value : String) : Option Arguments :=
  match flag with
  | .tags => if a.tags.isSome then none else some { a with tags := some value }
  | .lines => if a.lines.isSome then none else some { a with lines := some value }
  | .format =>
    if a.format.isSome then none
    else (Format.parse value).toOption.map fun format => { a with format := some format }
  | .logLevel =>
    if a.logLevel.isSome then none
    else (LogLevel.parse value).toOption.map fun level => { a with logLevel := some level }

end Arguments

/-! ## Reading the arguments -/

/-- What the arguments come to. -/
inductive Invocation where
  /-- A run. -/
  | run (a : Arguments)
  /-- A question for the version. -/
  | version
  /-- A question for help. -/
  | help
  /-- Nothing that makes sense. -/
  | refused
  deriving DecidableEq, Repr

/-- What an argument looks like. -/
inductive Word where
  /-- A path, or the value of an option. A single dash is one. -/
  | plain (text : String)
  /-- Two dashes and a name, with a value after an equals sign if there is one. -/
  | long (name : String) (value : Option String)
  /-- One dash and a letter. -/
  | short (letter : Char)
  /-- Two dashes alone. -/
  | separator
  deriving DecidableEq, Repr

/-- What an argument looks like. -/
def Word.ofString (arg : String) : Word :=
  match arg.toList with
  | ['-', '-'] => .separator
  | '-' :: '-' :: cs =>
    let value := match cs.dropWhile (· != '=') with
      | [] => none
      | _ :: value => some (String.ofList value)
    .long (String.ofList (cs.takeWhile (· != '='))) value
  | '-' :: letter :: _ => .short letter
  | _ => .plain arg

/-- Every run needs a path. -/
def finish (a : Arguments) : Invocation := if a.paths.isEmpty then .refused else .run a

/-- Read arguments on top of those that were read before. -/
def read (a : Arguments) : List String → Invocation
  | [] => finish a
  | arg :: rest =>
    match Word.ofString arg with
    | .plain path => read (a.addPath path) rest
    | .separator => finish { a with paths := a.paths ++ rest }
    | .short 'V' => .version
    | .short 'h' => .help
    | .short _ => .refused
    | .long "version" none => .version
    | .long "help" none => .help
    | .long name value =>
      match Flag.ofName? name, value with
      | none, _ => .refused
      | some flag, some value =>
        match a.set? flag value with
        | some a => read a rest
        | none => .refused
      | some flag, none =>
        match rest with
        | [] => .refused
        | value :: rest =>
          match Word.ofString value with
          | .plain value =>
            match a.set? flag value with
            | some a => read a rest
            | none => .refused
          | _ => .refused

/-! ## Running -/

/-- The exit status of a run and what it prints. -/
structure Outcome where
  /-- The exit status. -/
  code : Nat
  /-- What is printed. -/
  stdout : String
  deriving DecidableEq, Repr

/-- The exit status of a failed run: 1 if something cannot be read or written, 2 if the request is
at fault. A path that is not text counts as a fault of the request. -/
def exitCode : RunError → Nat
  | .unreadable (.directory _) | .unreadable (.file _) | .unwritable _ => 1
  | .setting _ | .filter _ | .pathNotFound _ | .unreadable (.name _) => 2

/-- Run what the arguments ask for. -/
def Arguments.run (a : Arguments) (environment : String → Option String) (disk : Disk) : Outcome :=
  match Settings.ofEnvironment environment with
  | .error e => ⟨exitCode (.setting e), ""⟩
  | .ok settings =>
    let settings := settings.override a.logLevel a.format
    match Request.execute ⟨a.paths, a.tags, a.lines⟩ settings.format disk with
    | .error e => ⟨exitCode e, ""⟩
    | .ok (summary, report) => ⟨if summary.hasFailures then 1 else 0, report⟩

/-- The name of the program and its version. -/
def versionText : String := "gherkin-lite 0.1.0\n"

/-- How the program is called. -/
def usageText : String := "Usage: gherkin-lite [OPTIONS] <PATHS>...\n"

/-- Act on an invocation. -/
def Invocation.outcome (environment : String → Option String) (disk : Disk) : Invocation → Outcome
  | .run a => a.run environment disk
  | .version => ⟨0, versionText⟩
  | .help => ⟨0, usageText⟩
  | .refused => ⟨2, ""⟩

/-- The whole program. -/
def run (args : List String) (environment : String → Option String) (disk : Disk) : Outcome :=
  (read {} args).outcome environment disk

end FeatureDoc.CommandLine
