import Entitle.Config.Environment
import Entitle.Config.File
import Entitle.Text.Utf8

/-!
Where a configuration comes from.

The first of these that is there is the source, and nothing behind it counts: the file that a variable names,
the text in a variable, the first default file, the defaults. The variables of single fields override it.
-/

namespace Entitle.Config

/-- What can be read from each path. -/
abbrev Files := String → Except FileFault Bytes

/-- The files that are looked for when nothing else is given. -/
def defaultFiles : List String :=
  ["./purchases.toml", "./.purchases.toml"]

/-- A source of a configuration. -/
inductive Source where
  | file (path : String)
  | variableText (text : String)
  | defaults
  deriving DecidableEq, Repr

/-- Something lies at a path. -/
def exists? (files : Files) (path : String) : Bool :=
  match files path with
  | .ok _ => true
  | .error fault => !fault.isMissing

/-- The source that counts. -/
def source (env : Environment) (files : Files) : Source :=
  match env "CONFIG" with
  | some path => .file path
  | none =>
    match env "CONFIG_CONTENT" with
    | some text => .variableText text
    | none =>
      match defaultFiles.find? (exists? files) with
      | some path => .file path
      | none => .defaults

/-- The configuration in a file. -/
def readFile (files : Files) (path : String) : Except LoadFault Config :=
  match files path with
  | .error fault => .error (.unreadableFile path fault)
  | .ok bytes =>
    match Text.ofUtf8? bytes with
    | none => .error (.unreadableFile path .notText)
    | some text =>
      match ofText? text with
      | some config => .ok config
      | none => .error (.badFile path)

/-- The configuration of a source. -/
def Source.read (files : Files) : Source → Except LoadFault Config
  | .file path => readFile files path
  | .variableText text =>
    match ofText? text with
    | some config => .ok config
    | none => .error .badVariableText
  | .defaults => .ok {}

/-- Loads the configuration from its source and the overriding variables. -/
def load (env : Environment) (files : Files) : Except LoadFault Config := do
  withEnvironment env (← (source env files).read files)

/-- Loads the configuration from a file and the overriding variables. -/
def loadFile (env : Environment) (files : Files) (path : String) : Except LoadFault Config := do
  withEnvironment env (← readFile files path)

/-- Loads the configuration from a text, if one is given, and the overriding variables. -/
def loadText (env : Environment) (text : Option String) : Except LoadFault Config := do
  match text with
  | none => withEnvironment env {}
  | some text =>
    match ofText? text with
    | some config => withEnvironment env config
    | none => .error .badText

end Entitle.Config
