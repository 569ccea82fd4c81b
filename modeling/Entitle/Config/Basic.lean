import Entitle.Flight.Dispatcher

/-!
The configuration of a client, with its defaults.
-/

namespace Entitle

/-- How log lines are written. -/
inductive LogFormat where
  | text
  | json
  deriving DecidableEq, Repr

/-- The format's name. -/
def LogFormat.name : LogFormat → String
  | .text => "text"
  | .json => "json"

/-- The format that a user names, in letters of any case. No letter outside ASCII has a letter of these names as
its lower case. -/
def LogFormat.ofName? (s : String) : Option LogFormat :=
  match s.toLower with
  | "text" => some .text
  | "pretty" => some .text
  | "json" => some .json
  | _ => none

namespace Config

/-- Server and credentials. -/
structure Api where
  baseUrl : String := "https://api.example.com/v1"
  apiKey : Option String := none
  timeoutSeconds : Nat := 30
  userAgent : String := "purchases-backend/0.1.0"
  deriving DecidableEq, Repr

/-- Cache and state. -/
structure Cache where
  enabled : Bool := true
  /-- The directory of the state; without one it lives in memory. -/
  stateDir : Option String := none
  deriving DecidableEq, Repr

/-- Logging. -/
structure Logging where
  level : String := "info"
  format : LogFormat := .text
  deriving DecidableEq, Repr

end Config

/-- A configuration. -/
structure Config where
  api : Config.Api := {}
  dispatch : Flight.Limits := {}
  cache : Config.Cache := {}
  logging : Config.Logging := {}
  deriving DecidableEq, Repr

/-- The time that a request may take, in milliseconds. -/
def Config.Api.timeout (a : Config.Api) : Nat :=
  a.timeoutSeconds * 1000

end Entitle
