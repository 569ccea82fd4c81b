import Entitle.Config.Basic
import Entitle.Config.Fault

/-!
Environment variables that override a configuration.

Each variable sets one field. They are applied in a fixed order, and the first that cannot be read ends it.
-/

namespace Entitle.Config

/-- The values of the variables, by their names without the common start. -/
abbrev Environment := String → Option String

/-- A variable that overrides a field. -/
structure Variable where
  name : String
  set : String → Config → Except LoadFault Config

/-- A variable with a text. -/
def textVariable (name : String) (set : String → Config → Config) : Variable :=
  ⟨name, fun value c => .ok (set value c)⟩

/-- A variable with a number of 64 bits. -/
def numberVariable (name : String) (set : Nat → Config → Config) : Variable :=
  ⟨name, fun value c =>
    match Text.Numeral.natural Text.Numeral.uint64Max value with
    | .ok n => .ok (set n c)
    | .error fault => .error (.badNumber name fault)⟩

/-- A variable with a truth value. -/
def flagVariable (name : String) (set : Bool → Config → Config) : Variable :=
  ⟨name, fun value c =>
    match value with
    | "true" => .ok (set true c)
    | "false" => .ok (set false c)
    | _ => .error (.badFlag name)⟩

/-- The variable with the log format. -/
def formatVariable (name : String) (set : LogFormat → Config → Config) : Variable :=
  ⟨name, fun value c =>
    match LogFormat.ofName? value with
    | some format => .ok (set format c)
    | none => .error (.badLogFormat value)⟩

/-- The variables in the order in which they are applied. An empty state directory means none. -/
def overrides : List Variable := [
  textVariable "API_BASE_URL" fun v c => { c with api.baseUrl := v },
  textVariable "API_KEY" fun v c => { c with api.apiKey := some v },
  numberVariable "API_TIMEOUT_SECS" fun v c => { c with api.timeoutSeconds := v },
  textVariable "USER_AGENT" fun v c => { c with api.userAgent := v },
  numberVariable "MAX_CONCURRENT_EXCHANGES" fun v c => { c with dispatch.maxConcurrent := v },
  numberVariable "JITTER_DEFAULT_MAX_MS" fun v c => { c with dispatch.defaultDelay := v },
  numberVariable "JITTER_LONG_MAX_MS" fun v c => { c with dispatch.longDelay := v },
  flagVariable "CACHE_ENABLED" fun v c => { c with cache.enabled := v },
  textVariable "STATE_DIR" fun v c => { c with cache.stateDir := if v.isEmpty then none else some v },
  textVariable "LOG_LEVEL" fun v c => { c with logging.level := v },
  formatVariable "LOG_FORMAT" fun v c => { c with logging.format := v }]

/-- Applies variables; beside a failure stands the configuration that it left. -/
def override (env : Environment) : List Variable → Config → Option LoadFault × Config
  | [], c => (none, c)
  | v :: rest, c =>
    match env v.name with
    | none => override env rest c
    | some value =>
      match v.set value c with
      | .ok c => override env rest c
      | .error fault => (some fault, c)

/-- Applies every variable. -/
def withEnvironment (env : Environment) (c : Config) : Except LoadFault Config :=
  match override env overrides c with
  | (none, c) => .ok c
  | (some fault, _) => .error fault

end Entitle.Config
