import Entitle.FileTree
import Entitle.Text.Numeral

/-!
Why a configuration cannot be loaded, or cannot be used.
-/

namespace Entitle.Config

/-- What the names of environment variables start with. -/
def variablePrefix : String := "PURCHASES_"

/-- A failure while a configuration is loaded. -/
inductive LoadFault where
  /-- The text that was given is no configuration. -/
  | badText
  /-- The text in the environment is no configuration. -/
  | badVariableText
  | unreadableFile (path : String) (fault : FileFault)
  | badFile (path : String)
  | badNumber (name : String) (fault : Text.Numeral.Fault)
  | badFlag (name : String)
  | badLogFormat (value : String)
  deriving DecidableEq, Repr

/-- The failure in words. -/
def LoadFault.message : LoadFault → String
  | .badText => "Failed to parse inline config content"
  | .badVariableText => "Failed to parse inline config from " ++ variablePrefix ++ "CONFIG_CONTENT"
  | .unreadableFile path _ => "Failed to read config file: " ++ path
  | .badFile path => "Failed to parse config file: " ++ path
  | .badNumber name fault => "Failed to parse " ++ variablePrefix ++ name ++ ": " ++ fault.message
  | .badFlag name =>
    "Failed to parse " ++ variablePrefix ++ name
      ++ " (expected bool): provided string was not \x60true\x60 or \x60false\x60"
  | .badLogFormat _ => "Invalid " ++ variablePrefix ++ "LOG_FORMAT value"

/-- What a text that names no format is answered with. -/
def unsupportedFormat (value : String) : String :=
  "Unsupported log format: " ++ value ++ ". Supported: text, json"

/-- What lies behind the failure, in words. -/
def LoadFault.cause? : LoadFault → Option String
  | .badText | .badVariableText | .badFile _ => some "toml"
  | .unreadableFile _ fault => some fault.message
  | .badNumber .. | .badFlag _ => none
  | .badLogFormat value => some (unsupportedFormat value)

/-- Why a configuration cannot be used. -/
inductive Defect where
  | emptyBaseUrl
  | notHttp (baseUrl : String)
  | noTimeout
  | blankApiKey
  | noConcurrency
  /-- The longest delay is shorter than the default one. -/
  | delaysInverted (longDelay defaultDelay : Nat)
  | emptyStateDir
  deriving DecidableEq, Repr

/-- The defect in words. -/
def Defect.message : Defect → String
  | .emptyBaseUrl => "api.base_url must not be empty"
  | .notHttp baseUrl => "api.base_url must use http or https, got '" ++ baseUrl ++ "'"
  | .noTimeout => "api.timeout_secs must be greater than 0"
  | .blankApiKey => "api.api_key must not be empty when set"
  | .noConcurrency => "dispatch.max_concurrent_exchanges must be greater than 0"
  | .delaysInverted longDelay defaultDelay =>
    "dispatch.jitter_long_max_ms (" ++ toString longDelay
      ++ ") must not be smaller than dispatch.jitter_default_max_ms (" ++ toString defaultDelay ++ ")"
  | .emptyStateDir => "cache.state_dir must not be empty when set"

end Entitle.Config
