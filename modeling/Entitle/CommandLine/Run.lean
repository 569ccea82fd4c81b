import Entitle.CommandLine.Arguments
import Entitle.CommandLine.Failure
import Entitle.CommandLine.Host
import Entitle.Config.Source
import Entitle.Config.Validation
import Entitle.Store.Memory

/-!
A run of the command line, from its words to its ending.

The configuration is loaded and checked before anything is sent; then the state is opened, and the command is
carried out on a client of its own.
-/

namespace Entitle.CommandLine

/-- How a run ends. -/
inductive Ending where
  /-- With something to print. -/
  | success (output : String)
  | failure (f : Failure)
  /-- The words ask for no command. -/
  | misuse
  /-- More exchanges at once are asked for than can be counted. -/
  | overload
  deriving DecidableEq, Repr

/-- The number that a run ends with. -/
def Ending.exitCode : Ending → Nat
  | .success _ => 0
  | .failure _ => 1
  | .misuse => 2
  | .overload => 101

/-- The program with its version. -/
def versionLine : String := "purchases-backend 0.1.0\n"

/-- How the program is used. -/
def usage : String := "Coalescing, cache-validating client for the purchases backend

Usage: purchases-backend [OPTIONS] <COMMAND>

Commands:
  offerings              --user <APP_USER_ID> [--delay none|default|long]
  customer               --user <APP_USER_ID> [--delay none|default|long]
  products-entitlements  [--delay none|default|long]
  post-receipt           --user <APP_USER_ID> --receipt <FILE> [--transaction <ID>]... [--product <ID>]...
                         [--restore] [--offering <OFFERING_ID>]
  ledger                 list|reset
  help                   [COMMAND]...

Options:
  -c, --config <FILE>      Path to configuration file
  -v, --log-level <LEVEL>  Log level: trace, debug, info, warn, error
  -h, --help               Print help
  -V, --version            Print version
"

/-- The files that a configuration may be read from. -/
def configFiles (env : Config.Environment) (i : Invocation) : List String :=
  i.configFile.toList ++ (env "CONFIG").toList ++ Config.defaultFiles

/-- The configuration of a run, checked. -/
def configure (env : Config.Environment) (files : Config.Files) (i : Invocation) : Except Failure Config := do
  let config ← match i.configFile with
    | some path =>
      (Config.loadFile env files path).mapError (.ofLoadFault ("Failed to load config from " ++ path))
    | none => (Config.load env files).mapError (.ofLoadFault "Failed to load configuration")
  let config := match i.logLevel with
    | some level => { config with logging.level := level }
    | none => config
  match Config.validate config with
  | .ok () => return config
  | .error defect => .error ⟨"Invalid configuration", [defect.message]⟩

/-- The server of a configuration. -/
def serverOf (c : Config) : Except Failure Server :=
  match Server.ofBase? c.api.baseUrl c.api.apiKey c.api.userAgent with
  | some server => .ok server
  | none => .error ⟨"Failed to build HTTP client", ["builder error", "failed to parse header value"]⟩

/-- A value as it is printed. -/
def printed (value : Json) : Ending :=
  .success (value.renderPretty ++ "\n")

variable {m : Type → Type} [Monad m] {σ : Type} [KeyValueStore σ]

/-- Makes a call and prints its reply. -/
def request (h : Host m) (config : Config) (server : Server) (what : String) (call : Call) (c : Client σ) :
    m (Ending × Client σ) := do
  match ← perform h config.api.timeout server call c with
  | (.ok reply, c) => return (printed reply.toJson, c)
  | (.error error, c) => return (.failure (.ofRequestError what error), c)

/-- Carries out a command. -/
def execute (h : Host m) (config : Config) (server : Server) (command : Command) (c : Client σ) :
    m (Ending × Client σ) :=
  match command with
  | .offerings user delay => request h config server "offerings" (.offerings user delay) c
  | .customerInfo user delay => request h config server "customer info" (.customerInfo user delay) c
  | .productsEntitlements delay => request h config server "products entitlements" (.productsEntitlements delay) c
  | .postReceipt user file transactions products restore offering => do
    match ← h.readFile file with
    | .error fault => return (.failure (.ofFileFault ("Failed to read receipt from " ++ file) fault), c)
    | .ok content =>
      request h config server "receipt post"
        (.postReceipt ⟨user, content, transactions, products, restore, offering⟩) c
  | .ledger .list => return (printed (.array (c.ledger.ids.map .string)), c)
  | .ledger .reset => do
    match c.resetLedger with
    | (.error error, reset) =>
      return (.failure (.ofStoreError "Failed to reset synced transaction ledger" error), reset)
    | (.ok (), reset) =>
      return (printed (.object [("forgotten_transactions", .int c.ledger.ids.length)]), reset.clearCaches)

/-- Carries out a command on what a store holds. -/
def executeOn (h : Host m) (config : Config) (server : Server) (command : Command) (store : σ) :
    m (Ending × σ) := do
  if Flight.Limits.permitLimit < config.dispatch.permits then return (.overload, store)
  let (ending, client) ← execute h config server command (.openOn store config.cache.enabled config.dispatch)
  return (ending, client.backend.store)

/-- Opens the state, and carries out a command on it. -/
def executeWithState (h : Host m) (config : Config) (server : Server) (command : Command) : m Ending := do
  match config.cache.stateDir with
  | none =>
    let (ending, _) ← executeOn h config server command ({} : MemoryStore)
    return ending
  | some path =>
    match ← h.openDirectory path with
    | .error fault => return .failure (.ofDirectoryFault path fault)
    | .ok nodes =>
      let (ending, store) ← executeOn h config server command (FileStore.openAt (some nodes))
      h.saveDirectory path (store.directory.getD [])
      return ending

/-- Runs a command line. -/
def run (h : Host m) (env : Config.Environment) (words : List String) : m Ending := do
  match Invocation.ofWords words with
  | .error .help => return .success usage
  | .error .version => return .success versionLine
  | .error .misuse => return .misuse
  | .ok invocation =>
    let contents ← (configFiles env invocation).mapM fun path => return (path, ← h.readFile path)
    let files : Config.Files := fun path => (contents.lookup path).getD (.error .notFound)
    match configure env files invocation with
    | .error failure => return .failure failure
    | .ok config =>
      match serverOf config with
      | .error failure => return .failure failure
      | .ok server => executeWithState h config server invocation.command

end Entitle.CommandLine
