import Entitle.Flight.Dispatcher

/-!
What the words of a command line ask for.

A command stands behind the options that every command has, and its own options stand behind it. An option that
takes a value has it in the next word, or in its own word: behind an equals sign, or right behind a single
letter. No option may be given twice in one place, apart from those that make lists. An option that every
command has counts where it stands deepest.
-/

namespace Entitle.CommandLine

open Flight

/-- What can be done with the ledger. -/
inductive LedgerAction where
  | list
  | reset
  deriving DecidableEq, Repr

/-- What a user can ask for. -/
inductive Command where
  | offerings (user : String) (delay : DelayClass)
  | customerInfo (user : String) (delay : DelayClass)
  | productsEntitlements (delay : DelayClass)
  /-- The receipt is named by its file. -/
  | postReceipt (user file : String) (transactions products : List String) (restore : Bool)
      (offering : Option String)
  | ledger (action : LedgerAction)
  deriving DecidableEq, Repr

/-- A command with the options that every command has. -/
structure Invocation where
  command : Command
  configFile : Option String := none
  logLevel : Option String := none
  deriving DecidableEq, Repr

/-- Why a command line asks for no command. -/
inductive Refusal where
  | help
  | version
  | misuse
  deriving DecidableEq, Repr

/-- The values of the options in one place. -/
structure Given where
  configFile : Option String := none
  logLevel : Option String := none
  user : Option String := none
  delay : Option DelayClass := none
  receipt : Option String := none
  transactions : List String := []
  products : List String := []
  restore : Bool := false
  offering : Option String := none
  deriving DecidableEq, Repr

/-- What an option does; one that cannot be taken gives nothing. -/
inductive Effect where
  | value (take : String → Given → Option Given)
  | flag (take : Given → Option Given)
  | refuse (refusal : Refusal)

/-- An option. -/
structure Choice where
  name : String
  letter : Option Char := none
  effect : Effect

namespace Choice

/-- A value that is taken once. -/
def once {α : Type} (before : Option α) (value : α) (set : α → Given) : Option Given :=
  if before.isSome then none else some (set value)

/-- A path. -/
def path? (s : String) : Option String :=
  if s.isEmpty then none else some s

/-- A delay by its name. -/
def delay? : String → Option DelayClass
  | "none" => some .immediate
  | "default" => some .default
  | "long" => some .long
  | _ => none

/-- The options that every command has. -/
def common : List Choice := [
  ⟨"config", some 'c', .value fun v g => (path? v).bind fun p => once g.configFile p ({ g with configFile := · })⟩,
  ⟨"log-level", some 'v', .value fun v g => once g.logLevel v ({ g with logLevel := · })⟩,
  ⟨"help", some 'h', .refuse .help⟩]

/-- The option that stands before a command only. -/
def version : Choice :=
  ⟨"version", some 'V', .refuse .version⟩

/-- The user that a command is about. -/
def user : Choice :=
  ⟨"user", none, .value fun v g => once g.user v ({ g with user := · })⟩

/-- The delay of a request. -/
def delay : Choice :=
  ⟨"delay", none, .value fun v g => (delay? v).bind fun d => once g.delay d ({ g with delay := · })⟩

/-- What a receipt is posted with. -/
def receipt : List Choice := [
  ⟨"receipt", none, .value fun v g => (path? v).bind fun p => once g.receipt p ({ g with receipt := · })⟩,
  ⟨"transaction", none, .value fun v g => some { g with transactions := g.transactions ++ [v] }⟩,
  ⟨"product", none, .value fun v g => some { g with products := g.products ++ [v] }⟩,
  ⟨"restore", none, .flag fun g => if g.restore then none else some { g with restore := true }⟩,
  ⟨"offering", none, .value fun v g => once g.offering v ({ g with offering := · })⟩]

end Choice

/-- How a word is written. -/
inductive Spelling where
  /-- Two hyphens: nothing behind them is an option. -/
  | separator
  | long (name : String) (value : Option String)
  | short (letter : Char) (value : Option String)
  | plain
  deriving DecidableEq, Repr

namespace Spelling

/-- A value behind an equals sign. -/
def assigned? : List Char → Option String
  | '=' :: value => some (String.ofList value)
  | _ => none

/-- The spelling of a word; one hyphen alone is a plain word. -/
def ofWord (word : String) : Spelling :=
  match word.toList with
  | ['-', '-'] => .separator
  | '-' :: '-' :: rest =>
    .long (String.ofList (rest.takeWhile (· ≠ '='))) (assigned? (rest.dropWhile (· ≠ '=')))
  | ['-', letter] => .short letter none
  | '-' :: letter :: value => .short letter ((assigned? value).or (some (String.ofList value)))
  | _ => .plain

/-- The spelling names an option. -/
def names (s : Spelling) (c : Choice) : Bool :=
  match s with
  | .long name _ => c.name = name
  | .short letter _ => c.letter = some letter
  | _ => false

/-- The value in the word itself. -/
def value? : Spelling → Option String
  | .long _ value => value
  | .short _ value => value
  | _ => none

/-- The spelling gives an option without a value something that it cannot take. Letters may be written in a
row. -/
def isOverfull : Spelling → Bool
  | .long _ value => value.isSome
  | _ => false

end Spelling

/-- Reads options up to the first word that is none. -/
def readOptions (choices : List Choice) : List String → Given → Except Refusal (Given × List String)
  | [], given => .ok (given, [])
  | word :: rest, given =>
    let spelling := Spelling.ofWord word
    match spelling with
    | .separator => if rest.isEmpty then .ok (given, []) else .error .misuse
    | .plain => .ok (given, word :: rest)
    | _ =>
      match (choices.find? spelling.names).map Choice.effect with
      | none => .error .misuse
      | some (.refuse refusal) => if spelling.isOverfull then .error .misuse else .error refusal
      | some (.flag take) =>
        match spelling.value?, take given with
        | none, some given => readOptions choices rest given
        | _, _ => .error .misuse
      | some (.value take) =>
        match spelling.value? with
        | some value =>
          match take value given with
          | some given => readOptions choices rest given
          | none => .error .misuse
        | none =>
          match rest with
          | [] => .error .misuse
          | value :: rest =>
            if Spelling.ofWord value ≠ .plain then .error .misuse
            else
              match take value given with
              | some given => readOptions choices rest given
              | none => .error .misuse

/-- Reads options that nothing follows. -/
def readLastOptions (choices : List Choice) (words : List String) : Except Refusal Given := do
  match ← readOptions choices words {} with
  | (given, []) => return given
  | _ => .error .misuse

/-- A value that a command needs. -/
def needed {α : Type} (value : Option α) : Except Refusal α :=
  match value with
  | some value => .ok value
  | none => .error .misuse

/-- Reads what follows the name of the ledger command. -/
def readLedger (words : List String) : Except Refusal (Command × Given) := do
  let (outer, rest) ← readOptions Choice.common words {}
  let ending (action : LedgerAction) (rest : List String) := do
    let given ← readLastOptions Choice.common rest
    return (Command.ledger action,
      { outer with
        configFile := given.configFile.or outer.configFile
        logLevel := given.logLevel.or outer.logLevel })
  match rest with
  | "list" :: rest => ending .list rest
  | "reset" :: rest => ending .reset rest
  | ["help"] => .error .help
  | ["help", name] => .error (if name ∈ ["list", "reset", "help"] then .help else .misuse)
  | _ => .error .misuse

/-- Reads what follows the name of a command. -/
def readCommand (name : String) (words : List String) : Except Refusal (Command × Given) :=
  match name with
  | "offerings" => do
    let given ← readLastOptions (Choice.user :: Choice.delay :: Choice.common) words
    return (.offerings (← needed given.user) (given.delay.getD .immediate), given)
  | "customer" => do
    let given ← readLastOptions (Choice.user :: Choice.delay :: Choice.common) words
    return (.customerInfo (← needed given.user) (given.delay.getD .immediate), given)
  | "products-entitlements" => do
    let given ← readLastOptions (Choice.delay :: Choice.common) words
    return (.productsEntitlements (given.delay.getD .immediate), given)
  | "post-receipt" => do
    let given ← readLastOptions (Choice.user :: (Choice.receipt ++ Choice.common)) words
    return (.postReceipt (← needed given.user) (← needed given.receipt) given.transactions given.products
      given.restore given.offering, given)
  | "ledger" => readLedger words
  | _ => .error .misuse

/-- There is help on commands of these names, each under the one before. -/
def isHelpTopic : List String → Bool
  | [] => true
  | [name] => name ∈ ["offerings", "customer", "products-entitlements", "post-receipt", "ledger", "help"]
  | ["ledger", name] => name ∈ ["list", "reset", "help"]
  | _ => false

/-- What the words of a command line ask for. -/
def Invocation.ofWords (words : List String) : Except Refusal Invocation := do
  match ← readOptions (Choice.version :: Choice.common) words {} with
  | (_, []) => .error .misuse
  | (_, "help" :: names) => .error (if isHelpTopic names then .help else .misuse)
  | (outer, name :: rest) =>
    let (command, given) ← readCommand name rest
    return ⟨command, given.configFile.or outer.configFile, given.logLevel.or outer.logLevel⟩

end Entitle.CommandLine
