import Entitle.Config.Basic
import Entitle.Toml.Document

/-!
The configuration in a file.

Every section and every field can be left out and keeps its default. Names that no section has do not count.
A section can also be written as a list of its fields in order; what stands behind the last field does not
count.
-/

namespace Entitle.Config

/-- How one field of a section takes a value. -/
structure Field (α : Type) where
  name : String
  read : Toml → α → Option α

/-- Fills the fields of a section from its members. -/
def readMembers {α : Type} (members : List (String × Toml)) (fields : List (Field α)) (start : α) : Option α :=
  fields.foldlM (fun filled field =>
    match KeyMap.get? members field.name with
    | some value => field.read value filled
    | none => some filled) start

/-- Fills the fields of a section from a list. -/
def readItems {α : Type} : List (Field α) → List Toml → α → Option α
  | field :: fields, item :: items, start => (field.read item start).bind (readItems fields items)
  | _, _, start => some start

/-- Reads a section. A date or time has no members that a section could use. -/
def readSection {α : Type} (fields : List (Field α)) (start : α) : Toml → Option α
  | .table members => readMembers members fields start
  | .array items => readItems fields items start
  | .dateTime => some start
  | _ => none

/-- A text. -/
def readText : Toml → Option String
  | .string s => some s
  | _ => none

/-- A whole number that is not negative. -/
def readNatural : Toml → Option Nat
  | .integer n => if 0 ≤ n then some n.toNat else none
  | _ => none

/-- A truth value. -/
def readFlag : Toml → Option Bool
  | .boolean b => some b
  | _ => none

/-- The format with a name in lower case. -/
def formatNamed : String → Option LogFormat
  | "text" => some .text
  | "json" => some .json
  | _ => none

/-- A format: its name, or a table with the name as its only key and nothing in it. -/
def readFormat : Toml → Option LogFormat
  | .string name => formatNamed name
  | .table [(name, .table [])] => formatNamed name
  | .table [(name, .array [])] => formatNamed name
  | _ => none

/-- The fields of the section on server and credentials. -/
def apiFields : List (Field Api) := [
  ⟨"base_url", fun v a => (readText v).map fun x => { a with baseUrl := x }⟩,
  ⟨"api_key", fun v a => (readText v).map fun x => { a with apiKey := some x }⟩,
  ⟨"timeout_secs", fun v a => (readNatural v).map fun x => { a with timeoutSeconds := x }⟩,
  ⟨"user_agent", fun v a => (readText v).map fun x => { a with userAgent := x }⟩]

/-- The fields of the section on dispatch. -/
def dispatchFields : List (Field Flight.Limits) := [
  ⟨"max_concurrent_exchanges", fun v l => (readNatural v).map fun x => { l with maxConcurrent := x }⟩,
  ⟨"jitter_default_max_ms", fun v l => (readNatural v).map fun x => { l with defaultDelay := x }⟩,
  ⟨"jitter_long_max_ms", fun v l => (readNatural v).map fun x => { l with longDelay := x }⟩]

/-- The fields of the section on cache and state. -/
def cacheFields : List (Field Cache) := [
  ⟨"enabled", fun v c => (readFlag v).map fun x => { c with enabled := x }⟩,
  ⟨"state_dir", fun v c => (readText v).map fun x => { c with stateDir := some x }⟩]

/-- The fields of the section on logging. -/
def loggingFields : List (Field Logging) := [
  ⟨"level", fun v l => (readText v).map fun x => { l with level := x }⟩,
  ⟨"format", fun v l => (readFormat v).map fun x => { l with format := x }⟩]

/-- The sections. -/
def sections : List (Field Config) := [
  ⟨"api", fun v c => (readSection apiFields {} v).map fun x => { c with api := x }⟩,
  ⟨"dispatch", fun v c => (readSection dispatchFields {} v).map fun x => { c with dispatch := x }⟩,
  ⟨"cache", fun v c => (readSection cacheFields {} v).map fun x => { c with cache := x }⟩,
  ⟨"logging", fun v c => (readSection loggingFields {} v).map fun x => { c with logging := x }⟩]

/-- The configuration in the text of a file. -/
def ofText? (text : String) : Option Config :=
  (Toml.read text).bind (readSection sections {})

end Entitle.Config
