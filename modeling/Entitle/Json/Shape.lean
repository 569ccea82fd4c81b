import Entitle.Json.Writer
import Entitle.Text.Quoted

/-!
Values of a shape: decoders from JSON values into types.

A record decodes from an object, whose members are taken in their order and whose unknown members are
ignored, or from a list of its fields in order. A lenient field takes a default for a value of another
shape, so it never fails.
-/

namespace Entitle.Json

/-- Why a value does not have a shape. -/
inductive Mismatch where
  /-- It is of another kind than expected. -/
  | wrongType (found : Json) (expected : String)
  /-- An object lacks a field. -/
  | missingField (name : String)
  /-- A list lacks the field at an index of a record with a number of fields. -/
  | tooShort (index : Nat) (record : String) (fields : Nat)
  /-- A list has items beyond the fields. -/
  | tooLong (length : Nat)

/-- A value by its kind, with its text where it is short. -/
def kindText : Json → String
  | .null => "null"
  | .bool true => "boolean `true`"
  | .bool false => "boolean `false`"
  | .int n => "integer `" ++ String.ofList (intChars n) ++ "`"
  | .float x => "floating point `" ++ String.ofList (Decimal.render floatLayout x) ++ "`"
  | .string s => "string " ++ Text.quoted s
  | .array _ => "sequence"
  | .object _ => "map"

/-- The mismatch in words. -/
def Mismatch.message : Mismatch → String
  | .wrongType found expected => "invalid type: " ++ found.kindText ++ ", expected " ++ expected
  | .missingField name => "missing field `" ++ name ++ "`"
  | .tooShort index record fields =>
    "invalid length " ++ toString index ++ ", expected struct " ++ record ++ " with " ++ toString fields
      ++ (if fields = 1 then " element" else " elements")
  | .tooLong length => "invalid length " ++ toString length ++ ", expected fewer elements in array"

/-- Reads a value as a type. -/
abbrev Decoder (α : Type) := Json → Except Mismatch α

namespace Decoder

variable {α : Type}

/-- A string. -/
def text : Decoder String
  | .string s => .ok s
  | found => .error (.wrongType found "a string")

/-- True or false. -/
def flag : Decoder Bool
  | .bool b => .ok b
  | found => .error (.wrongType found "a boolean")

/-- Null for none. -/
def optional (decode : Decoder α) : Decoder (Option α)
  | .null => .ok none
  | value => (decode value).map some

/-- Every item in order. -/
def items (decode : Decoder α) : List Json → Except Mismatch (List α)
  | [] => .ok []
  | item :: rest => do
    let first ← decode item
    let others ← items decode rest
    return first :: others

/-- Every member's value in order. -/
def members (decode : Decoder α) : List (String × Json) → Except Mismatch (KeyMap α)
  | [] => .ok []
  | (key, value) :: rest => do
    let first ← decode value
    let others ← members decode rest
    return (key, first) :: others

/-- A list of values of one shape. -/
def list (decode : Decoder α) : Decoder (List α)
  | .array values => items decode values
  | found => .error (.wrongType found "a sequence")

/-- An object whose values have one shape. -/
def map (decode : Decoder α) : Decoder (KeyMap α)
  | .object entries => members decode entries
  | found => .error (.wrongType found "a map")

/-- The default in place of every mismatch. -/
def lenient (default : α) (decode : Decoder α) : Decoder α := fun value =>
  match decode value with
  | .ok result => .ok result
  | .error _ => .ok default

end Decoder

/-! ## Records -/

/-- A field of a record, and how its value changes the record. -/
structure Field (ρ : Type) where
  name : String
  /-- An object or list without the field is refused. -/
  required : Bool
  store : Json → ρ → Except Mismatch ρ

/-- A field from the decoder of its value. -/
def Field.of {ρ α : Type} (name : String) (required : Bool) (decode : Decoder α) (set : α → ρ → ρ) : Field ρ where
  name := name
  required := required
  store := fun value record => (decode value).map (set · record)

/-- A record type: its name, its fields in order and the record before any field is read. -/
structure Record (ρ : Type) where
  name : String
  fields : List (Field ρ)
  blank : ρ

namespace Record

variable {ρ : Type}

/-- Takes the members in their order; unknown ones change nothing. -/
def storeMembers (fields : List (Field ρ)) : List (String × Json) → ρ → Except Mismatch ρ
  | [], record => .ok record
  | (key, value) :: rest, record =>
    match fields.find? (·.name = key) with
    | some field => do storeMembers fields rest (← field.store value record)
    | none => storeMembers fields rest record

/-- The first required field that no member gives. -/
def missing? (fields : List (Field ρ)) (members : List (String × Json)) : Option (Field ρ) :=
  fields.find? fun field => field.required && !members.any (·.1 = field.name)

/-- Takes the items as the fields in order; `index` fields are taken already. -/
def storeItems (recordType : Record ρ) : Nat → List (Field ρ) → List Json → ρ → Except Mismatch ρ
  | _, [], [], record => .ok record
  | index, [], rest, _ => .error (.tooLong (index + rest.length))
  | index, field :: fields, [], record =>
    if field.required then .error (.tooShort index recordType.name recordType.fields.length)
    else storeItems recordType (index + 1) fields [] record
  | index, field :: fields, item :: rest, record => do
    storeItems recordType (index + 1) fields rest (← field.store item record)

/-- Reads a record. -/
def decode (recordType : Record ρ) : Decoder ρ
  | .object members => do
    let record ← storeMembers recordType.fields members recordType.blank
    match missing? recordType.fields members with
    | some field => .error (.missingField field.name)
    | none => return record
  | .array items => storeItems recordType 0 recordType.fields items recordType.blank
  | found => .error (.wrongType found ("struct " ++ recordType.name))

end Record

end Entitle.Json
