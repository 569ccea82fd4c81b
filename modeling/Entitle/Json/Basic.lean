import Entitle.KeyMap

/-!
JSON values.

Numbers are whole numbers or doubles. The members of an object stand in a list; the reader keeps them
in increasing key order, each key once.
-/

namespace Entitle

/-- A JSON value. -/
inductive Json where
  | null
  | bool (value : Bool)
  | int (value : Int)
  | float (value : Float)
  | string (value : String)
  | array (items : List Json)
  | object (members : List (String × Json))
  deriving Inhabited

namespace Json

/-- The member of an object; no other value has members. -/
def member? : Json → String → Option Json
  | .object members, key => KeyMap.get? members key
  | _, _ => none

/-- The text of a string. -/
def text? : Json → Option String
  | .string s => some s
  | _ => none

/-- A whole number in the range of signed 64-bit numbers. -/
def int64? : Json → Option Int
  | .int n => if -9223372036854775808 ≤ n ∧ n ≤ 9223372036854775807 then some n else none
  | _ => none

/-- An object with the members in key order; of a repeated key the last stays. -/
def ofMembers (members : List (String × Json)) : Json :=
  .object (KeyMap.ofPairs members)

mutual

/-- Every object in key order, at any depth. -/
def canonical : Json → Json
  | .array items => .array (canonicalItems items)
  | .object members => ofMembers (canonicalMembers members)
  | value => value

/-- Every item canonical. -/
def canonicalItems : List Json → List Json
  | [] => []
  | item :: rest => canonical item :: canonicalItems rest

/-- Every member's value canonical. -/
def canonicalMembers : List (String × Json) → List (String × Json)
  | [] => []
  | (key, value) :: rest => (key, canonical value) :: canonicalMembers rest

end

end Json

end Entitle
