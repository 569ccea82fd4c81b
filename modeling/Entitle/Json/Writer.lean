import Entitle.Json.Basic
import Entitle.Decimal.Shortest
import Entitle.Text.Utf8

/-!
JSON text.

A string escapes the quote, the backslash and the characters below U+0020, and nothing else. `render`
writes a value without blanks; `renderPretty` puts every item and member on a line of its own, two
blanks deeper than what holds it.
-/

namespace Entitle.Json

/-- Doubles are positional from `10 ^ -5` up to below `10 ^ 16`. -/
def floatLayout : Decimal.Layout := ⟨-5, 15, true⟩

/-- One character of a string. -/
def escapeChar (c : Char) : List Char :=
  if c = '"' then ['\\', '"']
  else if c = '\\' then ['\\', '\\']
  else if c = '\x08' then ['\\', 'b']
  else if c = '\t' then ['\\', 't']
  else if c = '\n' then ['\\', 'n']
  else if c = '\x0c' then ['\\', 'f']
  else if c = '\r' then ['\\', 'r']
  else if c.toNat < 0x20 then
    ['\\', 'u', '0', '0', Text.hexDigit (c.toNat / 16), Text.hexDigit (c.toNat % 16)]
  else [c]

/-- A string between quotes. -/
def stringChars (s : String) : List Char :=
  '"' :: s.toList.flatMap escapeChar ++ ['"']

/-- A whole number. -/
def intChars (n : Int) : List Char :=
  (if n < 0 then ['-'] else []) ++ Nat.toDigits 10 n.natAbs

mutual

/-- The characters of a value. -/
def chars : Json → List Char
  | .null => ['n', 'u', 'l', 'l']
  | .bool true => ['t', 'r', 'u', 'e']
  | .bool false => ['f', 'a', 'l', 's', 'e']
  | .int n => intChars n
  | .float x => Decimal.render floatLayout x
  | .string s => stringChars s
  | .array items => '[' :: (itemChars items ++ [']'])
  | .object members => '\x7b' :: (memberChars members ++ ['\x7d'])

/-- Items with commas between them. -/
def itemChars : List Json → List Char
  | [] => []
  | [item] => chars item
  | item :: next :: rest => chars item ++ ',' :: itemChars (next :: rest)

/-- Members with commas between them. -/
def memberChars : List (String × Json) → List Char
  | [] => []
  | [(key, value)] => stringChars key ++ ':' :: chars value
  | (key, value) :: next :: rest =>
    stringChars key ++ ':' :: (chars value ++ ',' :: memberChars (next :: rest))

end

/-- The text of a value. -/
def render (value : Json) : String :=
  String.ofList value.chars

/-- A new line at a depth. -/
def newLine (depth : Nat) : List Char :=
  '\n' :: List.replicate (2 * depth) ' '

mutual

/-- The characters of a value on lines of their own, inside `depth` containers. -/
def prettyChars (depth : Nat) : Json → List Char
  | .array [] => ['[', ']']
  | .array (item :: rest) => '[' :: (prettyItems (depth + 1) (item :: rest) ++ newLine depth ++ [']'])
  | .object [] => ['\x7b', '\x7d']
  | .object (member :: rest) =>
    '\x7b' :: (prettyMembers (depth + 1) (member :: rest) ++ newLine depth ++ ['\x7d'])
  | .null => chars .null
  | .bool b => chars (.bool b)
  | .int n => chars (.int n)
  | .float x => chars (.float x)
  | .string s => chars (.string s)

/-- Items, each on its line. -/
def prettyItems (depth : Nat) : List Json → List Char
  | [] => []
  | [item] => newLine depth ++ prettyChars depth item
  | item :: next :: rest => newLine depth ++ prettyChars depth item ++ ',' :: prettyItems depth (next :: rest)

/-- Members, each on its line. -/
def prettyMembers (depth : Nat) : List (String × Json) → List Char
  | [] => []
  | [(key, value)] => newLine depth ++ stringChars key ++ ':' :: ' ' :: prettyChars depth value
  | (key, value) :: next :: rest =>
    newLine depth ++ stringChars key ++ ':' :: ' ' :: prettyChars depth value
      ++ ',' :: prettyMembers depth (next :: rest)

end

/-- The text of a value on lines of its own. -/
def renderPretty (value : Json) : String :=
  String.ofList (value.prettyChars 0)

end Entitle.Json
