import Entitle.Text.Utf8

/-!
What is wrong with a JSON text, and where.

A fault keeps the bytes that were left when it was found, so the place needs no counter: `position`
takes it from the whole text.
-/

namespace Entitle.Json

/-- What is wrong. -/
inductive Cause where
  | eofValue
  | eofString
  | eofList
  | eofObject
  | expectedIdent
  | expectedValue
  | recursionLimit
  | trailingComma
  | expectedListCommaOrEnd
  | keyMustBeString
  | expectedObjectCommaOrEnd
  | expectedColon
  | invalidNumber
  | numberOutOfRange
  | controlCharacter
  | invalidEscape
  | loneSurrogate
  | unexpectedEndOfHexEscape
  | invalidCodePoint
  | trailingCharacters
  /-- The text is fine so far, but its value does not have the shape asked for. -/
  | wrongShape
  deriving DecidableEq, Repr

/-- How the place follows from the bytes left. -/
inductive Mark where
  /-- Behind the bytes taken. -/
  | plain
  /-- Behind the next byte too, if there is one. -/
  | peek
  /-- Behind the bytes taken, some columns back. -/
  | back (columns : Nat)
  deriving DecidableEq, Repr

/-- A fault, with the bytes left when it was found. -/
structure Fault where
  cause : Cause
  rest : Bytes
  mark : Mark
  deriving DecidableEq, Repr

/-- The kinds that callers tell apart. -/
inductive Category where
  /-- The text ended too early. -/
  | eof
  /-- Right JSON of the wrong shape. -/
  | data
  /-- No JSON. -/
  | notJson
  deriving DecidableEq, Repr

/-- The category of a cause. -/
def Cause.category : Cause → Category
  | .eofValue | .eofString | .eofList | .eofObject => .eof
  | .wrongShape => .data
  | _ => .notJson

/-- The cause in words. -/
def Cause.message : Cause → String
  | .eofValue => "EOF while parsing a value"
  | .eofString => "EOF while parsing a string"
  | .eofList => "EOF while parsing a list"
  | .eofObject => "EOF while parsing an object"
  | .expectedIdent => "expected ident"
  | .expectedValue => "expected value"
  | .recursionLimit => "recursion limit exceeded"
  | .trailingComma => "trailing comma"
  | .expectedListCommaOrEnd => "expected `,` or `]`"
  | .keyMustBeString => "key must be a string"
  | .expectedObjectCommaOrEnd => "expected `,` or `\x7d`"
  | .expectedColon => "expected `:`"
  | .invalidNumber => "invalid number"
  | .numberOutOfRange => "number out of range"
  | .controlCharacter => "control character (\\u0000-\\u001F) found while parsing a string"
  | .invalidEscape => "invalid escape"
  | .loneSurrogate => "lone leading surrogate in hex escape"
  | .unexpectedEndOfHexEscape => "unexpected end of hex escape"
  | .invalidCodePoint => "invalid unicode code point"
  | .trailingCharacters => "trailing characters"
  | .wrongShape => "value of another shape"

/-- Line and column behind a number of bytes: lines count from 1, columns are bytes after the last line end. -/
def lineAndColumn (bytes : Bytes) : Nat × Nat :=
  bytes.foldl step (1, 0)
where
  /-- One more byte. -/
  step (place : Nat × Nat) (b : UInt8) : Nat × Nat :=
    if b = 0x0A then (place.1 + 1, 0) else (place.1, place.2 + 1)

/-- Line and column of a fault in a text. -/
def Fault.position (fault : Fault) (text : Bytes) : Nat × Nat :=
  let taken := text.length - fault.rest.length
  match fault.mark with
  | .plain => lineAndColumn (text.take taken)
  | .peek => lineAndColumn (text.take (taken + 1))
  | .back columns =>
    let (line, column) := lineAndColumn (text.take taken)
    (line, column - columns)

/-- The fault in words, with its place. -/
def Fault.message (fault : Fault) (text : Bytes) : String :=
  let (line, column) := fault.position text
  fault.cause.message ++ " at line " ++ toString line ++ " column " ++ toString column

end Entitle.Json
