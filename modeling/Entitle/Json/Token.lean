import Entitle.Json.Fault

/-!
The leaves of the JSON grammar: blanks, words, numbers and strings.

Each reader takes the bytes from its leaf on and gives the leaf and the bytes after it.
-/

namespace Entitle.Json

/-- A fault behind the bytes taken. -/
def failAt {α : Type} (cause : Cause) (rest : Bytes) : Except Fault α :=
  .error ⟨cause, rest, .plain⟩

/-- A fault at the next byte. -/
def failPeek {α : Type} (cause : Cause) (rest : Bytes) : Except Fault α :=
  .error ⟨cause, rest, .peek⟩

/-- Blank, tab, line feed, carriage return. -/
def isSpace (b : UInt8) : Bool :=
  b = 0x20 || b = 0x09 || b = 0x0A || b = 0x0D

/-- The bytes from the first that is no blank. -/
def skipSpace (bytes : Bytes) : Bytes :=
  bytes.dropWhile isSpace

/-- An ASCII digit. -/
def isDigit (b : UInt8) : Bool :=
  0x30 ≤ b && b ≤ 0x39

/-- The letters of a word after its first; one that differs is taken too. -/
def word : Bytes → Bytes → Except Fault Bytes
  | [], bytes => .ok bytes
  | _ :: _, [] => failAt .eofValue []
  | letter :: letters, b :: rest => if b = letter then word letters rest else failAt .expectedIdent rest

/-! ## Numbers -/

/-- A number as written. -/
structure NumberText where
  negative : Bool
  whole : Bytes
  /-- The digits behind the point. -/
  fraction : Option Bytes
  /-- The sign and the digits of the exponent. -/
  exponent : Option (Bool × Bytes)
  deriving DecidableEq, Repr

/-- The digits before the point: a zero, or digits that begin with none. -/
def wholeDigits : Bytes → Except Fault (Bytes × Bytes)
  | [] => failAt .eofValue []
  | b :: rest =>
    if b = 0x30 then
      match rest with
      | d :: _ => if isDigit d then failPeek .invalidNumber rest else .ok ([b], rest)
      | [] => .ok ([b], rest)
    else if isDigit b then .ok (b :: rest.takeWhile isDigit, rest.dropWhile isDigit)
    else failAt .invalidNumber rest

/-- A point and at least one digit, if a point is next. -/
def fractionDigits : Bytes → Except Fault (Option Bytes × Bytes)
  | [] => .ok (none, [])
  | b :: rest =>
    if b = 0x2E then
      match rest.takeWhile isDigit, rest.dropWhile isDigit with
      | [], [] => failPeek .eofValue []
      | [], after => failPeek .invalidNumber after
      | digits, after => .ok (some digits, after)
    else .ok (none, b :: rest)

/-- The digits of an exponent, at least one; a byte that is none is taken. -/
def exponentDigits : Bytes → Except Fault (Bytes × Bytes)
  | [] => failAt .eofValue []
  | b :: rest =>
    if isDigit b then .ok (b :: rest.takeWhile isDigit, rest.dropWhile isDigit)
    else failAt .invalidNumber rest

/-- An `e`, a sign that may be missing and at least one digit, if an `e` is next. -/
def exponentPart : Bytes → Except Fault (Option (Bool × Bytes) × Bytes)
  | [] => .ok (none, [])
  | b :: rest =>
    if b = 0x65 ∨ b = 0x45 then
      match rest with
      | [] => failAt .eofValue []
      | s :: after =>
        if s = 0x2B then (exponentDigits after).map fun (ds, r) => (some (false, ds), r)
        else if s = 0x2D then (exponentDigits after).map fun (ds, r) => (some (true, ds), r)
        else (exponentDigits rest).map fun (ds, r) => (some (false, ds), r)
    else .ok (none, b :: rest)

/-- A number, from its minus sign or first digit on. -/
def numberText (bytes : Bytes) : Except Fault (NumberText × Bytes) := do
  let (negative, bytes) := match bytes with
    | b :: rest => if b = 0x2D then (true, rest) else (false, bytes)
    | [] => (false, [])
  let (whole, bytes) ← wholeDigits bytes
  let (fraction, bytes) ← fractionDigits bytes
  let (exponent, bytes) ← exponentPart bytes
  return (⟨negative, whole, fraction, exponent⟩, bytes)

/-! ## Strings -/

/-- What a letter behind a backslash stands for. -/
def simpleEscape? (b : UInt8) : Option UInt8 :=
  if b = 0x22 ∨ b = 0x5C ∨ b = 0x2F then some b
  else if b = 0x62 then some 0x08
  else if b = 0x66 then some 0x0C
  else if b = 0x6E then some 0x0A
  else if b = 0x72 then some 0x0D
  else if b = 0x74 then some 0x09
  else none

/-- The number of four hexadecimal digits. -/
def hexUnit : Bytes → Except Fault (Nat × Bytes)
  | a :: b :: c :: d :: rest =>
    match Text.hexValue? (Char.ofUInt8 a), Text.hexValue? (Char.ofUInt8 b),
        Text.hexValue? (Char.ofUInt8 c), Text.hexValue? (Char.ofUInt8 d) with
    | some a, some b, some c, some d => .ok (((a * 16 + b) * 16 + c) * 16 + d, rest)
    | _, _, _, _ => failAt .invalidEscape rest
  | _ => failAt .eofString []

/-- The byte is next; another one is taken. -/
def expectInPair (expected : UInt8) : Bytes → Except Fault Bytes
  | [] => failAt .eofString []
  | b :: rest => if b = expected then .ok rest else failAt .unexpectedEndOfHexEscape rest

/-- The second half of a surrogate pair, behind its first half. -/
def surrogatePair (first : Nat) (bytes : Bytes) : Except Fault (Bytes × Bytes) := do
  let bytes ← expectInPair 0x5C bytes
  let bytes ← expectInPair 0x75 bytes
  let (second, bytes) ← hexUnit bytes
  if 0xDC00 ≤ second ∧ second ≤ 0xDFFF then
    .ok (String.utf8EncodeChar (Char.ofNat (0x10000 + (first - 0xD800) * 0x400 + (second - 0xDC00))), bytes)
  else failAt .loneSurrogate bytes

/-- What an escape stands for, from behind its backslash on. -/
def escaped : Bytes → Except Fault (Bytes × Bytes)
  | [] => failAt .eofString []
  | b :: rest =>
    match simpleEscape? b with
    | some out => .ok ([out], rest)
    | none =>
      if b = 0x75 then do
        let (unit, rest) ← hexUnit rest
        if 0xDC00 ≤ unit ∧ unit ≤ 0xDFFF then failAt .loneSurrogate rest
        else if 0xD800 ≤ unit ∧ unit ≤ 0xDBFF then surrogatePair unit rest
        else .ok (String.utf8EncodeChar (Char.ofNat unit), rest)
      else failAt .invalidEscape rest

/-- What remains behind an escape when only its form counts. -/
def escapedLax : Bytes → Except Fault Bytes
  | [] => failAt .eofString []
  | b :: rest =>
    if (simpleEscape? b).isSome then .ok rest
    else if b = 0x75 then (hexUnit rest).map Prod.snd
    else failAt .invalidEscape rest

/-- The bytes of a string, from behind its opening quote on; `fuel` exceeds their number. -/
def stringBytes : Nat → Bytes → Except Fault (Bytes × Bytes)
  | 0, _ => failAt .eofString []
  | _, [] => failAt .eofString []
  | fuel + 1, b :: rest =>
    if b = 0x22 then .ok ([], rest)
    else if b = 0x5C then do
      let (out, rest) ← escaped rest
      let (more, rest) ← stringBytes fuel rest
      return (out ++ more, rest)
    else if b < 0x20 then failAt .controlCharacter rest
    else do
      let (more, rest) ← stringBytes fuel rest
      return (b :: more, rest)

/-- A string, from behind its opening quote on. -/
def stringText (bytes : Bytes) : Except Fault (String × Bytes) := do
  let (content, rest) ← stringBytes (bytes.length + 1) bytes
  match Text.ofUtf8? content with
  | some s => return (s, rest)
  | none => .error ⟨.invalidCodePoint, rest, .back (content.length - Text.validPrefixLength content)⟩

/-- What remains behind a string of which only the form counts; `fuel` exceeds its bytes. -/
def stringLax : Nat → Bytes → Except Fault Bytes
  | 0, _ => failAt .eofString []
  | _, [] => failAt .eofString []
  | fuel + 1, b :: rest =>
    if b = 0x22 then .ok rest
    else if b = 0x5C then do
      let rest ← escapedLax rest
      stringLax fuel rest
    else if b < 0x20 then failAt .controlCharacter rest
    else stringLax fuel rest

end Entitle.Json
