import Entitle.Json.Token

/-!
The outline of a JSON text: whether it is bracketed, separated and spelled as JSON, whatever its
strings and numbers stand for.

Containers may stand at any depth, numbers may be of any size and `\u` needs only its four digits. The
containers that are open stand on a stack, so a text of any depth is read in one loop.
-/

namespace Entitle.Json

/-- A container that is open. -/
inductive Frame where
  | list
  | object
  deriving DecidableEq, Repr

/-- What the loop looks for. -/
inductive Awaiting where
  /-- A value. -/
  | value
  /-- A comma or a closing bracket. -/
  | separator
  deriving DecidableEq, Repr

/-- What remains behind the digits of a whole part. -/
def wholeLax : Bytes → Except Fault Bytes
  | [] => failAt .invalidNumber []
  | b :: rest =>
    if b = 0x30 then
      match rest with
      | d :: _ => if isDigit d then failPeek .invalidNumber rest else .ok rest
      | [] => .ok rest
    else if isDigit b then .ok (rest.dropWhile isDigit)
    else failAt .invalidNumber rest

/-- What remains behind at least one digit. -/
def digitsLax : Bytes → Except Fault Bytes
  | [] => failAt .invalidNumber []
  | b :: rest => if isDigit b then .ok (rest.dropWhile isDigit) else failAt .invalidNumber rest

/-- What remains behind an exponent, if one is next. -/
def exponentLax : Bytes → Except Fault Bytes
  | [] => .ok []
  | b :: rest =>
    if b = 0x65 ∨ b = 0x45 then
      match rest with
      | s :: after => if s = 0x2B ∨ s = 0x2D then digitsLax after else digitsLax rest
      | [] => digitsLax []
    else .ok (b :: rest)

/-- What remains behind a fraction and an exponent, where they are next. -/
def fractionLax : Bytes → Except Fault Bytes
  | [] => .ok []
  | b :: rest =>
    if b = 0x2E then
      match rest with
      | d :: _ => if isDigit d then exponentLax (rest.dropWhile isDigit) else failPeek .invalidNumber rest
      | [] => failPeek .invalidNumber []
    else exponentLax (b :: rest)

/-- What remains behind a number without its sign. -/
def numberLax (bytes : Bytes) : Except Fault Bytes := do
  fractionLax (← wholeLax bytes)

/-- What remains behind a string, from behind its opening quote on. -/
def skipString (bytes : Bytes) : Except Fault Bytes :=
  stringLax (bytes.length + 1) bytes

/-- What remains behind a key and its colon, when a key is next. -/
def keyLax (bytes : Bytes) : Except Fault Bytes :=
  match skipSpace bytes with
  | [] => failPeek .eofObject []
  | b :: rest =>
    if b = 0x22 then do
      let rest ← skipString rest
      match skipSpace rest with
      | [] => failPeek .eofObject []
      | c :: more => if c = 0x3A then .ok more else failPeek .expectedColon (c :: more)
    else failPeek .keyMustBeString (b :: rest)

/-- The loop: the containers that are open, and what comes next. Every round takes a byte; `fuel`
exceeds their number. -/
def outline : Nat → Awaiting → List Frame → Bytes → Except Fault Bytes
  | 0, _, _, bytes => failPeek .eofValue bytes
  | fuel + 1, .value, frames, bytes =>
    match skipSpace bytes with
    | [] => failPeek .eofValue []
    | b :: rest =>
      if b = 0x6E then do outline fuel .separator frames (← word [0x75, 0x6C, 0x6C] rest)
      else if b = 0x74 then do outline fuel .separator frames (← word [0x72, 0x75, 0x65] rest)
      else if b = 0x66 then do outline fuel .separator frames (← word [0x61, 0x6C, 0x73, 0x65] rest)
      else if b = 0x2D then do outline fuel .separator frames (← numberLax rest)
      else if isDigit b then do outline fuel .separator frames (← numberLax (b :: rest))
      else if b = 0x22 then do outline fuel .separator frames (← skipString rest)
      else if b = 0x5B then
        match skipSpace rest with
        | [] => failPeek .eofList []
        | c :: more =>
          if c = 0x5D then outline fuel .separator frames more
          else outline fuel .value (.list :: frames) (c :: more)
      else if b = 0x7B then
        match skipSpace rest with
        | [] => failPeek .eofObject []
        | c :: more =>
          if c = 0x7D then outline fuel .separator frames more
          else do outline fuel .value (.object :: frames) (← keyLax (c :: more))
      else failPeek .expectedValue (b :: rest)
  | _ + 1, .separator, [], bytes => .ok bytes
  | fuel + 1, .separator, .list :: frames, bytes =>
    match skipSpace bytes with
    | [] => failPeek .eofList []
    | b :: rest =>
      if b = 0x2C then outline fuel .value (.list :: frames) rest
      else if b = 0x5D then outline fuel .separator frames rest
      else failPeek .expectedListCommaOrEnd (b :: rest)
  | fuel + 1, .separator, .object :: frames, bytes =>
    match skipSpace bytes with
    | [] => failPeek .eofObject []
    | b :: rest =>
      if b = 0x2C then do outline fuel .value (.object :: frames) (← keyLax rest)
      else if b = 0x7D then outline fuel .separator frames rest
      else failPeek .expectedObjectCommaOrEnd (b :: rest)

/-- What remains behind a value. -/
def skipValue (bytes : Bytes) : Except Fault Bytes :=
  outline (bytes.length + 2) .value [] bytes

/-- The whole text is one value in outline. -/
def isOutlined (bytes : Bytes) : Bool :=
  match skipValue bytes with
  | .ok rest => (skipSpace rest).isEmpty
  | .error _ => false

end Entitle.Json
