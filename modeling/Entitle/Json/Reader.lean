import Entitle.Json.Number

/-!
JSON text to values.

`read` accepts one value with blanks around it. Containers may stand 127 deep. The first fault from the
left is the one reported.
-/

namespace Entitle.Json

/-- Containers that may stand inside one another. -/
def depthLimit : Nat := 127

/-- A value by its first byte; lists and objects are read by the given readers, from their bracket on. -/
def valueWith (list object : Bytes → Except Fault (Json × Bytes)) (bytes : Bytes) : Except Fault (Json × Bytes) :=
  match skipSpace bytes with
  | [] => failPeek .eofValue []
  | b :: rest =>
    if b = 0x6E then (word [0x75, 0x6C, 0x6C] rest).map fun r => (.null, r)
    else if b = 0x74 then (word [0x72, 0x75, 0x65] rest).map fun r => (.bool true, r)
    else if b = 0x66 then (word [0x61, 0x6C, 0x73, 0x65] rest).map fun r => (.bool false, r)
    else if b = 0x22 then (stringText rest).map fun (s, r) => (.string s, r)
    else if b = 0x5B then list (b :: rest)
    else if b = 0x7B then object (b :: rest)
    else if b = 0x2D ∨ isDigit b then do
      let (t, r) ← numberText (b :: rest)
      let value ← t.toJson r
      return (value, r)
    else failPeek .expectedValue (b :: rest)

/-- The items of a list from the first one on; `fuel` exceeds their number. -/
def listItems (item : Bytes → Except Fault (Json × Bytes)) : Nat → Bytes → Except Fault (List Json × Bytes)
  | 0, bytes => failPeek .eofList bytes
  | fuel + 1, bytes => do
    let (value, bytes) ← item bytes
    match skipSpace bytes with
    | [] => failPeek .eofList []
    | b :: rest =>
      if b = 0x5D then return ([value], rest)
      else if b = 0x2C then
        match skipSpace rest with
        | [] => failPeek .eofValue []
        | c :: more =>
          if c = 0x5D then failPeek .trailingComma (c :: more)
          else do
            let (values, bytes) ← listItems item fuel (c :: more)
            return (value :: values, bytes)
      else failPeek .expectedListCommaOrEnd (b :: rest)

/-- A list, from its bracket on. -/
def listWith (item : Bytes → Except Fault (Json × Bytes)) (bytes : Bytes) : Except Fault (Json × Bytes) :=
  match skipSpace (bytes.drop 1) with
  | [] => failPeek .eofList []
  | b :: rest =>
    if b = 0x5D then .ok (.array [], rest)
    else (listItems item (rest.length + 1) (b :: rest)).map fun (items, r) => (.array items, r)

/-- A key, a colon and a value, from behind the key's opening quote on. -/
def memberWith (item : Bytes → Except Fault (Json × Bytes)) (bytes : Bytes) :
    Except Fault ((String × Json) × Bytes) := do
  let (key, bytes) ← stringText bytes
  match skipSpace bytes with
  | [] => failPeek .eofObject []
  | b :: rest =>
    if b = 0x3A then do
      let (value, bytes) ← item rest
      return ((key, value), bytes)
    else failPeek .expectedColon (b :: rest)

/-- The members of an object from behind the first key's opening quote on; `fuel` exceeds their number. -/
def objectMembers (item : Bytes → Except Fault (Json × Bytes)) :
    Nat → Bytes → Except Fault (List (String × Json) × Bytes)
  | 0, bytes => failPeek .eofObject bytes
  | fuel + 1, bytes => do
    let (member, bytes) ← memberWith item bytes
    match skipSpace bytes with
    | [] => failPeek .eofObject []
    | b :: rest =>
      if b = 0x7D then return ([member], rest)
      else if b = 0x2C then
        match skipSpace rest with
        | [] => failPeek .eofValue []
        | c :: more =>
          if c = 0x22 then do
            let (members, bytes) ← objectMembers item fuel more
            return (member :: members, bytes)
          else if c = 0x7D then failPeek .trailingComma (c :: more)
          else failPeek .keyMustBeString (c :: more)
      else failPeek .expectedObjectCommaOrEnd (b :: rest)

/-- An object, from its bracket on. -/
def objectWith (item : Bytes → Except Fault (Json × Bytes)) (bytes : Bytes) : Except Fault (Json × Bytes) :=
  match skipSpace (bytes.drop 1) with
  | [] => failPeek .eofObject []
  | b :: rest =>
    if b = 0x7D then .ok (.object [], rest)
    else if b = 0x22 then
      (objectMembers item (rest.length + 1) rest).map fun (members, r) => (.ofMembers members, r)
    else failPeek .keyMustBeString (b :: rest)

/-- A value with at most `depth` containers inside one another. -/
def value : Nat → Bytes → Except Fault (Json × Bytes)
  | 0 => valueWith (failPeek .recursionLimit) (failPeek .recursionLimit)
  | depth + 1 => valueWith (listWith (value depth)) (objectWith (value depth))

/-- Nothing but blanks is left. -/
def atEnd (bytes : Bytes) : Except Fault Unit :=
  match skipSpace bytes with
  | [] => .ok ()
  | rest => failPeek .trailingCharacters rest

/-- The value of a text. -/
def read (bytes : Bytes) : Except Fault Json := do
  let (v, rest) ← value depthLimit bytes
  atEnd rest
  return v

/-- The value of a text, if it has one. -/
def read? (bytes : Bytes) : Option Json :=
  (read bytes).toOption

end Entitle.Json
