import Entitle.Json.Number
import Entitle.Json.Outline

/-!
Records and lists of texts read straight from JSON text.

The text is read from the left and the first fault wins, be it in the text or in the shape. Unknown members
are skipped by their outline; a repeated known one is a fault.
-/

namespace Entitle.Json

/-- The fault of a value of another shape than wanted, from its first byte on: of a fault in the value's own
text, if it is a word, a number or a string. -/
def otherShape {α : Type} (bytes : Bytes) : Except Fault α :=
  match bytes with
  | [] => failPeek .eofValue []
  | b :: rest =>
    if b = 0x6E then do failAt .wrongShape (← word [0x75, 0x6C, 0x6C] rest)
    else if b = 0x74 then do failAt .wrongShape (← word [0x72, 0x75, 0x65] rest)
    else if b = 0x66 then do failAt .wrongShape (← word [0x61, 0x6C, 0x73, 0x65] rest)
    else if b = 0x2D ∨ isDigit b then do
      let (t, after) ← numberText bytes
      let _ ← t.toJson after
      failAt .wrongShape after
    else if b = 0x22 then do
      let (_, after) ← stringText rest
      failAt .wrongShape after
    else if b = 0x5B ∨ b = 0x7B then failAt .wrongShape bytes
    else failPeek .expectedValue bytes

/-- A string value. -/
def textValue (bytes : Bytes) : Except Fault (String × Bytes) :=
  match skipSpace bytes with
  | [] => failPeek .eofValue []
  | b :: rest => if b = 0x22 then stringText rest else otherShape (b :: rest)

/-- The text from the next item of a list on; none at its closing bracket. -/
def nextItem? (first : Bool) (bytes : Bytes) : Except Fault (Option Bytes) :=
  match skipSpace bytes with
  | [] => failPeek .eofList []
  | b :: rest =>
    if b = 0x5D then .ok none
    else if first then .ok (some (b :: rest))
    else if b = 0x2C then
      match skipSpace rest with
      | [] => failPeek .eofValue []
      | c :: more => if c = 0x5D then failPeek .trailingComma (c :: more) else .ok (some (c :: more))
    else failPeek .expectedListCommaOrEnd (b :: rest)

/-- What remains behind the closing bracket of a list whose items have all been read. -/
def endOfList (bytes : Bytes) : Except Fault Bytes :=
  match skipSpace bytes with
  | [] => failPeek .eofList []
  | b :: rest =>
    if b = 0x5D then .ok rest
    else if b = 0x2C then
      match skipSpace rest with
      | c :: more => if c = 0x5D then failPeek .trailingComma (c :: more) else failPeek .trailingCharacters (c :: more)
      | [] => failPeek .trailingCharacters []
    else failPeek .trailingCharacters (b :: rest)

/-- The next key of an object and the text behind it; none at its closing bracket. -/
def nextKey? (first : Bool) (bytes : Bytes) : Except Fault (Option (String × Bytes)) :=
  match skipSpace bytes with
  | [] => failPeek .eofObject []
  | b :: rest =>
    if b = 0x7D then .ok none
    else if first then
      if b = 0x22 then (stringText rest).map some else failPeek .keyMustBeString (b :: rest)
    else if b = 0x2C then
      match skipSpace rest with
      | [] => failPeek .eofValue []
      | c :: more =>
        if c = 0x22 then (stringText more).map some
        else if c = 0x7D then failPeek .trailingComma (c :: more)
        else failPeek .keyMustBeString (c :: more)
    else failPeek .expectedObjectCommaOrEnd (b :: rest)

/-- What remains behind a colon. -/
def colon (bytes : Bytes) : Except Fault Bytes :=
  match skipSpace bytes with
  | [] => failPeek .eofObject []
  | b :: rest => if b = 0x3A then .ok rest else failPeek .expectedColon (b :: rest)

/-- Nothing but blanks is left behind a stored value. -/
def endOfText (bytes : Bytes) : Except Fault Unit :=
  match skipSpace bytes with
  | [] => .ok ()
  | rest => failPeek .trailingCharacters rest

/-! ## Lists of texts -/

/-- The items of a list of texts; `fuel` exceeds their number. -/
def textItems : Nat → Bool → Bytes → Except Fault (List String × Bytes)
  | 0, _, bytes => failPeek .eofList bytes
  | fuel + 1, first, bytes => do
    match ← nextItem? first bytes with
    | none => return ([], ← endOfList bytes)
    | some bytes =>
      let (item, bytes) ← textValue bytes
      let (items, bytes) ← textItems fuel false bytes
      return (item :: items, bytes)

/-- A list of texts. -/
def readTexts (bytes : Bytes) : Except Fault (List String) :=
  match skipSpace bytes with
  | [] => failPeek .eofValue []
  | b :: rest =>
    if b = 0x5B then do
      let (items, rest) ← textItems (rest.length + 1) true rest
      endOfText rest
      return items
    else otherShape (b :: rest)

/-! ## Records -/

/-- A field of a stored record: how its value, from its text on, completes the record; one that is there
already is refused. -/
structure StoredField (ρ : Type) where
  name : String
  isSet : ρ → Bool
  read : Bytes → ρ → Except Fault (ρ × Bytes)

/-- The members of a stored record; `fuel` exceeds their number. -/
def storedMembers {ρ : Type} (fields : List (StoredField ρ)) :
    Nat → Bool → Bytes → ρ → Except Fault (ρ × Bytes)
  | 0, _, bytes, _ => failPeek .eofObject bytes
  | fuel + 1, first, bytes, record => do
    match ← nextKey? first bytes with
    | none => return (record, (skipSpace bytes).drop 1)
    | some (key, bytes) =>
      match fields.find? (·.name = key) with
      | none =>
        let bytes ← skipValue (← colon bytes)
        storedMembers fields fuel false bytes record
      | some field =>
        if field.isSet record then failAt .wrongShape bytes
        else
          let (record, bytes) ← field.read (← colon bytes) record
          storedMembers fields fuel false bytes record

/-- The items of a list that holds a stored record's fields in order. -/
def storedItems {ρ : Type} : List (StoredField ρ) → Bool → Bytes → ρ → Except Fault (ρ × Bytes)
  | [], _, bytes, record => return (record, ← endOfList bytes)
  | field :: fields, first, bytes, record => do
    match ← nextItem? first bytes with
    | none => failAt .wrongShape bytes
    | some bytes =>
      let (record, bytes) ← field.read bytes record
      storedItems fields false bytes record

/-- A stored record, all of whose fields must be there. -/
def readStored {ρ : Type} (fields : List (StoredField ρ)) (blank : ρ) (bytes : Bytes) : Except Fault ρ :=
  match skipSpace bytes with
  | [] => failPeek .eofValue []
  | b :: rest =>
    if b = 0x7B then do
      let (record, rest) ← storedMembers fields (rest.length + 1) true rest blank
      if fields.all (·.isSet record) then
        endOfText rest
        return record
      else failAt .wrongShape rest
    else if b = 0x5B then do
      let (record, rest) ← storedItems fields true rest blank
      endOfText rest
      return record
    else otherShape (b :: rest)

end Entitle.Json
