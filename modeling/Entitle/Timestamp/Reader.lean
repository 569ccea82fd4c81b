import Entitle.Timestamp.Basic
import Entitle.Text.Blank
import Entitle.Text.Numeral

/-!
Text to instants.

`Instant.parse?` reads what servers send: a date and time with a zone, a date and time without one, taken
as UTC, or a date. `Instant.parsePersisted?` reads what is stored, with a zone and blanks between parts.
A second of 60 is a leap second at any minute.
-/

namespace Entitle

open Text (isBlank trimStart)

/-- A date and time of day as written. -/
structure WallTime where
  date : Date
  hour : Nat
  minute : Nat
  second : Nat
  nanos : Nat
  deriving DecidableEq, Repr

/-- The instant of a wall time in UTC; none if there is no such time. -/
def WallTime.toInstant? (w : WallTime) : Option Instant :=
  if w.date.isValid && w.hour ≤ 23 && w.minute ≤ 59 && w.second ≤ 60
      && Instant.leastYear ≤ w.date.year && w.date.year ≤ Instant.greatestYear then
    let leap := decide (w.second = 60)
    let second := if leap then 59 else w.second
    some ⟨w.date.dayNumber * 86400 + ((w.hour * 60 + w.minute) * 60 + second : Nat),
      w.nanos + if leap then 1000000000 else 0⟩
  else none

namespace Instant

open Text.Numeral (isDigit valueFrom)

/-- The instant of a wall time in a zone some seconds ahead of UTC. -/
def ofLocal? (w : WallTime) (offset : Int) : Option Instant := do
  let t ← w.toInstant?
  if offset.natAbs < 86400 then
    let utc : Instant := ⟨t.seconds - offset, t.nanos⟩
    if utc.inRange then some utc else none
  else none

/-! ## Parts -/

/-- A number of at least `least` digits that takes at most `most`. -/
def number? (least most : Nat) (cs : List Char) : Option (Nat × List Char) :=
  let digits := (cs.take most).takeWhile isDigit
  if digits.length < least then none else some (valueFrom 0 digits, cs.drop digits.length)

/-- The character is next. -/
def char? (c : Char) : List Char → Option (List Char)
  | x :: rest => if x = c then some rest else none
  | [] => none

/-- A point and at least one digit, if a point is next; digits past the ninth do not count. -/
def fraction? : List Char → Option (Nat × List Char)
  | '.' :: cs =>
    let digits := cs.takeWhile isDigit
    if digits.isEmpty then none
    else
      let counted := digits.take 9
      some (valueFrom 0 counted * Nat.pow 10 (9 - counted.length), cs.drop digits.length)
  | cs => some (0, cs)

/-- Two digits. -/
def twoDigits? (cs : List Char) : Option (Nat × List Char) :=
  number? 2 2 cs

/-- A sign and hours and minutes, in seconds; `separate` takes what stands between them. -/
def signedOffset? (separate : List Char → Option (List Char)) : List Char → Option (Int × List Char)
  | [] => none
  | c :: cs => do
    let negative ← if c = '+' then some false else if c = '-' ∨ c = '\u2212' then some true else none
    let (hours, cs) ← twoDigits? cs
    let cs ← separate cs
    let (minutes, cs) ← twoDigits? cs
    if minutes ≤ 59 then
      let seconds : Int := (hours * 3600 + minutes * 60 : Nat)
      some (if negative then -seconds else seconds, cs)
    else none

/-- A `Z` or an offset. -/
def zone? (separate : List Char → Option (List Char)) (cs : List Char) : Option (Int × List Char) :=
  match cs with
  | 'Z' :: rest => some (0, rest)
  | 'z' :: rest => some (0, rest)
  | _ => signedOffset? separate cs

/-- The first character is one that stands between a date and a time. -/
def betweenDateAndTime? : List Char → Option (List Char)
  | 'T' :: rest => some rest
  | 't' :: rest => some rest
  | ' ' :: rest => some rest
  | _ => none

/-! ## The strict form -/

/-- Reads `YYYY-MM-DD`, a separator, `hh:mm:ss`, a fraction that may be missing and a zone. -/
def parseStrict? (cs : List Char) : Option Instant := do
  let (year, cs) ← number? 4 4 cs
  let (month, cs) ← twoDigits? (← char? '-' cs)
  let (day, cs) ← twoDigits? (← char? '-' cs)
  let (hour, cs) ← twoDigits? (← betweenDateAndTime? cs)
  let (minute, cs) ← twoDigits? (← char? ':' cs)
  let (second, cs) ← twoDigits? (← char? ':' cs)
  let (nanos, cs) ← fraction? cs
  let (offset, cs) ← zone? (char? ':') cs
  if cs.isEmpty then ofLocal? ⟨⟨year, month, day⟩, hour, minute, second, nanos⟩ offset else none

/-! ## The loose forms -/

/-- One or two digits, blanks in front. -/
def looseNumber? (cs : List Char) : Option (Nat × List Char) :=
  number? 1 2 (trimStart cs)

/-- Up to four digits, or a sign and any number of them, blanks in front. -/
def looseYear? (cs : List Char) : Option (Int × List Char) :=
  match trimStart cs with
  | '-' :: rest => (number? 1 rest.length rest).map fun (n, r) => (-(n : Int), r)
  | '+' :: rest => (number? 1 rest.length rest).map fun (n, r) => ((n : Int), r)
  | cs => (number? 1 4 cs).map fun (n, r) => ((n : Int), r)

/-- What may stand in front of a separator. -/
abbrev Gap := List Char → List Char

/-- Year, month and day with hyphens; `gap` stands in front of each. -/
def looseDate? (gap : Gap) (cs : List Char) : Option (Date × List Char) := do
  let (year, cs) ← looseYear? cs
  let (month, cs) ← looseNumber? (← char? '-' (gap cs))
  let (day, cs) ← looseNumber? (← char? '-' (gap cs))
  return (⟨year, month, day⟩, cs)

/-- Hour, minute and second with colons; `gap` stands in front of each. -/
def looseClock? (gap : Gap) (cs : List Char) : Option ((Nat × Nat × Nat) × List Char) := do
  let (hour, cs) ← looseNumber? cs
  let (minute, cs) ← looseNumber? (← char? ':' (gap cs))
  let (second, cs) ← looseNumber? (← char? ':' (gap cs))
  return ((hour, minute, second), cs)

/-- A date, a `T` and a time with a fraction that may be missing. -/
def parseZoneless? (cs : List Char) : Option Instant := do
  let (date, cs) ← looseDate? id cs
  let ((hour, minute, second), cs) ← looseClock? id (← char? 'T' cs)
  let (nanos, cs) ← fraction? cs
  if cs.isEmpty then WallTime.toInstant? ⟨date, hour, minute, second, nanos⟩ else none

/-- A date, blanks and a time. -/
def parseSpaced? (cs : List Char) : Option Instant := do
  let (date, cs) ← looseDate? id cs
  let ((hour, minute, second), cs) ← looseClock? id (trimStart cs)
  if cs.isEmpty then WallTime.toInstant? ⟨date, hour, minute, second, 0⟩ else none

/-- A date, taken as its midnight. -/
def parseDate? (cs : List Char) : Option Instant := do
  let (date, cs) ← looseDate? id cs
  if cs.isEmpty then WallTime.toInstant? ⟨date, 0, 0, 0, 0⟩ else none

/-- Reads a server's timestamp: the forms are tried in order, blanks around it do not count. -/
def parse? (raw : String) : Option Instant :=
  let cs := Text.trim raw.toList
  (parseStrict? cs).or <| (parseZoneless? cs).or <| (parseSpaced? cs).or (parseDate? cs)

/-! ## The stored form -/

/-- A separator of hours and minutes in a stored offset: any run of colons and blanks. -/
def colonsAndBlanks (cs : List Char) : Option (List Char) :=
  some (cs.dropWhile fun c => c = ':' || isBlank c)

/-- A zone, which may also be spelled `UTC` in any case. -/
def storedZone? (cs : List Char) : Option (Int × List Char) :=
  match cs with
  | a :: b :: c :: rest =>
    if a.toUpper = 'U' ∧ b.toUpper = 'T' ∧ c.toUpper = 'C' then some (0, rest) else zone? colonsAndBlanks cs
  | _ => zone? colonsAndBlanks cs

/-- Reads a stored timestamp: blanks may stand in front of every part. -/
def parsePersisted? (raw : String) : Option Instant := do
  let (date, cs) ← looseDate? trimStart raw.toList
  let ((hour, minute, second), cs) ← looseClock? trimStart (← betweenDateAndTime? cs)
  let (nanos, cs) ← fraction? cs
  let (offset, cs) ← storedZone? (trimStart cs)
  if (trimStart cs).isEmpty then ofLocal? ⟨date, hour, minute, second, nanos⟩ offset else none

end Instant

end Entitle
