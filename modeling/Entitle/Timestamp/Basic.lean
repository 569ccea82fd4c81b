import Entitle.Timestamp.Calendar

/-!
Instants, and their text.

An instant is a second since 1970-01-01T00:00:00Z and nanoseconds within it; within a leap second, which
shares its number with the second before it, they go on from 10⁹. `Instant.render` writes the date and time
in UTC with the fewest of 0, 3, 6 and 9 fraction digits that are exact.
-/

namespace Entitle

/-- A moment in UTC. -/
structure Instant where
  seconds : Int
  nanos : Nat
  deriving DecidableEq, Repr

namespace Instant

/-- The moment is after another. -/
def isAfter (a b : Instant) : Bool :=
  b.seconds < a.seconds || (a.seconds = b.seconds && b.nanos < a.nanos)

/-- The years that dates can have. -/
def leastYear : Int := -262143

/-- The last of them. -/
def greatestYear : Int := 262142

/-- The year of an instant is in range. -/
def inRange (t : Instant) : Bool :=
  (Date.dayNumber ⟨leastYear, 1, 1⟩) * 86400 ≤ t.seconds
    && t.seconds < (Date.dayNumber ⟨greatestYear + 1, 1, 1⟩) * 86400

/-- The digits of a number with zeros in front up to a width. -/
def padded (width n : Nat) : List Char :=
  let digits := Nat.toDigits 10 n
  List.replicate (width - digits.length) '0' ++ digits

/-- A year of four digits, or a sign and at least four. -/
def yearChars (year : Int) : List Char :=
  if 0 ≤ year ∧ year ≤ 9999 then padded 4 year.toNat
  else (if year < 0 then '-' else '+') :: padded 4 year.natAbs

/-- A point and the digits of nanoseconds, or nothing. -/
def fractionChars (nanos : Nat) : List Char :=
  if nanos = 0 then []
  else if nanos % 1000000 = 0 then '.' :: padded 3 (nanos / 1000000)
  else if nanos % 1000 = 0 then '.' :: padded 6 (nanos / 1000)
  else '.' :: padded 9 nanos

/-- The characters of an instant. -/
def chars (t : Instant) : List Char :=
  let date := Date.ofDayNumber (t.seconds / 86400)
  let second := (t.seconds % 86400).toNat
  let leap := decide (1000000000 ≤ t.nanos)
  yearChars date.year ++ '-' :: padded 2 date.month ++ '-' :: padded 2 date.day
    ++ 'T' :: padded 2 (second / 3600) ++ ':' :: padded 2 (second / 60 % 60)
    ++ ':' :: padded 2 (second % 60 + if leap then 1 else 0)
    ++ fractionChars (if leap then t.nanos - 1000000000 else t.nanos) ++ ['Z']

/-- The text of an instant. -/
def render (t : Instant) : String :=
  String.ofList t.chars

end Instant

end Entitle
