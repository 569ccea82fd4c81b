/-!
Whole numbers written in decimal, an optional sign in front.

`Numeral.natural` reads a number from 0 to a bound and says why it cannot; `Numeral.int64?` reads a
signed 64-bit number.
-/

namespace Entitle.Text.Numeral

/-- Why a text is no number in range. -/
inductive Fault where
  | empty
  | invalidDigit
  | tooLarge
  deriving DecidableEq, Repr

/-- The fault in words. -/
def Fault.message : Fault → String
  | .empty => "cannot parse integer from empty string"
  | .invalidDigit => "invalid digit found in string"
  | .tooLarge => "number too large to fit in target type"

/-- An ASCII digit. -/
def isDigit (c : Char) : Bool :=
  '0' ≤ c && c ≤ '9'

/-- The value of an ASCII digit. -/
def digitValue (c : Char) : Nat :=
  c.toNat - 48

/-- The value of a list of digits, after the digits of `acc`. -/
def valueFrom (acc : Nat) (digits : List Char) : Nat :=
  digits.foldl (fun n c => n * 10 + digitValue c) acc

/-- Reads digits after the value `acc` up to `bound`; the first bad character decides the fault. -/
def digitsUpTo (bound : Nat) : Nat → List Char → Except Fault Nat
  | acc, [] => .ok acc
  | acc, c :: rest =>
    if isDigit c then
      if bound < acc * 10 + digitValue c then .error .tooLarge
      else digitsUpTo bound (acc * 10 + digitValue c) rest
    else .error .invalidDigit

/-- A number from 0 to `bound`; a plus sign may stand in front. -/
def natural (bound : Nat) (s : String) : Except Fault Nat :=
  match s.toList with
  | [] => .error .empty
  | ['+'] => .error .invalidDigit
  | '+' :: digits => digitsUpTo bound 0 digits
  | digits => digitsUpTo bound 0 digits

/-- The greatest unsigned 64-bit number. -/
def uint64Max : Nat := 18446744073709551615

/-- A signed 64-bit number; a sign may stand in front. -/
def int64? (s : String) : Option Int :=
  match s.toList with
  | '-' :: digits => read digits 9223372036854775808 |>.map fun n => -(n : Int)
  | '+' :: digits => read digits 9223372036854775807 |>.map Int.ofNat
  | digits => read digits 9223372036854775807 |>.map Int.ofNat
where
  /-- At least one digit and nothing else, in range. -/
  read (digits : List Char) (bound : Nat) : Option Nat :=
    if digits.isEmpty || !digits.all isDigit then none
    else
      let n := valueFrom 0 digits
      if n ≤ bound then some n else none

end Entitle.Text.Numeral
