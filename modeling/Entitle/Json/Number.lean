import Entitle.Json.Basic
import Entitle.Json.Token
import Entitle.Decimal.Scaled

/-!
The value of a number as written.

A whole number of 64 bits stays whole. Everything else is a double: the digits in front become a
significand of 64 bits, the digits of the whole part that no longer fit count only as powers of ten,
and those of the fraction are dropped.
-/

namespace Entitle.Json

/-- The first digits of a decimal, and the power of ten they stand at. -/
structure Significand where
  value : Nat
  exponent : Int
  /-- A digit did not fit. -/
  full : Bool
  deriving DecidableEq, Repr

/-- The digit of a byte. -/
def digitValue (b : UInt8) : Nat :=
  b.toNat - 48

/-- The least number that takes more than 64 bits. -/
def wordLimit : Nat := 18446744073709551616

/-- One more digit of the whole part. -/
def Significand.wholeDigit (s : Significand) (b : UInt8) : Significand :=
  if !s.full && s.value * 10 + digitValue b < wordLimit then ⟨s.value * 10 + digitValue b, s.exponent, false⟩
  else ⟨s.value, s.exponent + 1, true⟩

/-- One more digit of the fraction. -/
def Significand.fractionDigit (s : Significand) (b : UInt8) : Significand :=
  if !s.full && s.value * 10 + digitValue b < wordLimit then ⟨s.value * 10 + digitValue b, s.exponent - 1, false⟩
  else ⟨s.value, s.exponent, true⟩

/-- The digits of the whole part. -/
def NumberText.wholeSignificand (t : NumberText) : Significand :=
  t.whole.foldl Significand.wholeDigit ⟨0, 0, false⟩

/-- All digits. -/
def NumberText.significand (t : NumberText) : Significand :=
  let whole := t.wholeSignificand
  (t.fraction.getD []).foldl Significand.fractionDigit { whole with full := false }

/-- An exponent as written: its value, or the digits behind the one that takes it past 31 bits. -/
def exponentValue : Nat → Bytes → Except Bytes Nat
  | n, [] => .ok n
  | n, b :: rest =>
    if 2147483647 < n * 10 + digitValue b then .error rest else exponentValue (n * 10 + digitValue b) rest

/-- The double of a number, or where its text stands when the number is out of range. -/
def NumberText.double (t : NumberText) (rest : Bytes) : Except Fault Float :=
  let s := t.significand
  let signed (x : Float) : Float := if t.negative then -x else x
  let at' (exponent : Int) : Except Fault Float :=
    match Decimal.scaled? s.value exponent with
    | some x => .ok (signed x)
    | none => failAt .numberOutOfRange rest
  match t.exponent with
  | none => at' s.exponent
  | some (negative, digits) =>
    match exponentValue 0 digits with
    | .ok n => at' (if negative then s.exponent - n else s.exponent + n)
    | .error more =>
      if negative || s.value = 0 then .ok (signed 0) else failAt .numberOutOfRange (more ++ rest)

/-- The value of a number; `rest` is the text behind it. -/
def NumberText.toJson (t : NumberText) (rest : Bytes) : Except Fault Json :=
  let whole := t.wholeSignificand
  if t.fraction.isNone && t.exponent.isNone && !whole.full
      && (!t.negative || (0 < whole.value && whole.value ≤ 9223372036854775808)) then
    .ok (.int (if t.negative then -(whole.value : Int) else whole.value))
  else (t.double rest).map .float

end Entitle.Json
