import Entitle.Text.Utf8

/-!
Percent-encoding of a path segment: letters, digits and `-`, `_`, `.`, `~` stay, and every other byte
of the UTF-8 becomes `%` and two upper-case digits.
-/

namespace Entitle.Text.PercentEncoding

/-- Bytes that stand for themselves. -/
def isUnreserved (b : UInt8) : Bool :=
  (48 ≤ b && b ≤ 57) || (65 ≤ b && b ≤ 90) || (97 ≤ b && b ≤ 122) || b = 45 || b = 46 || b = 95 || b = 126

/-- The upper-case digit of a number below 16. -/
def digit (n : Nat) : Char :=
  if n < 10 then Char.ofNat (48 + n) else Char.ofNat (55 + n)

/-- One byte of the text. -/
def encodeByte (b : UInt8) : List Char :=
  if isUnreserved b then [Char.ofNat b.toNat] else ['%', digit (b.toNat / 16), digit (b.toNat % 16)]

/-- The bytes of a text, encoded. -/
def encodeBytes (bytes : Bytes) : List Char :=
  bytes.flatMap encodeByte

/-- The text as one path segment. -/
def encode (s : String) : String :=
  String.ofList (encodeBytes (utf8 s))

end Entitle.Text.PercentEncoding
