/-!
Bytes and their reading as UTF-8.

`Text.utf8` writes a text, `Text.ofUtf8?` reads one back and refuses everything else, and `Text.lossy`
reads any bytes, with U+FFFD for every maximal part that begins no character.
-/

namespace Entitle

/-- A byte string. -/
abbrev Bytes := List UInt8

namespace Text

/-- The UTF-8 bytes of a text. -/
def utf8 (s : String) : Bytes :=
  s.toByteArray.data.toList

/-- The text that `bytes` are the UTF-8 of. -/
def ofUtf8? (bytes : Bytes) : Option String :=
  String.fromUTF8? ⟨bytes.toArray⟩

/-- Reading accepts exactly what writing produces. -/
theorem ofUtf8?_eq_some_iff {bytes : Bytes} {s : String} : ofUtf8? bytes = some s ↔ bytes = utf8 s := by
  unfold ofUtf8? utf8 String.fromUTF8?
  constructor
  · intro h
    split at h
    · cases h
      simp [String.fromUTF8]
    · cases h
  · rintro rfl
    have hb : (⟨s.toByteArray.data.toList.toArray⟩ : ByteArray) = s.toByteArray := by simp
    rw [hb, dif_pos s.isValidUTF8]
    rfl

@[simp] theorem ofUtf8?_utf8 (s : String) : ofUtf8? (utf8 s) = some s :=
  ofUtf8?_eq_some_iff.2 rfl

/-- The text begins with another. -/
def startsWith (s start : String) : Bool :=
  start.toList.isPrefixOf s.toList

/-! ## Any bytes -/

/-- What a first byte asks for: how many bytes follow it, and the least and greatest first of them. -/
def lead? (b : UInt8) : Option (Nat × UInt8 × UInt8) :=
  if b < 0x80 then some (0, 0x80, 0xBF)
  else if b < 0xC2 then none
  else if b < 0xE0 then some (1, 0x80, 0xBF)
  else if b = 0xE0 then some (2, 0xA0, 0xBF)
  else if b = 0xED then some (2, 0x80, 0x9F)
  else if b < 0xF0 then some (2, 0x80, 0xBF)
  else if b = 0xF0 then some (3, 0x90, 0xBF)
  else if b < 0xF4 then some (3, 0x80, 0xBF)
  else if b = 0xF4 then some (3, 0x80, 0x8F)
  else none

/-- Takes up to `n` bytes, the first within the bounds and the others 80–BF; says whether all came. -/
def takeTail : Nat → UInt8 → UInt8 → Bytes → Bytes × Bytes × Bool
  | 0, _, _, bytes => ([], bytes, true)
  | _ + 1, _, _, [] => ([], [], false)
  | n + 1, low, high, b :: bytes =>
    if low ≤ b ∧ b ≤ high then
      let (taken, rest, complete) := takeTail n 0x80 0xBF bytes
      (b :: taken, rest, complete)
    else ([], b :: bytes, false)

theorem takeTail_length (n : Nat) (low high : UInt8) (bytes : Bytes) :
    (takeTail n low high bytes).2.1.length ≤ bytes.length := by
  induction n generalizing low high bytes with
  | zero => simp [takeTail]
  | succ n ih =>
    cases bytes with
    | nil => simp [takeTail]
    | cons b bytes =>
      by_cases h : low ≤ b ∧ b ≤ high
      · simpa [takeTail, h] using Nat.le_succ_of_le (ih 0x80 0xBF bytes)
      · simp [takeTail, h]

/-- A part of a byte string: the bytes of one character, or bytes that begin none. -/
inductive Piece where
  | character (bytes : Bytes)
  | broken (bytes : Bytes)
  deriving DecidableEq, Repr

/-- Splits bytes into characters and maximal broken parts. -/
def pieces : Bytes → List Piece
  | [] => []
  | b :: bytes =>
    match lead? b with
    | none => .broken [b] :: pieces bytes
    | some (n, low, high) =>
      let tail := takeTail n low high bytes
      (if tail.2.2 then .character (b :: tail.1) else .broken (b :: tail.1)) :: pieces tail.2.1
  termination_by bytes => bytes.length
  decreasing_by
    · exact Nat.lt_succ_self _
    · exact Nat.lt_succ_of_le (takeTail_length n low high bytes)

/-- The character of well-formed bytes. -/
def charOf : Bytes → Char
  | [a] => Char.ofNat a.toNat
  | [a, b] => Char.ofNat ((a.toNat % 32) * 64 + b.toNat % 64)
  | [a, b, c] => Char.ofNat (((a.toNat % 16) * 64 + b.toNat % 64) * 64 + c.toNat % 64)
  | [a, b, c, d] =>
    Char.ofNat ((((a.toNat % 8) * 64 + b.toNat % 64) * 64 + c.toNat % 64) * 64 + d.toNat % 64)
  | _ => replacement
where
  /-- Stands for bytes that begin no character. -/
  replacement : Char := '\uFFFD'

/-- Reads any bytes; every broken part becomes one U+FFFD. -/
def lossy (bytes : Bytes) : String :=
  String.ofList <| (pieces bytes).map fun
    | .character bytes => charOf bytes
    | .broken _ => charOf.replacement

/-- The number of bytes before the first broken part. -/
def validPrefixLength (bytes : Bytes) : Nat :=
  go (pieces bytes)
where
  /-- Adds up the characters in front. -/
  go : List Piece → Nat
    | .character bytes :: rest => bytes.length + go rest
    | _ => 0

/-! ## Hexadecimal -/

/-- The lower-case digit of a number below 16. -/
def hexDigit (n : Nat) : Char :=
  if n < 10 then Char.ofNat (48 + n) else Char.ofNat (87 + n)

/-- Two lower-case digits a byte. -/
def hex (bytes : Bytes) : String :=
  String.ofList <| bytes.flatMap fun b => [hexDigit (b.toNat / 16), hexDigit (b.toNat % 16)]

/-- The value of a hexadecimal digit of either case. -/
def hexValue? (c : Char) : Option Nat :=
  if '0' ≤ c ∧ c ≤ '9' then some (c.toNat - 48)
  else if 'a' ≤ c ∧ c ≤ 'f' then some (c.toNat - 87)
  else if 'A' ≤ c ∧ c ≤ 'F' then some (c.toNat - 55)
  else none

end Text

end Entitle
