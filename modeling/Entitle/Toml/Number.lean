import Entitle.Toml.Basic
import Entitle.Text.Numeral

/-!
TOML numbers, dates and times.

All of them are made of the same characters, so a word is cut out first and then told what it is. Of a float
only whether it is in range is told, of a date only whether it exists.
-/

namespace Entitle.Toml

/-- A character of a number, a date, a time or a name for a value. -/
def isWordChar (c : Char) : Bool :=
  ('a' ≤ c && c ≤ 'z') || ('A' ≤ c && c ≤ 'Z') || ('0' ≤ c && c ≤ '9')
    || c = '_' || c = '+' || c = '-' || c = '.' || c = ':'

/-- A decimal digit. -/
def isDigit (c : Char) : Bool :=
  Text.Numeral.isDigit c

/-- A digit in a base up to sixteen. -/
def isDigitOf (base : Nat) (c : Char) : Bool :=
  let value :=
    if isDigit c then c.toNat - 48
    else if 'a' ≤ c && c ≤ 'f' then c.toNat - 87
    else if 'A' ≤ c && c ≤ 'F' then c.toNat - 55
    else 16
  value < base

/-- The value of digits in a base. -/
def valueOf (base : Nat) (digits : List Char) : Nat :=
  digits.foldl (fun n c => n * base + (if isDigit c then c.toNat - 48 else c.toUpper.toNat - 55)) 0

/-- At least one digit, with single underscores between digits; the underscores are left out. -/
def digits? (isDigit : Char → Bool) : List Char → Option (List Char)
  | [] => none
  | [c] => if isDigit c then some [c] else none
  | c :: '_' :: rest => if isDigit c then (digits? isDigit rest).map (c :: ·) else none
  | c :: rest => if isDigit c then (digits? isDigit rest).map (c :: ·) else none

/-- Decimal digits without a needless zero in front. -/
def wholeDigits? (word : List Char) : Option (List Char) :=
  match digits? isDigit word with
  | some ('0' :: _ :: _) => none
  | digits => digits

/-- A sign in front: whether it is a minus, and what follows. -/
def signed : List Char → Bool × List Char
  | '-' :: rest => (true, rest)
  | '+' :: rest => (false, rest)
  | word => (false, word)

/-- A whole number of 64 bits. -/
def integer? (word : List Char) : Option Int :=
  let natural? (base : Nat) (rest : List Char) : Option Int :=
    match digits? (isDigitOf base) rest with
    | some digits => if valueOf base digits < Nat.pow 2 63 then some (valueOf base digits) else none
    | none => none
  match word with
  | '0' :: 'x' :: rest => natural? 16 rest
  | '0' :: 'o' :: rest => natural? 8 rest
  | '0' :: 'b' :: rest => natural? 2 rest
  | _ =>
    let (negative, rest) := signed word
    match wholeDigits? rest with
    | none => none
    | some digits =>
      let n : Int := valueOf 10 digits
      let n := if negative then -n else n
      if -9223372036854775808 ≤ n ∧ n ≤ 9223372036854775807 then some n else none

/-- The decimal `significand · 10 ^ exponent` rounds to no finite double. -/
def isTooLarge (significand : Nat) (exponent : Int) : Bool :=
  let bound := Nat.pow 2 1024 - Nat.pow 2 970
  if significand = 0 then false
  else
    let size := (significand.log2 : Int) * 30103 / 100000 + exponent
    if size > 400 then true
    else if size < 200 then false
    else if 0 ≤ exponent then decide (bound ≤ significand * Nat.pow 10 exponent.toNat)
    else decide (bound * Nat.pow 10 (-exponent).toNat ≤ significand)

/-- An exponent: a sign and digits. -/
def exponent? (word : List Char) : Option Int :=
  let (negative, rest) := signed word
  (digits? isDigit rest).map fun digits =>
    let n : Int := valueOf 10 digits
    if negative then -n else n

/-- A float in range, with a fraction, an exponent or both, or one of the names for what is no number. -/
def isFloat (word : List Char) : Bool :=
  let (negative, rest) := signed word
  if rest = ['i', 'n', 'f'] || rest = ['n', 'a', 'n'] then true
  else
    let isExponentMark (c : Char) := c = 'e' || c = 'E'
    let mantissa := rest.takeWhile fun c => !isExponentMark c
    let exponent : Option Int :=
      match rest.dropWhile fun c => !isExponentMark c with
      | [] => some 0
      | _ :: power => exponent? power
    let whole := mantissa.takeWhile (· ≠ '.')
    let fraction : Option (List Char) :=
      match mantissa.dropWhile (· ≠ '.') with
      | [] => if mantissa.length = rest.length then none else some []
      | _ :: more => digits? isDigit more
    match wholeDigits? whole, fraction, exponent with
    | some whole, some fraction, some exponent =>
      negative || !isTooLarge (valueOf 10 (whole ++ fraction)) (exponent - fraction.length)
    | _, _, _ => false

/-- A number of two digits up to a bound. -/
def twoDigits? (least greatest : Nat) : List Char → Option (Nat × List Char)
  | a :: b :: rest =>
    let n := valueOf 10 [a, b]
    if isDigit a && isDigit b && least ≤ n && n ≤ greatest then some (n, rest) else none
  | _ => none

/-- The days of a month. -/
def daysIn (year month : Nat) : Nat :=
  if month = 2 then if year % 4 = 0 && (year % 100 ≠ 0 || year % 400 = 0) then 29 else 28
  else if month = 4 || month = 6 || month = 9 || month = 11 then 30
  else 31

/-- A date in front that exists. -/
def afterDate? : List Char → Option (List Char)
  | a :: b :: c :: d :: '-' :: rest =>
    if [a, b, c, d].all isDigit then
      match twoDigits? 1 12 rest with
      | some (month, '-' :: rest) =>
        match twoDigits? 1 31 rest with
        | some (day, rest) => if day ≤ daysIn (valueOf 10 [a, b, c, d]) month then some rest else none
        | none => none
      | _ => none
    else none
  | _ => none

/-- A time of day in front. -/
def afterTime? (s : List Char) : Option (List Char) :=
  match twoDigits? 0 23 s with
  | some (_, ':' :: s) =>
    match twoDigits? 0 59 s with
    | some (_, ':' :: s) =>
      match twoDigits? 0 60 s with
      | some (_, '.' :: s) => if (s.takeWhile isDigit).isEmpty then none else some (s.dropWhile isDigit)
      | some (_, s) => some s
      | none => none
    | _ => none
  | _ => none

/-- Nothing, or an offset. -/
def isOffset : List Char → Bool
  | [] => true
  | ['Z'] => true
  | ['z'] => true
  | c :: s =>
    (c = '+' || c = '-') &&
      match twoDigits? 0 23 s with
      | some (_, ':' :: s) =>
        match twoDigits? 0 59 s with
        | some (_, []) => true
        | _ => false
      | _ => false

/-- A time of day, with an offset or without. -/
def isZonedTime (word : List Char) : Bool :=
  match afterTime? word with
  | some rest => isOffset rest
  | none => false

/-- A word that starts with a digit or a sign: a date or time, a float or an integer. A blank may stand between
date and time. -/
def number? (s : List Char) : Option (Toml × List Char) :=
  let word := s.takeWhile isWordChar
  let rest := s.dropWhile isWordChar
  match afterDate? word with
  | some [] =>
    match rest with
    | ' ' :: more =>
      if isZonedTime (more.takeWhile isWordChar) then some (.dateTime, more.dropWhile isWordChar)
      else some (.dateTime, rest)
    | _ => some (.dateTime, rest)
  | some (mark :: time) =>
    if (mark = 'T' || mark = 't') && isZonedTime time then some (.dateTime, rest) else none
  | none =>
    if afterTime? word = some [] then some (.dateTime, rest)
    else if isFloat word then some (.float, rest)
    else (integer? word).map fun n => (.integer n, rest)

end Entitle.Toml
