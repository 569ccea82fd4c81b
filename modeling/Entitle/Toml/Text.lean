import Entitle.Toml.Basic

/-!
TOML strings and keys.

A basic string has escapes, a literal string has none; either can span lines when its quotes are tripled.
-/

namespace Entitle.Toml

/-- A character that can stand in a literal string of one line, apart from its quote. -/
def isTextChar (c : Char) : Bool :=
  c ≠ '\'' && isCommentChar c

/-- A character that can stand in a basic string as it is. -/
def isPlainChar (c : Char) : Bool :=
  c ≠ '"' && c ≠ '\\' && isCommentChar c

/-- The value of a hexadecimal digit. -/
def hexValue? (c : Char) : Option Nat :=
  if '0' ≤ c && c ≤ '9' then some (c.toNat - 48)
  else if 'a' ≤ c && c ≤ 'f' then some (c.toNat - 87)
  else if 'A' ≤ c && c ≤ 'F' then some (c.toNat - 55)
  else none

/-- The character with a number in hexadecimal digits, unless it is half of a pair or too great. -/
def scalar? (digits : List Char) : Option Char := do
  let values ← digits.mapM hexValue?
  let n := values.foldl (fun n v => n * 16 + v) 0
  if n < 0xd800 || (0xdfff < n && n < 0x110000) then some (Char.ofNat n) else none

/-- What an escape stands for: the character, and the number of characters behind the backslash. -/
def escape? : List Char → Option (Char × Nat)
  | 'b' :: _ => some ('\u0008', 1)
  | 't' :: _ => some ('\t', 1)
  | 'n' :: _ => some ('\n', 1)
  | 'f' :: _ => some ('\u000c', 1)
  | 'r' :: _ => some ('\r', 1)
  | '"' :: _ => some ('"', 1)
  | '\\' :: _ => some ('\\', 1)
  | 'u' :: rest => if rest.length < 4 then none else (scalar? (rest.take 4)).map (·, 5)
  | 'U' :: rest => if rest.length < 8 then none else (scalar? (rest.take 8)).map (·, 9)
  | _ => none

/-- The rest of a basic string of one line; `read` holds what came before, the last character first. -/
def basic (read : List Char) : List Char → Option (String × List Char)
  | [] => none
  | '"' :: rest => some (String.ofList read.reverse, rest)
  | '\\' :: rest =>
    match escape? rest with
    | some (c, count) => basic (c :: read) (rest.drop count)
    | none => none
  | c :: rest => if isPlainChar c then basic (c :: read) rest else none
termination_by s => s.length
decreasing_by
  all_goals
    simp only [List.length_cons, List.length_drop]
    omega

/-- The rest of a literal string of one line. -/
def literal (read : List Char) : List Char → Option (String × List Char)
  | [] => none
  | '\'' :: rest => some (String.ofList read.reverse, rest)
  | c :: rest => if isTextChar c then literal (c :: read) rest else none

/-- The rest of a basic string of many lines. Up to two quotes may stand before the closing ones, and a
backslash at the end of a line joins it with the next text. -/
def basicLines (read : List Char) (s : List Char) : Option (String × List Char) :=
  match s with
  | [] => none
  | '"' :: '"' :: '"' :: '"' :: '"' :: rest => some (String.ofList ('"' :: '"' :: read).reverse, rest)
  | '"' :: '"' :: '"' :: '"' :: rest => some (String.ofList ('"' :: read).reverse, rest)
  | '"' :: '"' :: '"' :: rest => some (String.ofList read.reverse, rest)
  | '"' :: rest => basicLines ('"' :: read) rest
  | '\n' :: rest => basicLines ('\n' :: read) rest
  | '\r' :: '\n' :: rest => basicLines ('\n' :: read) rest
  | '\\' :: rest =>
    match _next : afterNewline? (skipBlanks rest) with
    | some next => basicLines read (skipLines next)
    | none =>
      match escape? rest with
      | some (c, count) => basicLines (c :: read) (rest.drop count)
      | none => none
  | c :: rest => if isPlainChar c then basicLines (c :: read) rest else none
termination_by s.length
decreasing_by
  all_goals simp only [List.length_cons, List.length_drop]
  all_goals try omega
  have := length_skipLines_le next
  have := length_afterNewline?_lt _next
  have := length_skipBlanks_le rest
  omega

/-- The rest of a literal string of many lines. -/
def literalLines (read : List Char) : List Char → Option (String × List Char)
  | [] => none
  | '\'' :: '\'' :: '\'' :: '\'' :: '\'' :: rest => some (String.ofList ('\'' :: '\'' :: read).reverse, rest)
  | '\'' :: '\'' :: '\'' :: '\'' :: rest => some (String.ofList ('\'' :: read).reverse, rest)
  | '\'' :: '\'' :: '\'' :: rest => some (String.ofList read.reverse, rest)
  | '\n' :: rest => literalLines ('\n' :: read) rest
  | '\r' :: '\n' :: rest => literalLines ('\n' :: read) rest
  | c :: rest => if isCommentChar c then literalLines (c :: read) rest else none

/-- A line break right behind the opening quotes does not count. -/
def withoutFirstNewline (s : List Char) : List Char :=
  (afterNewline? s).getD s

/-- A string. -/
def text? : List Char → Option (String × List Char)
  | '"' :: '"' :: '"' :: rest => basicLines [] (withoutFirstNewline rest)
  | '"' :: rest => basic [] rest
  | '\'' :: '\'' :: '\'' :: rest => literalLines [] (withoutFirstNewline rest)
  | '\'' :: rest => literal [] rest
  | _ => none

/-- A character of a key without quotes. -/
def isBareChar (c : Char) : Bool :=
  ('a' ≤ c && c ≤ 'z') || ('A' ≤ c && c ≤ 'Z') || ('0' ≤ c && c ≤ '9') || c = '-' || c = '_'

/-- One part of a key. -/
def keyPart? (s : List Char) : Option (String × List Char) :=
  match s with
  | '"' :: rest => basic [] rest
  | '\'' :: rest => literal [] rest
  | _ =>
    match s.takeWhile isBareChar with
    | [] => none
    | part => some (String.ofList part, s.dropWhile isBareChar)

/-- The greatest depth of nesting, and the greatest number of parts in a key, is below this. -/
def depthLimit : Nat := 80

/-- A key: parts with points between them, blanks around each. It is refused when it has too many parts. -/
def key? : Nat → List Char → Option (List String × List Char)
  | 0, _ => none
  | parts + 1, s =>
    match keyPart? (skipBlanks s) with
    | none => none
    | some (part, rest) =>
      match skipBlanks rest with
      | '.' :: rest => (key? parts rest).map fun (more, rest) => (part :: more, rest)
      | rest => some ([part], rest)

/-- A key with an allowed number of parts. -/
def key (s : List Char) : Option (List String × List Char) :=
  key? (depthLimit - 1) s

end Entitle.Toml
