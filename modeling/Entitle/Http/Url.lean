import Entitle.Text.PercentEncoding

/-!
Where a request goes.

A URL of the schemes `http` and `https` is taken apart as browsers do: blanks around it do not count, the
segments `.` and `..` of its path are resolved, characters that a path cannot hold are percent-encoded, and the
fragment is dropped.
-/

namespace Entitle

/-- A place to send requests to. -/
structure Url where
  secure : Bool
  host : String
  port : Nat
  /-- Path and query. -/
  target : String
  deriving DecidableEq, Repr

namespace Url

/-- A character that separates the parts of a path. -/
def isSlash (c : Char) : Bool :=
  c = '/' || c = '\\'

/-- A character that ends a path. -/
def isPathEnd (c : Char) : Bool :=
  c = '?' || c = '#'

/-- A byte that a path or a query writes as it is. -/
def isPlain (inQuery : Bool) (b : UInt8) : Bool :=
  let c := Char.ofNat b.toNat
  ' ' < c && c ≤ '~' && c ≠ '"' && c ≠ '<' && c ≠ '>'
    && if inQuery then c ≠ '\'' else c ≠ '\x60' && c ≠ '\x7b' && c ≠ '\x7d'

/-- A text with the bytes that cannot stand as they are percent-encoded. -/
def encode (inQuery : Bool) (s : List Char) : List Char :=
  (Text.utf8 (String.ofList s)).flatMap fun b =>
    if isPlain inQuery b then [Char.ofNat b.toNat]
    else ['%', Text.PercentEncoding.digit (b.toNat / 16), Text.PercentEncoding.digit (b.toNat % 16)]

/-- A segment with its encoded points written out. -/
def withPoints : List Char → List Char
  | '%' :: '2' :: 'e' :: rest => '.' :: withPoints rest
  | '%' :: '2' :: 'E' :: rest => '.' :: withPoints rest
  | c :: rest => c :: withPoints rest
  | [] => []

/-- The segment stands for the directory itself. -/
def isHere (segment : List Char) : Bool :=
  withPoints segment = ['.']

/-- The segment stands for the directory above. -/
def isAbove (segment : List Char) : Bool :=
  withPoints segment = ['.', '.']

/-- Resolves segments behind those already taken, the last one in front. A point segment at the end leaves an
empty segment. -/
def resolve : List (List Char) → List (List Char) → List (List Char)
  | taken, [] => taken.reverse
  | taken, [last] =>
    if isAbove last then ([] :: taken.drop 1).reverse
    else if isHere last then ([] :: taken).reverse
    else (last :: taken).reverse
  | taken, segment :: rest =>
    if isAbove segment then resolve (taken.drop 1) rest
    else if isHere segment then resolve taken rest
    else resolve (segment :: taken) rest

/-- Splits at slashes. -/
def splitAtSlashes (s : List Char) : List (List Char) :=
  s.foldr (fun c parts =>
    if isSlash c then [] :: parts
    else match parts with
      | part :: rest => (c :: part) :: rest
      | [] => [[c]]) [[]]

/-- The path of a request: a slash in front, and its segments resolved and encoded. -/
def pathOf (s : List Char) : List Char :=
  let parts := match s with
    | c :: rest => if isSlash c then splitAtSlashes rest else splitAtSlashes s
    | [] => [[]]
  (resolve [] parts).flatMap fun segment => '/' :: encode false segment

/-- The path and query of what follows the host. -/
def targetOf (s : List Char) : String :=
  let path := pathOf (s.takeWhile fun c => !isPathEnd c)
  match s.dropWhile fun c => !isPathEnd c with
  | '?' :: rest => String.ofList (path ++ '?' :: encode true (rest.takeWhile (· ≠ '#')))
  | _ => String.ofList path

/-- A port as written, or the one of the scheme. -/
def port? (standard : Nat) : List Char → Option Nat
  | [] => some standard
  | [':'] => some standard
  | ':' :: digits =>
    if digits.all Char.isDigit then
      let n := digits.foldl (fun n c => n * 10 + (c.toNat - 48)) 0
      if n < 65536 then some n else none
    else none
  | _ => none

/-- A character that a host can hold. -/
def isHostChar (c : Char) : Bool :=
  c.isAlphanum || c = '.' || c = '-' || c = '_'

/-- What follows the scheme. -/
def ofAuthority (secure : Bool) (s : List Char) : Option Url :=
  let s := s.dropWhile isSlash
  let isEnd (c : Char) := isSlash c || isPathEnd c
  let authority := s.takeWhile fun c => !isEnd c
  let host := authority.takeWhile isHostChar
  match host, port? (if secure then 443 else 80) (authority.drop host.length) with
  | [], _ => none
  | _, none => none
  | host, some port =>
    some ⟨secure, (String.ofList host).toLower, port, targetOf (s.dropWhile fun c => !isEnd c)⟩

/-- A text without what does not count in a URL: blanks around it, and tabs and line ends in it. -/
def trimmed (s : String) : String :=
  let outer (c : Char) := c ≤ ' '
  let inner := ((s.toList.dropWhile outer).reverse.dropWhile outer).reverse
  String.ofList (inner.filter fun c => c ≠ '\t' && c ≠ '\n' && c ≠ '\r')

/-- The place that a URL names. -/
def ofText? (url : String) : Option Url :=
  let s := (trimmed url).toList
  match (String.ofList (s.takeWhile (· ≠ ':'))).toLower, s.dropWhile (· ≠ ':') with
  | "http", _ :: rest => ofAuthority false rest
  | "https", _ :: rest => ofAuthority true rest
  | _, _ => none

end Url

end Entitle
