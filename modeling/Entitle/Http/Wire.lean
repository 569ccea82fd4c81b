import Entitle.Http.Message
import Entitle.Http.Url

/-!
Requests and responses as bytes on a connection.

A response ends where its length says, with its last chunk, or with the connection; one with a status that
forbids a body ends with its head.
-/

namespace Entitle

/-- A request with everything that is sent. -/
structure WireRequest where
  method : Method
  target : String
  /-- Names in lower case. -/
  headers : List (String × String)
  body : Option Bytes
  deriving DecidableEq, Repr

/-- A response as received. -/
structure WireResponse where
  status : Nat
  /-- Names in lower case, in the order of the response. -/
  headers : List (String × Bytes)
  body : Bytes
  deriving DecidableEq, Repr

/-- How far a response has come. -/
inductive Reception where
  | more
  | complete (response : WireResponse)
  | broken

namespace WireRequest

/-- The bytes of a request. -/
def render (r : WireRequest) (host : String) : Bytes :=
  let lines := [r.method.name ++ " " ++ r.target ++ " HTTP/1.1"]
    ++ (("host", host) :: r.headers).map (fun (name, value) => name ++ ": " ++ value)
  Text.utf8 (String.join (lines.map (· ++ "\r\n")) ++ "\r\n") ++ r.body.getD []

end WireRequest

namespace WireResponse

/-- The first value of a header. -/
def header? (r : WireResponse) (name : String) : Option Bytes :=
  r.headers.lookup name

/-- A blank in a header. -/
def isHeaderBlank (b : UInt8) : Bool :=
  b = 32 || b = 9

/-- Bytes without blanks on both sides. -/
def trimmed (bytes : Bytes) : Bytes :=
  ((bytes.dropWhile isHeaderBlank).reverse.dropWhile isHeaderBlank).reverse

/-- A byte that a header can hold. -/
def isHeaderByte (b : UInt8) : Bool :=
  b = 9 || (32 ≤ b && b ≠ 127)

/-- The line in front and what follows it; a line ends with a line feed, and a carriage return before that does
not count. -/
def line? (bytes : Bytes) : Option (Bytes × Bytes) :=
  match bytes.dropWhile (· ≠ 10) with
  | [] => none
  | _ :: rest =>
    let line := bytes.takeWhile (· ≠ 10)
    some (if line.getLast? = some 13 then line.dropLast else line, rest)

/-- Lower-case letters for upper-case ones. -/
def lower (b : UInt8) : UInt8 :=
  if 65 ≤ b && b ≤ 90 then b + 32 else b

/-- The status in the first line. -/
def statusOf (line : Bytes) : Option Nat :=
  match Text.utf8 "HTTP/1." |>.isPrefixOf line, line.drop 7 with
  | true, version :: 32 :: a :: b :: c :: rest =>
    let digits := [a, b, c]
    if (version = 48 || version = 49) && digits.all (fun d => 48 ≤ d && d ≤ 57)
      && (rest.isEmpty || rest.head? = some 32)
    then
      let n := digits.foldl (fun n d => n * 10 + (d.toNat - 48)) 0
      if 100 ≤ n then some n else none
    else none
  | _, _ => none

/-- One header. -/
def headerOf (line : Bytes) : Option (String × Bytes) :=
  match line.dropWhile (· ≠ 58) with
  | [] => none
  | _ :: value =>
    let name := line.takeWhile (· ≠ 58)
    let value := trimmed value
    if name.isEmpty || !value.all isHeaderByte then none
    else (Text.ofUtf8? (name.map lower)).map (·, value)

/-- The headers up to the empty line: those read, or nothing while there is more to come; `false` when one is
broken. Every line takes a byte at least, so the number of bytes is fuel enough. -/
def headersOf : Nat → Bytes → Except Bool (List (String × Bytes) × Bytes)
  | 0, _ => .error true
  | fuel + 1, bytes =>
    match line? bytes with
    | none => .error true
    | some ([], rest) => .ok ([], rest)
    | some (line, rest) =>
      match headerOf line with
      | none => .error false
      | some header => (headersOf fuel rest).map fun (headers, rest) => (header :: headers, rest)

/-- A length in decimal. -/
def lengthOf? (bytes : Bytes) : Option Nat :=
  if bytes.isEmpty || !bytes.all (fun d => 48 ≤ d && d ≤ 57) then none
  else some (bytes.foldl (fun n d => n * 10 + (d.toNat - 48)) 0)

/-- The value of hexadecimal digits. -/
def hexOf? (bytes : Bytes) : Option Nat :=
  if bytes.isEmpty then none
  else bytes.foldlM (fun n b => (Text.hexValue? (Char.ofNat b.toNat)).map (n * 16 + ·)) 0

/-- A body in chunks. -/
def chunks : Nat → Bytes → Except Bool Bytes
  | 0, _ => .error true
  | fuel + 1, bytes =>
    match line? bytes with
    | none => .error true
    | some (line, rest) =>
      match hexOf? (trimmed (line.takeWhile (· ≠ 59))) with
      | none => .error false
      | some 0 => (headersOf (rest.length + 1) rest).map fun _ => []
      | some n =>
        if rest.length < n then .error true
        else
          match line? (rest.drop n) with
          | none => .error true
          | some ([], more) => (chunks fuel more).map (rest.take n ++ ·)
          | some _ => .error false

/-- The body behind a head; `closed` says that nothing more will come. -/
def bodyOf (closed : Bool) (status : Nat) (headers : List (String × Bytes)) (rest : Bytes) : Except Bool Bytes :=
  if status = 204 || status = 304 then .ok []
  else
    match headers.lookup "transfer-encoding", headers.lookup "content-length" with
    | some _, _ => chunks (rest.length + 1) rest
    | none, some length =>
      match lengthOf? length with
      | none => .error false
      | some n => if rest.length < n then .error true else .ok (rest.take n)
    | none, none => if closed then .ok rest else .error true

/-- Reads what has come of a response. Interim responses are passed over; each takes bytes. -/
def progress (closed : Bool) : Nat → Bytes → Reception
  | 0, _ => .broken
  | fuel + 1, bytes =>
    let unfinished (more : Bool) : Reception := if more && !closed then .more else .broken
    match line? bytes with
    | none => unfinished true
    | some (line, rest) =>
      match statusOf line with
      | none => .broken
      | some status =>
        match headersOf (rest.length + 1) rest with
        | .error more => unfinished more
        | .ok (headers, rest) =>
          if status < 200 then progress closed fuel rest
          else
            match bodyOf closed status headers rest with
            | .error more => unfinished more
            | .ok body => .complete ⟨status, headers, body⟩

/-- Reads what has come of a response. -/
def read (closed : Bool) (bytes : Bytes) : Reception :=
  progress closed (bytes.length + 1) bytes

/-- The response that the client sees: of the headers only the first validation tag, if it is plain text. -/
def toResponse (r : WireResponse) : Response :=
  let tag := (r.header? tagResponseHeader.toLower).bind fun value =>
    if value.all fun b => b = 9 || (32 ≤ b && b < 127) then Text.ofUtf8? value else none
  ⟨⟨r.status⟩, tag, r.body⟩

end WireResponse

end Entitle
