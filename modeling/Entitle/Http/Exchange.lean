import Entitle.Http.Server

/-!
One exchange of a client with a server, over any means of carrying a request.

A response that names another place for the request is followed there, a number of times at most. A request
that is sent on asks for the new place and names the old one; unless the status says that nothing but the place
changes, it loses its body. What authorises the sender is not told to another host.
-/

namespace Entitle

namespace Url

/-- Scheme, host and port. -/
def origin (u : Url) : String :=
  (if u.secure then "https://" else "http://") ++ u.host
    ++ (if u.port = (if u.secure then 443 else 80) then "" else ":" ++ toString u.port)

/-- The URL as text. -/
def render (u : Url) : String :=
  u.origin ++ u.target

/-- Host and port, as a request names them. -/
def authority (u : Url) : String :=
  String.ofList ((u.origin.toList.dropWhile (· ≠ '/')).drop 2)

/-- A reference that names its scheme. -/
def isAbsolute (reference : List Char) : Bool :=
  let scheme := reference.takeWhile fun c => c.isAlphanum || c = '+' || c = '-' || c = '.'
  scheme.head?.any Char.isAlpha && reference[scheme.length]? = some ':'

/-- The path of a URL. -/
def path (u : Url) : List Char :=
  u.target.toList.takeWhile (· ≠ '?')

/-- The path up to its last slash. -/
def directory (u : Url) : List Char :=
  (u.path.reverse.dropWhile (· ≠ '/')).reverse

/-- The place that a reference leads to from here. -/
def join? (here : Url) (reference : String) : Option Url :=
  let fromOrigin (target : List Char) := ofText? (here.origin ++ String.ofList target)
  match (trimmed reference).toList with
  | [] => some here
  | '#' :: _ => some here
  | '?' :: query => fromOrigin (here.path ++ '?' :: query)
  | c :: rest =>
    if isAbsolute (c :: rest) then ofText? reference
    else if isSlash c then
      if rest.head?.any isSlash then ofText? ((if here.secure then "https:" else "http:") ++ String.ofList (c :: rest))
      else fromOrigin (c :: rest)
    else fromOrigin (here.directory ++ c :: rest)

end Url

/-- The place that a response sends its request on to. -/
def WireResponse.redirect? (here : Url) (r : WireResponse) : Option Url :=
  if r.status ∈ [301, 302, 303, 307, 308] then
    (r.header? "location").bind fun value => (Text.ofUtf8? value).bind here.join?
  else none

namespace WireRequest

/-- A request without some headers. -/
def without (r : WireRequest) (names : List String) : WireRequest :=
  { r with headers := r.headers.filter fun (name, _) => name ∉ names }

/-- A request that asks for something and brings nothing. -/
def emptied (r : WireRequest) : WireRequest :=
  { r with method := .get, body := none }.without
    ["content-type", "content-length", "content-encoding", "transfer-encoding"]

/-- The request that a response with this status sends on. -/
def redirected (r : WireRequest) (status : Nat) (here next : Url) : WireRequest :=
  let r := if status = 307 || status = 308 then r else r.emptied
  let r := if here.host = next.host && here.port = next.port then r
    else r.without ["authorization", "cookie", "cookie2", "proxy-authorization", "www-authenticate"]
  let r := if here.secure && !next.secure then r
    else
      let r := r.without ["referer"]
      { r with headers := r.headers ++ [("referer", here.render)] }
  { r with target := next.target }

end WireRequest

/-- Brings a request to a place and a response back. -/
abbrev Carrier (m : Type → Type) := Url → WireRequest → m (Except TransportError WireResponse)

namespace Server

variable {m : Type → Type} [Monad m]

/-- How often a request is sent on. -/
def redirectLimit : Nat := 10

/-- Carries a request to where it ends, sent on as often as the number says. -/
def follow (carry : Carrier m) (count : Nat) (url : Url) (request : WireRequest) : m Outcome := do
  match ← carry url request with
  | .error fault => return .error fault
  | .ok response =>
    match response.redirect? url, count with
    | none, _ => return .ok response.toResponse
    | some _, 0 => return .error (.other ("error following redirect for url (" ++ url.render ++ ")"))
    | some next, count + 1 => follow carry count next (request.redirected response.status url next)

/-- One exchange. -/
def exchange (carry : Carrier m) (s : Server) (r : Request) : m Outcome :=
  match s.prepare r with
  | none => return .error (.other "builder error")
  | some (url, request) => follow carry redirectLimit url request

end Server

end Entitle
