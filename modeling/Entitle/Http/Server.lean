import Entitle.Http.Wire

/-!
The server that a client talks to, and what it is sent.
-/

namespace Entitle

/-- A server, with what every request to it carries. -/
structure Server where
  /-- Without slashes at its end. -/
  baseUrl : String
  apiKey : Option String
  agent : String
  deriving DecidableEq, Repr

namespace Server

/-- A text that a header can hold: no control character but the tab. -/
def isHeaderValue (s : String) : Bool :=
  s.toList.all fun c => c = '\t' || (' ' ≤ c && c ≠ '\x7f')

/-- A name that a header can have. -/
def isHeaderName (s : String) : Bool :=
  !s.isEmpty && s.toList.all fun c => c.isAlphanum || "!#$%&'*+-.^_\x60|~".toList.contains c

/-- A URL without the slashes at its end. -/
def trimSlashes (url : String) : String :=
  String.ofList (url.toList.reverse.dropWhile (· = '/')).reverse

/-- The server at a base URL; `none` if no header can name the agent. -/
def ofBase? (baseUrl : String) (apiKey : Option String) (agent : String) : Option Server :=
  if isHeaderValue agent then some ⟨trimSlashes baseUrl, apiKey, agent⟩ else none

/-- The URL of a path: a slash stands between the two, and none is added to one that is there. -/
def url (s : Server) (path : String) : String :=
  if "/".toList.isPrefixOf path.toList then s.baseUrl ++ path else s.baseUrl ++ "/" ++ path

/-- The headers of a request, apart from the host. -/
def headers (s : Server) (r : Request) : List (String × String) :=
  let own := r.headers.map fun (name, value) => (name.toLower, value)
  [("accept", "application/json")]
    ++ (s.apiKey.map fun key => ("authorization", "Bearer " ++ key)).toList
    ++ own
    ++ (match r.body with
      | some body => [("content-type", "application/json"), ("content-length", toString body.length)]
      | none => [])
    ++ (if (own.lookup "user-agent").isSome then [] else [("user-agent", s.agent)])

/-- What is sent for a request, and where; `none` for one that cannot be sent. -/
def prepare (s : Server) (r : Request) : Option (Url × WireRequest) :=
  let headers := s.headers r
  if headers.all fun (name, value) => isHeaderName name && isHeaderValue value then
    (Url.ofText? (s.url r.path)).map fun url => (url, ⟨r.method, url.target, headers, r.body⟩)
  else none

end Server

end Entitle
