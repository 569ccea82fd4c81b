import Entitle.Http.Status
import Entitle.Signature

/-!
Requests, responses and failed exchanges.
-/

namespace Entitle

/-- The request header that carries the last known validation tag. -/
def tagRequestHeader : String := "If-None-Match"

/-- The response header in which the server issues a validation tag. -/
def tagResponseHeader : String := "ETag"

/-- A request ready to be sent. -/
structure Request where
  method : Method
  path : String
  body : Option Bytes
  headers : KeyMap String
  deriving DecidableEq, Repr

namespace Request

/-- The request of a signature, without headers. -/
def ofSignature (s : Signature) : Request :=
  ⟨s.method, s.path, s.body.map Text.utf8, []⟩

/-- Sets a header; names differ by case. -/
def withHeader (r : Request) (name value : String) : Request :=
  { r with headers := r.headers.put name value }

/-- The value of a header. -/
def header? (r : Request) (name : String) : Option String :=
  r.headers.get? name

/-- The validation tag that is sent. -/
def tag? (r : Request) : Option String :=
  r.header? tagRequestHeader

end Request

/-- What the server answered. -/
structure Response where
  status : Status
  tag : Option String
  body : Bytes
  deriving DecidableEq, Repr

/-- Why no response came. -/
inductive TransportError where
  | timeout (detail : String)
  | connect (detail : String)
  /-- The exchange was given up before it had an outcome. -/
  | abandoned
  | other (detail : String)
  deriving DecidableEq, Repr

/-- The failure in words. -/
def TransportError.message : TransportError → String
  | .timeout detail => "request timed out: " ++ detail
  | .connect detail => "could not connect to server: " ++ detail
  | .abandoned => "exchange abandoned before completion"
  | .other detail => "transport failure: " ++ detail

/-- What came of one exchange. -/
abbrev Outcome := Except TransportError Response

end Entitle
