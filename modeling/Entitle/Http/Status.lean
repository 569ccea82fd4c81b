/-!
HTTP status codes and what they mean for a request.
-/

namespace Entitle

/-- An HTTP status code. -/
structure Status where
  code : Nat
  deriving DecidableEq, Repr

namespace Status

/-- Codes 200 to 299. -/
def isSuccessful (s : Status) : Bool :=
  200 ≤ s.code && s.code ≤ 299

/-- Code 304: the tag that was sent is still current. -/
def isNotModified (s : Status) : Bool :=
  s.code = 304

/-- Codes 500 to 599. -/
def isServerError (s : Status) : Bool :=
  500 ≤ s.code && s.code ≤ 599

/-- The server stored the request, though it may have refused part of it. Server errors and 404 alone mean
that nothing was stored. -/
def isSynced (s : Status) : Bool :=
  !s.isServerError && s.code ≠ 404

/-- Purchases known locally may be finished. -/
def isFinishable (s : Status) : Bool :=
  !s.isServerError

/-- The status in digits. -/
def render (s : Status) : String :=
  toString s.code

end Status

end Entitle
