import Entitle.Json.Writer
import Entitle.Json.Reader
import Entitle.Text.Blake3

/-!
What makes two requests the same: method, path and canonical body.

Equal signatures share one exchange and one cache entry, whoever asks. A body is written with its
members in key order, so their order in the caller's value does not count.
-/

namespace Entitle

/-- An HTTP method. -/
inductive Method where
  | get
  | post
  | put
  | delete
  deriving DecidableEq, Repr

/-- The method's name on the wire. -/
def Method.name : Method → String
  | .get => "GET"
  | .post => "POST"
  | .put => "PUT"
  | .delete => "DELETE"

/-- The identity of a request. -/
structure Signature where
  method : Method
  path : String
  /-- The canonical JSON text of the body. -/
  body : Option String := none
  deriving DecidableEq, Repr

namespace Signature

/-- A request without a body. -/
def bare (method : Method) (path : String) : Signature :=
  ⟨method, path, none⟩

/-- A request with a JSON body. -/
def withBody (method : Method) (path : String) (body : Json) : Signature :=
  ⟨method, path, some body.canonical.render⟩

/-- Method and path. -/
def render (s : Signature) : String :=
  s.method.name ++ " " ++ s.path

/-- The digest of a body in a cache key: half of its BLAKE3 digest. -/
def bodyDigest (body : String) : String :=
  Text.hex ((Text.Blake3.digest (Text.utf8 body)).take 16)

/-- The name of the request's state in a store. A body counts by its digest, so keys stay short. -/
def cacheKey (s : Signature) : String :=
  match s.body with
  | none => s.render
  | some body => s.render ++ " #" ++ bodyDigest body

end Signature

end Entitle
