import Entitle.Json.Stored
import Entitle.Json.Writer
import Entitle.Timestamp.Reader

/-!
What the cache keeps of a response: its validation tag, its body and when it was last known to be current.
-/

namespace Entitle

/-- A cached response. -/
structure CacheEntry where
  tag : String
  body : String
  lastRefreshed : Instant
  deriving DecidableEq, Repr

namespace CacheEntry

/-- The JSON of an entry. -/
def toJson (e : CacheEntry) : Json :=
  .object [
    ("validation_tag", .string e.tag),
    ("stored_body", .string e.body),
    ("last_refreshed", .string e.lastRefreshed.render)]

/-- An entry some of whose fields have been read. -/
structure Draft where
  tag : Option String := none
  body : Option String := none
  lastRefreshed : Option Instant := none

/-- A stored timestamp. -/
def instantValue (bytes : Bytes) : Except Json.Fault (Instant × Bytes) := do
  let (text, rest) ← Json.textValue bytes
  match Instant.parsePersisted? text with
  | some t => return (t, rest)
  | none => Json.failAt .wrongShape rest

/-- The fields in order. -/
def fields : List (Json.StoredField Draft) := [
  ⟨"validation_tag", (·.tag.isSome), fun bytes d =>
    (Json.textValue bytes).map fun (v, r) => ({ d with tag := some v }, r)⟩,
  ⟨"stored_body", (·.body.isSome), fun bytes d =>
    (Json.textValue bytes).map fun (v, r) => ({ d with body := some v }, r)⟩,
  ⟨"last_refreshed", (·.lastRefreshed.isSome), fun bytes d =>
    (instantValue bytes).map fun (v, r) => ({ d with lastRefreshed := some v }, r)⟩]

/-- Reads the text of an entry. -/
def read (bytes : Bytes) : Except Json.Fault CacheEntry := do
  match ← Json.readStored fields {} bytes with
  | ⟨some tag, some body, some lastRefreshed⟩ => return ⟨tag, body, lastRefreshed⟩
  | _ => Json.failAt .wrongShape []

end CacheEntry

end Entitle
