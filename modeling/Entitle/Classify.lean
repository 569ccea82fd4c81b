import Entitle.RequestError
import Entitle.Json.Reader
import Entitle.Json.Shape
import Entitle.Text.Blank
import Entitle.Text.Numeral

/-!
From the outcome of an exchange to a payload or an error.

`classify` answers for every outcome. The body of a rejection is read as far as it goes: a body that
cannot be read still gives the rejection, with a missing code. `decode` gives a payload the type that a
caller expects, so callers of different types can share one payload.
-/

namespace Entitle.Classify

/-- The member that holds the code. -/
def codeKey : String := "code"
/-- The member that holds the message. -/
def messageKey : String := "message"
/-- The member that holds the messages on attributes. -/
def attributeErrorsKey : String := "attribute_errors"
/-- The member in which a success rejects attributes. -/
def nestedKey : String := "attributes_error_response"
/-- The member that names an attribute. -/
def keyNameKey : String := "key_name"

/-- The code that a payload declares: a whole number or the text of one. -/
def declaredCode (payload : Json) : BackendCode :=
  let number? := match payload.member? codeKey with
    | some (.string s) => Text.Numeral.int64? (Text.trimmed s)
    | some value => value.int64?
    | none => none
  match number? with
  | some number => .ofNumber number
  | none => .missing

/-- The message that a payload declares. -/
def declaredMessage (payload : Json) : Option String :=
  (payload.member? messageKey).bind Json.text?

/-- One entry of the list of messages on attributes. -/
def attributePair? (item : Json) : Option (String × String) := do
  let key ← (← item.member? keyNameKey).text?
  let message ← (← item.member? messageKey).text?
  return (key, message)

/-- The messages on attributes, in order; entries of another form do not count. -/
def attributePairs (payload : Json) : List (String × String) :=
  match payload.member? attributeErrorsKey with
  | some (.array items) => items.filterMap attributePair?
  | some (.object members) => members.filterMap fun (key, message) => message.text?.map (key, ·)
  | _ => []

/-- The rejection that a status and a body amount to. -/
def backendError (status : Status) (body : Bytes) : BackendError :=
  let payload := (Json.read? body).getD .null
  let nested := match payload.member? nestedKey with
    | some inner => attributePairs inner
    | none => []
  .ofPairs status (declaredCode payload) (declaredMessage payload) (attributePairs payload ++ nested)

/-- The partial rejection in the payload of a success: messages on attributes, with what goes with them. -/
def partialRejection? (status : Status) (payload : Json) : Option BackendError :=
  match payload.member? nestedKey with
  | some inner =>
    match attributePairs inner with
    | [] => none
    | pairs => some (.ofPairs status (declaredCode inner) (declaredMessage inner) pairs)
  | none => none

/-- The payload of a success. -/
def success (response : Response) : Classified Json :=
  match Json.read response.body with
  | .error fault => .error (.malformed (fault.message response.body) (Text.lossy response.body))
  | .ok payload =>
    match partialRejection? response.status payload with
    | some e => .error (.ofBackend e)
    | none => .ok payload

/-- Why a 304 without a stored body cannot be used. -/
def unmatchedNotModified : String := "not modified without a cached response body"

/-- The payload of an outcome, or the error it amounts to. -/
def classify (outcome : Outcome) : Classified Json :=
  match outcome with
  | .error e => .error (.network e)
  | .ok response =>
    if response.status.isSuccessful then success response
    else if response.status.isNotModified then
      .error (.malformed unmatchedNotModified (Text.lossy response.body))
    else .error (.ofBackend (backendError response.status response.body))

/-- A payload as a type. -/
def decode {α : Type} (decoder : Json.Decoder α) (payload : Json) : Classified α :=
  match decoder payload with
  | .ok result => .ok result
  | .error mismatch => .error (.malformed mismatch.message payload.render)

/-- An outcome as a type. -/
def classifyAs {α : Type} (decoder : Json.Decoder α) (outcome : Outcome) : Classified α :=
  (classify outcome).bind (decode decoder)

end Entitle.Classify
