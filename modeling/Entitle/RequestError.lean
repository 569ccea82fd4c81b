import Entitle.Http.Message

/-!
The errors a caller can get.

A backend error is the server's own rejection of a request, in full or in part; it is called unknown when
its code is missing or not one of the known codes. Only network errors are worth a retry.
-/

namespace Entitle

/-- An error code that the server declares. -/
inductive BackendCode where
  | invalidPlatform
  | storeProblem
  | cannotTransferPurchase
  | invalidReceiptToken
  | invalidAppStoreSharedSecret
  | invalidPaymentModeOrIntroPriceNotProvided
  | productIdsMalformed
  | internalServerError
  | invalidAppUserId
  | invalidApiKey
  | badRequest
  | playStoreQuotaExceeded
  | playStoreInvalidPackageName
  | playStoreGenericError
  | userIneligibleForPromoOffer
  | invalidAppleSubscriptionKey
  | invalidSubscriberAttributes
  | invalidSubscriberAttributesBody
  | purchasedProductMissingInReceipt
  /-- A number that is no known code. -/
  | unknown (number : Int)
  /-- The server declared none. -/
  | missing
  deriving DecidableEq, Repr

namespace BackendCode

/-- The known codes with their numbers and names. -/
def table : List (BackendCode × Int × String) := [
  (.invalidPlatform, 7000, "InvalidPlatform"),
  (.storeProblem, 7101, "StoreProblem"),
  (.cannotTransferPurchase, 7102, "CannotTransferPurchase"),
  (.invalidReceiptToken, 7103, "InvalidReceiptToken"),
  (.invalidAppStoreSharedSecret, 7104, "InvalidAppStoreSharedSecret"),
  (.invalidPaymentModeOrIntroPriceNotProvided, 7105, "InvalidPaymentModeOrIntroPriceNotProvided"),
  (.productIdsMalformed, 7106, "ProductIdsMalformed"),
  (.internalServerError, 7110, "InternalServerError"),
  (.invalidAppUserId, 7220, "InvalidAppUserId"),
  (.invalidApiKey, 7225, "InvalidApiKey"),
  (.badRequest, 7226, "BadRequest"),
  (.playStoreQuotaExceeded, 7229, "PlayStoreQuotaExceeded"),
  (.playStoreInvalidPackageName, 7230, "PlayStoreInvalidPackageName"),
  (.playStoreGenericError, 7231, "PlayStoreGenericError"),
  (.userIneligibleForPromoOffer, 7232, "UserIneligibleForPromoOffer"),
  (.invalidAppleSubscriptionKey, 7234, "InvalidAppleSubscriptionKey"),
  (.invalidSubscriberAttributes, 7263, "InvalidSubscriberAttributes"),
  (.invalidSubscriberAttributesBody, 7264, "InvalidSubscriberAttributesBody"),
  (.purchasedProductMissingInReceipt, 7712, "PurchasedProductMissingInReceipt")]

/-- The code of a number. -/
def ofNumber (number : Int) : BackendCode :=
  match table.find? fun row => row.2.1 = number with
  | some row => row.1
  | none => .unknown number

/-- The number that the server sent. -/
def number? : BackendCode → Option Int
  | .unknown number => some number
  | .missing => none
  | code => (table.find? fun row => row.1 = code).map fun row => row.2.1

/-- A known code. -/
def isRecognized : BackendCode → Bool
  | .unknown _ => false
  | .missing => false
  | _ => true

/-- The code's name. -/
def name : BackendCode → String
  | .unknown _ => "Unknown"
  | .missing => "Missing"
  | code => ((table.find? fun row => row.1 = code).map fun row => row.2.2).getD ""

/-- Name and number. -/
def render (code : BackendCode) : String :=
  match code.number? with
  | some number => code.name ++ " (" ++ toString number ++ ")"
  | none => code.name

end BackendCode

/-- The server's rejection of a request, in full or in part. -/
structure BackendError where
  status : Status
  code : BackendCode
  message : Option String
  /-- Messages on single attributes, by attribute. -/
  attributeErrors : KeyMap String
  deriving DecidableEq, Repr

namespace BackendError

/-- A rejection with messages on attributes as they came; of a repeated attribute the last stays. -/
def ofPairs (status : Status) (code : BackendCode) (message : Option String) (pairs : List (String × String)) :
    BackendError :=
  ⟨status, code, message, KeyMap.ofPairs pairs⟩

/-- The server stored the request all the same. -/
def isSynced (e : BackendError) : Bool :=
  e.status.isSynced

/-- Purchases known locally may be finished all the same. -/
def isFinishable (e : BackendError) : Bool :=
  e.status.isFinishable

/-- The rejection in words. -/
def render (e : BackendError) : String :=
  "status " ++ e.status.render ++ ", code " ++ e.code.render
    ++ (match e.message with
      | some message => ": " ++ message
      | none => "")
    ++ (if e.attributeErrors.isEmpty then "" else " (" ++ toString e.attributeErrors.length ++ " attribute errors)")

end BackendError

/-- What a caller gets in place of a result. -/
inductive RequestError where
  /-- No response came. -/
  | network (error : TransportError)
  /-- A response came whose body cannot be used. -/
  | malformed (reason body : String)
  /-- The server rejected the request with a known code. -/
  | backend (error : BackendError)
  /-- The server rejected the request with another code or none. -/
  | unknownBackend (error : BackendError)
  deriving DecidableEq, Repr

namespace RequestError

/-- A rejection, told apart by its code. -/
def ofBackend (e : BackendError) : RequestError :=
  if e.code.isRecognized then .backend e else .unknownBackend e

/-- The rejection in it. -/
def backend? : RequestError → Option BackendError
  | .backend e => some e
  | .unknownBackend e => some e
  | _ => none

/-- The same request may succeed later. -/
def isRetryable : RequestError → Bool
  | .network _ => true
  | _ => false

/-- The server stored the request all the same. -/
def isSynced (e : RequestError) : Bool :=
  e.backend?.any (·.isSynced)

/-- Purchases known locally may be finished all the same. -/
def isFinishable (e : RequestError) : Bool :=
  e.backend?.any (·.isFinishable)

/-- The name of the kind of error. -/
def kind : RequestError → String
  | .network _ => "NetworkError"
  | .malformed _ _ => "MalformedResponseError"
  | .backend _ => "BackendError"
  | .unknownBackend _ => "UnknownBackendError"

/-- The error in words. -/
def message : RequestError → String
  | .network e => "network error: " ++ e.message
  | .malformed reason _ => "malformed response: " ++ reason
  | .backend e => "backend error: " ++ e.render
  | .unknownBackend e => "unknown backend error: " ++ e.render

end RequestError

/-- A result, or the error in its place. -/
abbrev Classified (α : Type) := Except RequestError α

end Entitle
