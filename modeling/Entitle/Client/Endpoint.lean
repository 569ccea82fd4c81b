import Entitle.Signature
import Entitle.Text.Base64
import Entitle.Text.PercentEncoding

/-!
The endpoints of the server and the signatures of their requests.

A user identifier is percent-encoded into one path segment, so no identifier can stand for another path.
-/

namespace Entitle

/-- A receipt to upload. -/
structure Receipt where
  user : String
  content : Bytes
  /-- The transactions that the receipt covers, as far as they are known. -/
  transactions : List String := []
  products : List String := []
  isRestore : Bool := false
  /-- The offering that was presented to the user. -/
  offering : Option String := none
  deriving DecidableEq, Repr

/-- A restore, or a receipt without known transactions, is sent even when there is nothing new. -/
def Receipt.isReceiptOnly (r : Receipt) : Bool :=
  r.isRestore || r.transactions.isEmpty

/-- A change of an attribute; no value clears it. -/
structure Attribute where
  value : Option String
  /-- In milliseconds. -/
  updatedAt : Int
  deriving DecidableEq, Repr

namespace Endpoint

/-- The path of a user. -/
def userPath (user : String) : String :=
  "/subscribers/" ++ Text.PercentEncoding.encode user

/-- What a user has bought. -/
def customerInfo (user : String) : Signature :=
  .bare .get (userPath user)

/-- What a user can buy. -/
def offerings (user : String) : Signature :=
  .bare .get (userPath user ++ "/offerings")

/-- Which product unlocks which entitlements. -/
def productsEntitlements : Signature :=
  .bare .get "/products_entitlement_mapping"

/-- A member with a list of texts; an empty list is left out. -/
def listMember (name : String) : List String → List (String × Json)
  | [] => []
  | items => [(name, .array (items.map .string))]

/-- The body of an upload, with the transactions to be acknowledged. -/
def receiptBody (r : Receipt) (unsynced : List String) : Json :=
  .object ([
    ("fetch_token", .string (Text.Base64.encode r.content)),
    ("app_user_id", .string r.user),
    ("is_restore", .bool r.isRestore)]
    ++ listMember "product_ids" r.products
    ++ listMember "transaction_ids" unsynced
    ++ (r.offering.map fun o => ("presented_offering_identifier", Json.string o)).toList)

/-- The upload of a receipt. -/
def receipt (r : Receipt) (unsynced : List String) : Signature :=
  .withBody .post "/receipts" (receiptBody r unsynced)

/-- The JSON of an attribute. -/
def attributeBody (a : Attribute) : Json :=
  .object [
    ("value", match a.value with
      | some value => .string value
      | none => .null),
    ("updated_at_ms", .int a.updatedAt)]

/-- The change of a user's attributes. -/
def attributes (user : String) (changes : KeyMap Attribute) : Signature :=
  .withBody .post (userPath user ++ "/attributes")
    (.object [("attributes", .object (changes.map fun (name, a) => (name, attributeBody a)))])

end Endpoint

end Entitle
