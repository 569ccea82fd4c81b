import Entitle.Json.Shape
import Entitle.Timestamp.Reader

/-!
The responses of the endpoints: offerings, customer info and the entitlements of products.

Each type has a decoder and a writer. Unknown members are ignored, a date that cannot be read is absent
and a collection that cannot be read is empty.
-/

namespace Entitle

open Json (Decoder Field Record)

/-- A timestamp, or none for anything else. -/
def Instant.decodeLenient : Decoder (Option Instant) := fun value =>
  .ok (value.text?.bind Instant.parse?)

/-- A timestamp or null. -/
def Instant.optionToJson : Option Instant → Json
  | some t => .string t.render
  | none => .null

/-- A text or null. -/
def Json.ofOption : Option String → Json
  | some s => .string s
  | none => .null

/-! ## Offerings -/

/-- A product that can be bought. -/
structure Package where
  identifier : String
  platformProductIdentifier : String
  deriving DecidableEq, Repr

namespace Package

/-- The fields of a package. -/
def record : Record Package where
  name := "Package"
  blank := ⟨"", ""⟩
  fields := [
    .of "identifier" true .text fun v r => { r with identifier := v },
    .of "platform_product_identifier" true .text fun v r => { r with platformProductIdentifier := v }]

/-- The decoder. -/
def decoder : Decoder Package :=
  record.decode

/-- The JSON of a package. -/
def toJson (p : Package) : Json :=
  .object [("identifier", .string p.identifier), ("platform_product_identifier", .string p.platformProductIdentifier)]

end Package

/-- Packages that are offered together. -/
structure Offering where
  identifier : String
  description : String
  packages : List Package
  deriving DecidableEq, Repr

namespace Offering

/-- The fields of an offering. -/
def record : Record Offering where
  name := "Offering"
  blank := ⟨"", "", []⟩
  fields := [
    .of "identifier" true .text fun v r => { r with identifier := v },
    .of "description" false .text fun v r => { r with description := v },
    .of "packages" false (.lenient [] (.list Package.decoder)) fun v r => { r with packages := v }]

/-- The decoder. -/
def decoder : Decoder Offering :=
  record.decode

/-- The JSON of an offering. -/
def toJson (o : Offering) : Json :=
  .object [
    ("identifier", .string o.identifier),
    ("description", .string o.description),
    ("packages", .array (o.packages.map Package.toJson))]

end Offering

/-- The offerings presented to a user. -/
structure Offerings where
  currentId : Option String
  offerings : List Offering
  deriving DecidableEq, Repr

namespace Offerings

/-- The fields of offerings. -/
def record : Record Offerings where
  name := "OfferingsResponse"
  blank := ⟨none, []⟩
  fields := [
    .of "current_offering_id" false (.optional .text) fun v r => { r with currentId := v },
    .of "offerings" false (.lenient [] (.list Offering.decoder)) fun v r => { r with offerings := v }]

/-- The decoder. -/
def decoder : Decoder Offerings :=
  record.decode

/-- The JSON of offerings. -/
def toJson (o : Offerings) : Json :=
  .object [("current_offering_id", .ofOption o.currentId), ("offerings", .array (o.offerings.map Offering.toJson))]

/-- The first offering with the current identifier. -/
def current? (o : Offerings) : Option Offering := do
  let id ← o.currentId
  o.offerings.find? (·.identifier = id)

end Offerings

/-! ## Customer info -/

/-- Access that a purchase gives. -/
structure Entitlement where
  productIdentifier : String
  expiresDate : Option Instant
  purchaseDate : Option Instant
  deriving DecidableEq, Repr

namespace Entitlement

/-- The fields of an entitlement. -/
def record : Record Entitlement where
  name := "Entitlement"
  blank := ⟨"", none, none⟩
  fields := [
    .of "product_identifier" false .text fun v r => { r with productIdentifier := v },
    .of "expires_date" false Instant.decodeLenient fun v r => { r with expiresDate := v },
    .of "purchase_date" false Instant.decodeLenient fun v r => { r with purchaseDate := v }]

/-- The decoder. -/
def decoder : Decoder Entitlement :=
  record.decode

/-- The JSON of an entitlement. -/
def toJson (e : Entitlement) : Json :=
  .object [
    ("product_identifier", .string e.productIdentifier),
    ("expires_date", Instant.optionToJson e.expiresDate),
    ("purchase_date", Instant.optionToJson e.purchaseDate)]

/-- It has no expiry, or expires after a moment. -/
def isActive (e : Entitlement) (now : Instant) : Bool :=
  match e.expiresDate with
  | none => true
  | some expires => expires.isAfter now

end Entitlement

/-- A subscription to a product. -/
structure Subscription where
  expiresDate : Option Instant
  purchaseDate : Option Instant
  firstPurchaseDate : Option Instant
  periodType : Option String
  store : Option String
  isSandbox : Bool
  unsubscribeDetectedAt : Option Instant
  billingIssuesDetectedAt : Option Instant
  deriving DecidableEq, Repr

namespace Subscription

/-- The fields of a subscription. -/
def record : Record Subscription where
  name := "Subscription"
  blank := ⟨none, none, none, none, none, false, none, none⟩
  fields := [
    .of "expires_date" false Instant.decodeLenient fun v r => { r with expiresDate := v },
    .of "purchase_date" false Instant.decodeLenient fun v r => { r with purchaseDate := v },
    .of "original_purchase_date" false Instant.decodeLenient fun v r => { r with firstPurchaseDate := v },
    .of "period_type" false (.optional .text) fun v r => { r with periodType := v },
    .of "store" false (.optional .text) fun v r => { r with store := v },
    .of "is_sandbox" false .flag fun v r => { r with isSandbox := v },
    .of "unsubscribe_detected_at" false Instant.decodeLenient fun v r => { r with unsubscribeDetectedAt := v },
    .of "billing_issues_detected_at" false Instant.decodeLenient fun v r =>
      { r with billingIssuesDetectedAt := v }]

/-- The decoder. -/
def decoder : Decoder Subscription :=
  record.decode

/-- The JSON of a subscription. -/
def toJson (s : Subscription) : Json :=
  .object [
    ("expires_date", Instant.optionToJson s.expiresDate),
    ("purchase_date", Instant.optionToJson s.purchaseDate),
    ("original_purchase_date", Instant.optionToJson s.firstPurchaseDate),
    ("period_type", .ofOption s.periodType),
    ("store", .ofOption s.store),
    ("is_sandbox", .bool s.isSandbox),
    ("unsubscribe_detected_at", Instant.optionToJson s.unsubscribeDetectedAt),
    ("billing_issues_detected_at", Instant.optionToJson s.billingIssuesDetectedAt)]

end Subscription

/-- A customer's purchases. -/
structure Subscriber where
  firstAppUserId : String
  firstSeen : Option Instant
  firstPurchaseDate : Option Instant
  managementUrl : Option String
  entitlements : KeyMap Entitlement
  subscriptions : KeyMap Subscription
  deriving DecidableEq, Repr

namespace Subscriber

/-- The fields of a subscriber. -/
def record : Record Subscriber where
  name := "Subscriber"
  blank := ⟨"", none, none, none, [], []⟩
  fields := [
    .of "original_app_user_id" false .text fun v r => { r with firstAppUserId := v },
    .of "first_seen" false Instant.decodeLenient fun v r => { r with firstSeen := v },
    .of "original_purchase_date" false Instant.decodeLenient fun v r => { r with firstPurchaseDate := v },
    .of "management_url" false (.optional .text) fun v r => { r with managementUrl := v },
    .of "entitlements" false (.lenient [] (.map Entitlement.decoder)) fun v r => { r with entitlements := v },
    .of "subscriptions" false (.lenient [] (.map Subscription.decoder)) fun v r =>
      { r with subscriptions := v }]

/-- The decoder. -/
def decoder : Decoder Subscriber :=
  record.decode

/-- The JSON of a subscriber. -/
def toJson (s : Subscriber) : Json :=
  .object [
    ("original_app_user_id", .string s.firstAppUserId),
    ("first_seen", Instant.optionToJson s.firstSeen),
    ("original_purchase_date", Instant.optionToJson s.firstPurchaseDate),
    ("management_url", .ofOption s.managementUrl),
    ("entitlements", .object (s.entitlements.map fun (id, e) => (id, e.toJson))),
    ("subscriptions", .object (s.subscriptions.map fun (id, e) => (id, e.toJson)))]

/-- The entitlements that are active at a moment. -/
def activeEntitlements (s : Subscriber) (now : Instant) : List String :=
  KeyMap.keys (s.entitlements.filter fun (_, e) => e.isActive now)

end Subscriber

/-- A customer's state at a date. -/
structure CustomerInfo where
  requestDate : Option Instant
  subscriber : Subscriber
  deriving DecidableEq, Repr

namespace CustomerInfo

/-- The fields of customer info. -/
def record : Record CustomerInfo where
  name := "CustomerInfoResponse"
  blank := ⟨none, ⟨"", none, none, none, [], []⟩⟩
  fields := [
    .of "request_date" false Instant.decodeLenient fun v r => { r with requestDate := v },
    .of "subscriber" true Subscriber.decoder fun v r => { r with subscriber := v }]

/-- The decoder. -/
def decoder : Decoder CustomerInfo :=
  record.decode

/-- The JSON of customer info. -/
def toJson (c : CustomerInfo) : Json :=
  .object [("request_date", Instant.optionToJson c.requestDate), ("subscriber", c.subscriber.toJson)]

end CustomerInfo

/-! ## Entitlements of products -/

/-- The entitlements that a product gives. -/
structure ProductMapping where
  id : String
  entitlements : List String
  deriving DecidableEq, Repr

namespace ProductMapping

/-- The fields of a product's entitlements. -/
def record : Record ProductMapping where
  name := "ProductEntitlementMapping"
  blank := ⟨"", []⟩
  fields := [
    .of "id" true .text fun v r => { r with id := v },
    .of "entitlements" false (.list .text) fun v r => { r with entitlements := v }]

/-- The decoder. -/
def decoder : Decoder ProductMapping :=
  record.decode

/-- The JSON of a product's entitlements. -/
def toJson (p : ProductMapping) : Json :=
  .object [("id", .string p.id), ("entitlements", .array (p.entitlements.map .string))]

end ProductMapping

/-- The entitlements of all products. -/
structure ProductsEntitlements where
  products : List ProductMapping
  deriving DecidableEq, Repr

namespace ProductsEntitlements

/-- The fields of the entitlements of all products. -/
def record : Record ProductsEntitlements where
  name := "ProductsEntitlementsResponse"
  blank := ⟨[]⟩
  fields := [
    .of "products" false (.lenient [] (.list ProductMapping.decoder)) fun v r => { r with products := v }]

/-- The decoder. -/
def decoder : Decoder ProductsEntitlements :=
  record.decode

/-- The JSON of the entitlements of all products. -/
def toJson (p : ProductsEntitlements) : Json :=
  .object [("products", .array (p.products.map ProductMapping.toJson))]

/-- Entitlements by product; of a repeated product the last stays. -/
def mapping (p : ProductsEntitlements) : KeyMap (List String) :=
  .ofPairs (p.products.map fun m => (m.id, m.entitlements))

end ProductsEntitlements

end Entitle
