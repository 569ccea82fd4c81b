import Entitle.Classify
import Entitle.Proofs.Responses.Cells

/-!
# The parts of a response

A part of a response is a record that it is read from, at its place in the payload. A member that the record does not
declare changes nothing of what is read, nor the reason why nothing is (`Classify.undeclared_members_ignored`).
-/

namespace Entitle
open Json

/-! ### Readings -/

namespace Classify
variable {α : Type} {read : Decoder α} {edit : Json → Json} {mask : α → α}

/-- Both are values, the same but for what the mask covers, or neither is one for the same reason. -/
def Alike (mask : α → α) : Classified α → Classified α → Prop
  | .ok x, .ok y => mask x = mask y
  | .error (.malformed reason _), .error (.malformed reason' _) => reason = reason'
  | _, _ => False

theorem decode_eq_ok {payload : Json} {x : α} (h : decode read payload = .ok x) : read payload = .ok x := by
  unfold decode at h
  split at h
  · next y hread =>
    obtain rfl : y = x := Except.ok.inj h
    exact hread
  · cases h

theorem alike_decode (h : read.Blind edit mask) (payload : Json) :
    Alike mask (decode read (edit payload)) (decode read payload) := by
  have hread := h payload
  unfold decode
  cases hedited : read (edit payload) with
  | ok x =>
    cases hplain : read payload with
    | ok y => rw [hedited, hplain] at hread; exact Except.ok.inj hread
    | error e => rw [hedited, hplain] at hread; cases hread
  | error e =>
    cases hplain : read payload with
    | ok y => rw [hedited, hplain] at hread; cases hread
    | error e' => rw [hedited, hplain] at hread; cases hread; rfl

end Classify

/-! ### Offerings -/

section
variable {edit : Json → Json}

namespace Offering

/-- A change of one package. -/
def onPackage (index : Nat) (f : Package → Package) (o : Offering) : Offering :=
  { o with packages := o.packages.modify index f }

theorem onPackage_id (index : Nat) : onPackage index id = id :=
  funext fun o => by rw [onPackage, List.modify_id]; rfl

end Offering

namespace Offerings

/-- A change of one offering. -/
def onOffering (index : Nat) (f : Offering → Offering) (o : Offerings) : Offerings :=
  { o with offerings := o.offerings.modify index f }

theorem onOffering_id (index : Nat) : onOffering index id = id :=
  funext fun o => by rw [onOffering, List.modify_id]; rfl

/-- A record that offerings are read from. -/
inductive Part where
  | whole
  | offering (index : Nat)
  | package (offering index : Nat)

namespace Part

/-- Where it stands in the payload. -/
def path : Part → Path
  | whole => []
  | offering i => [.field Offerings.record.names "offerings", .item i]
  | package i j =>
    [.field Offerings.record.names "offerings", .item i, .field Offering.record.names "packages", .item j]

/-- What it is read as. -/
def Value : Part → Type
  | whole => Offerings
  | offering _ => Offering
  | package _ _ => Package

/-- Its fields. -/
def record : (part : Part) → Record part.Value
  | whole => Offerings.record
  | offering _ => Offering.record
  | package _ _ => Package.record

/-- A change of it in the whole. -/
def on : (part : Part) → (part.Value → part.Value) → Offerings → Offerings
  | whole, f => f
  | offering i, f => onOffering i f
  | package i j, f => onOffering i (Offering.onPackage j f)

theorem on_id (part : Part) : part.on id = id := by
  cases part with
  | whole => rfl
  | offering i => exact onOffering_id i
  | package i j => exact (congrArg (onOffering i) (Offering.onPackage_id j)).trans (onOffering_id i)

/-- What the part is blind to, the whole is at its place. -/
theorem blind (part : Part) {f : part.Value → part.Value} (h : Decoder.Blind part.record.decode edit f) :
    Offerings.decoder.Blind (editAt part.path edit) (part.on f) := by
  cases part with
  | whole => exact h
  | offering i => exact describes.blind_item offeringsCell_mem h i
  | package i j =>
    exact describes.blind_item offeringsCell_mem (Offering.describes.blind_item Offering.packagesCell_mem h j) i

end Part

end Offerings

/-! ### Customer info -/

namespace Subscriber

/-- A change of one entitlement. -/
def onEntitlement (id : String) (f : Entitlement → Entitlement) (s : Subscriber) : Subscriber :=
  { s with entitlements := KeyMap.modify s.entitlements id f }

/-- A change of one subscription. -/
def onSubscription (id : String) (f : Subscription → Subscription) (s : Subscriber) : Subscriber :=
  { s with subscriptions := KeyMap.modify s.subscriptions id f }

theorem onEntitlement_id (key : String) : onEntitlement key id = id :=
  funext fun s => by rw [onEntitlement, KeyMap.modify_id]; rfl

theorem onSubscription_id (key : String) : onSubscription key id = id :=
  funext fun s => by rw [onSubscription, KeyMap.modify_id]; rfl

end Subscriber

namespace CustomerInfo

/-- A change of the subscriber. -/
def onSubscriber (f : Subscriber → Subscriber) (c : CustomerInfo) : CustomerInfo :=
  { c with subscriber := f c.subscriber }

/-- A record that customer info is read from. -/
inductive Part where
  | whole
  | subscriber
  | entitlement (id : String)
  | subscription (id : String)

namespace Part

/-- Where it stands in the payload. -/
def path : Part → Path
  | whole => []
  | subscriber => [.field CustomerInfo.record.names "subscriber"]
  | entitlement id =>
    [.field CustomerInfo.record.names "subscriber", .field Subscriber.record.names "entitlements", .entry id]
  | subscription id =>
    [.field CustomerInfo.record.names "subscriber", .field Subscriber.record.names "subscriptions", .entry id]

/-- What it is read as. -/
def Value : Part → Type
  | whole => CustomerInfo
  | subscriber => Subscriber
  | entitlement _ => Entitlement
  | subscription _ => Subscription

/-- Its fields. -/
def record : (part : Part) → Record part.Value
  | whole => CustomerInfo.record
  | subscriber => Subscriber.record
  | entitlement _ => Entitlement.record
  | subscription _ => Subscription.record

/-- A change of it in the whole. -/
def on : (part : Part) → (part.Value → part.Value) → CustomerInfo → CustomerInfo
  | whole, f => f
  | subscriber, f => onSubscriber f
  | entitlement id, f => onSubscriber (Subscriber.onEntitlement id f)
  | subscription id, f => onSubscriber (Subscriber.onSubscription id f)

theorem on_id (part : Part) : part.on id = id := by
  cases part with
  | whole | subscriber => rfl
  | entitlement id => exact congrArg onSubscriber (Subscriber.onEntitlement_id id)
  | subscription id => exact congrArg onSubscriber (Subscriber.onSubscription_id id)

theorem blind (part : Part) {f : part.Value → part.Value} (h : Decoder.Blind part.record.decode edit f) :
    CustomerInfo.decoder.Blind (editAt part.path edit) (part.on f) := by
  cases part with
  | whole => exact h
  | subscriber => exact describes.blind subscriberCell_mem h
  | entitlement id =>
    exact describes.blind subscriberCell_mem (Subscriber.describes.blind_entry Subscriber.entitlementsCell_mem h id)
  | subscription id =>
    exact describes.blind subscriberCell_mem (Subscriber.describes.blind_entry Subscriber.subscriptionsCell_mem h id)

end Part

end CustomerInfo

/-! ### Entitlements of products -/

namespace ProductsEntitlements

/-- A change of one product. -/
def onProduct (index : Nat) (f : ProductMapping → ProductMapping) (p : ProductsEntitlements) : ProductsEntitlements :=
  { p with products := p.products.modify index f }

theorem onProduct_id (index : Nat) : onProduct index id = id :=
  funext fun p => by rw [onProduct, List.modify_id]; rfl

/-- A record that the entitlements of products are read from. -/
inductive Part where
  | whole
  | product (index : Nat)

namespace Part

/-- Where it stands in the payload. -/
def path : Part → Path
  | whole => []
  | product i => [.field ProductsEntitlements.record.names "products", .item i]

/-- What it is read as. -/
def Value : Part → Type
  | whole => ProductsEntitlements
  | product _ => ProductMapping

/-- Its fields. -/
def record : (part : Part) → Record part.Value
  | whole => ProductsEntitlements.record
  | product _ => ProductMapping.record

/-- A change of it in the whole. -/
def on : (part : Part) → (part.Value → part.Value) → ProductsEntitlements → ProductsEntitlements
  | whole, f => f
  | product i, f => onProduct i f

theorem on_id (part : Part) : part.on id = id := by
  cases part with
  | whole => rfl
  | product i => exact onProduct_id i

theorem blind (part : Part) {f : part.Value → part.Value} (h : Decoder.Blind part.record.decode edit f) :
    ProductsEntitlements.decoder.Blind (editAt part.path edit) (part.on f) := by
  cases part with
  | whole => exact h
  | product i => exact describes.blind_item productsCell_mem h i

end Part

end ProductsEntitlements

end

/-! ### Undeclared members -/

namespace Classify

/-- In an object that stands for a part of a response, a member that the part does not declare changes neither what is
read nor the reason why nothing is, whatever its value. -/
theorem undeclared_members_ignored (key : String) (value payload : Json) :
    (∀ part : Offerings.Part, key ∉ part.record.names →
        Alike id (decode Offerings.decoder (editAt part.path (withMember key value) payload))
          (decode Offerings.decoder payload)) ∧
      (∀ part : CustomerInfo.Part, key ∉ part.record.names →
        Alike id (decode CustomerInfo.decoder (editAt part.path (withMember key value) payload))
          (decode CustomerInfo.decoder payload)) ∧
      (∀ part : ProductsEntitlements.Part, key ∉ part.record.names →
        Alike id (decode ProductsEntitlements.decoder (editAt part.path (withMember key value) payload))
          (decode ProductsEntitlements.decoder payload)) := by
  refine ⟨fun part hkey => ?_, fun part hkey => ?_, fun part hkey => ?_⟩
  · exact part.on_id ▸ alike_decode (part.blind (Record.blind_withMember hkey value)) payload
  · exact part.on_id ▸ alike_decode (part.blind (Record.blind_withMember hkey value)) payload
  · exact part.on_id ▸ alike_decode (part.blind (Record.blind_withMember hkey value)) payload

/-- A payload that all three responses are read from, with records written as lists. -/
def sharedPayload : Json := .object [
  ("offerings", .array [.array [.string "sale", .string "", .array [
    .object [("identifier", .string "monthly"), ("platform_product_identifier", .string "m1")]]]]),
  ("products", .array [.object [("id", .string "m1")]]),
  ("subscriber", .array [.string "user", .null, .null, .null,
    .object [("pro", .object [("expires_date", .string "1970-01-01")])]])]

theorem undeclared_members_ignored_nested :
    ("price" ∉ (Offerings.Part.package 0 0).record.names ∧
        Alike id (decode Offerings.decoder
            (editAt (Offerings.Part.package 0 0).path (withMember "price" (.bool true)) sharedPayload))
          (decode Offerings.decoder sharedPayload)) ∧
      ("price" ∉ (CustomerInfo.Part.entitlement "pro").record.names ∧
        Alike id (decode CustomerInfo.decoder
            (editAt (CustomerInfo.Part.entitlement "pro").path (withMember "price" (.bool true)) sharedPayload))
          (decode CustomerInfo.decoder sharedPayload)) ∧
      "price" ∉ (ProductsEntitlements.Part.product 0).record.names ∧
        Alike id (decode ProductsEntitlements.decoder
            (editAt (ProductsEntitlements.Part.product 0).path (withMember "price" (.bool true)) sharedPayload))
          (decode ProductsEntitlements.decoder sharedPayload) := by
  obtain ⟨hofferings, hcustomer, hproducts⟩ := undeclared_members_ignored "price" (.bool true) sharedPayload
  have hpackage : "price" ∉ (Offerings.Part.package 0 0).record.names := by decide
  have hentitlement : "price" ∉ (CustomerInfo.Part.entitlement "pro").record.names := by decide
  have hproduct : "price" ∉ (ProductsEntitlements.Part.product 0).record.names := by decide
  exact ⟨⟨hpackage, hofferings _ hpackage⟩, ⟨hentitlement, hcustomer _ hentitlement⟩, hproduct, hproducts _ hproduct⟩

/-- The member stands in the payload, and the package is read. -/
example :
    let edited := editAt (Offerings.Part.package 0 0).path (withMember "price" (.bool true)) sharedPayload
    (at? (Offerings.Part.package 0 0).path edited).bind (member? · "price") = some (.bool true) ∧
      decode Offerings.decoder edited = .ok ⟨none, [⟨"sale", "", [⟨"monthly", "m1"⟩]⟩]⟩ := by
  exact ⟨rfl, rfl⟩

end Classify

end Entitle
