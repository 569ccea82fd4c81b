import Entitle.Proofs.Json.Cell
import Entitle.Responses

/-!
# The cells of the responses

The records that responses are made of, each described by its cells.
-/

namespace Entitle
open Json

namespace Json.Cell
variable {ρ : Type}

/-- A text. -/
@[simp]
def text (name : String) (required : Bool) (get : ρ → String) (set : String → ρ → ρ) : Cell ρ :=
  ⟨String, name, required, .text, .string, get, set, none⟩

/-- A text or none. -/
@[simp]
def optionalText (name : String) (get : ρ → Option String) (set : Option String → ρ → ρ) : Cell ρ :=
  ⟨Option String, name, false, .optional .text, ofOption, get, set, none⟩

/-- A lenient date. -/
@[simp]
def date (name : String) (get : ρ → Option Instant) (set : Option Instant → ρ → ρ) : Cell ρ :=
  ⟨Option Instant, name, false, Instant.decodeLenient, Instant.optionToJson, get, set, some none⟩

end Json.Cell

@[simp] theorem Instant.total_decodeLenient : Decoder.Total Instant.decodeLenient := fun _ => ⟨_, rfl⟩

namespace Package

/-- The cells of a package. -/
@[simp]
def cells : List (Cell Package) := [
  .text "identifier" true identifier fun v p => { p with identifier := v },
  .text "platform_product_identifier" true platformProductIdentifier fun v p =>
    { p with platformProductIdentifier := v }]

theorem describes : Cell.Describes cells record toJson := {}

end Package

namespace Offering

/-- Where an offering holds its packages. -/
@[simp]
def packagesCell : Cell Offering :=
  .list "packages" Package.decoder Package.toJson packages fun v o => { o with packages := v }

/-- The cells of an offering. -/
@[simp]
def cells : List (Cell Offering) := [
  .text "identifier" true identifier fun v o => { o with identifier := v },
  .text "description" false description fun v o => { o with description := v },
  packagesCell]

theorem packagesCell_mem : packagesCell ∈ cells := by simp

theorem describes : Cell.Describes cells record toJson where
  lenient := by simp [record]

end Offering

namespace Offerings

/-- Where offerings are held. -/
@[simp]
def offeringsCell : Cell Offerings :=
  .list "offerings" Offering.decoder Offering.toJson offerings fun v o => { o with offerings := v }

/-- The cells of offerings. -/
@[simp]
def cells : List (Cell Offerings) := [
  .optionalText "current_offering_id" currentId fun v o => { o with currentId := v },
  offeringsCell]

theorem offeringsCell_mem : offeringsCell ∈ cells := by simp

theorem describes : Cell.Describes cells record toJson where
  lenient := by simp [record]

end Offerings

namespace Entitlement

/-- The cells of an entitlement. -/
@[simp]
def cells : List (Cell Entitlement) := [
  .text "product_identifier" false productIdentifier fun v e => { e with productIdentifier := v },
  .date "expires_date" expiresDate fun v e => { e with expiresDate := v },
  .date "purchase_date" purchaseDate fun v e => { e with purchaseDate := v }]

theorem describes : Cell.Describes cells record toJson where
  lenient := by simp [record]

end Entitlement

namespace Subscription

/-- The cells of a subscription. -/
@[simp]
def cells : List (Cell Subscription) := [
  .date "expires_date" expiresDate fun v s => { s with expiresDate := v },
  .date "purchase_date" purchaseDate fun v s => { s with purchaseDate := v },
  .date "original_purchase_date" firstPurchaseDate fun v s => { s with firstPurchaseDate := v },
  .optionalText "period_type" periodType fun v s => { s with periodType := v },
  .optionalText "store" store fun v s => { s with store := v },
  ⟨Bool, "is_sandbox", false, .flag, .bool, isSandbox, fun v s => { s with isSandbox := v }, none⟩,
  .date "unsubscribe_detected_at" unsubscribeDetectedAt fun v s => { s with unsubscribeDetectedAt := v },
  .date "billing_issues_detected_at" billingIssuesDetectedAt fun v s => { s with billingIssuesDetectedAt := v }]

theorem describes : Cell.Describes cells record toJson where
  lenient := by simp [record]

end Subscription

namespace Subscriber

/-- Where a subscriber's entitlements are held. -/
@[simp]
def entitlementsCell : Cell Subscriber :=
  .map "entitlements" Entitlement.decoder Entitlement.toJson entitlements fun v s => { s with entitlements := v }

/-- Where a subscriber's subscriptions are held. -/
@[simp]
def subscriptionsCell : Cell Subscriber :=
  .map "subscriptions" Subscription.decoder Subscription.toJson subscriptions fun v s => { s with subscriptions := v }

/-- The cells of a subscriber. -/
@[simp]
def cells : List (Cell Subscriber) := [
  .text "original_app_user_id" false firstAppUserId fun v s => { s with firstAppUserId := v },
  .date "first_seen" firstSeen fun v s => { s with firstSeen := v },
  .date "original_purchase_date" firstPurchaseDate fun v s => { s with firstPurchaseDate := v },
  .optionalText "management_url" managementUrl fun v s => { s with managementUrl := v },
  entitlementsCell,
  subscriptionsCell]

theorem entitlementsCell_mem : entitlementsCell ∈ cells := by simp

theorem subscriptionsCell_mem : subscriptionsCell ∈ cells := by simp

theorem describes : Cell.Describes cells record toJson where
  lenient := by simp [record]

end Subscriber

namespace CustomerInfo

/-- Where customer info holds its subscriber. -/
@[simp]
def subscriberCell : Cell CustomerInfo :=
  ⟨Subscriber, "subscriber", true, Subscriber.decoder, Subscriber.toJson, subscriber,
    fun v c => { c with subscriber := v }, none⟩

/-- The cells of customer info. -/
@[simp]
def cells : List (Cell CustomerInfo) := [
  .date "request_date" requestDate fun v c => { c with requestDate := v },
  subscriberCell]

theorem subscriberCell_mem : subscriberCell ∈ cells := by simp

theorem describes : Cell.Describes cells record toJson where
  lenient := by simp [record]

end CustomerInfo

namespace ProductMapping

/-- The cells of a product's entitlements. -/
@[simp]
def cells : List (Cell ProductMapping) := [
  .text "id" true id fun v p => { p with id := v },
  ⟨List String, "entitlements", false, .list .text, fun xs => .array (xs.map .string), entitlements,
    fun v p => { p with entitlements := v }, none⟩]

theorem describes : Cell.Describes cells record toJson := {}

end ProductMapping

namespace ProductsEntitlements

/-- Where the products are held. -/
@[simp]
def productsCell : Cell ProductsEntitlements :=
  .list "products" ProductMapping.decoder ProductMapping.toJson products fun v p => { p with products := v }

/-- The cells of the entitlements of products. -/
@[simp]
def cells : List (Cell ProductsEntitlements) := [
  productsCell]

theorem productsCell_mem : productsCell ∈ cells := by simp

theorem describes : Cell.Describes cells record toJson where
  lenient := by simp [record]

end ProductsEntitlements

end Entitle
