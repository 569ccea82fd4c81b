import Entitle.Proofs.Responses.Parts

/-!
# Lenient fields

A date that may be absent and a collection are lenient: whatever stands in their place, or nothing, changes no other
field and decides nothing about whether the response is read. A collection is read whole or it is empty
(`Classify.lenient_fields_contained`).
-/

namespace Entitle
open Json

/-- A lenient field of a record: its name, and the record without its value. -/
structure LenientField (ρ : Type) where
  name : String
  mask : ρ → ρ

namespace Json.Cell
variable {ρ : Type} {cells : List (Cell ρ)} {r : Record ρ} {toJson : ρ → Json}

/-- The lenient field that a cell is, if it is one: its mask is what stands for a value that cannot be read. -/
def lenient? (cell : Cell ρ) : Option (LenientField ρ) :=
  cell.default?.map fun default => ⟨cell.name, cell.set default⟩

theorem Describes.blind_lenient (h : Describes cells r toJson) {field : LenientField ρ}
    (hfield : field ∈ cells.filterMap lenient?) (change : Record.Change) :
    Decoder.Blind r.decode (change.apply r.names field.name) field.mask := by
  obtain ⟨cell, hcell, hlenient⟩ := List.mem_filterMap.1 hfield
  obtain ⟨default, hdefault, rfl⟩ := Option.map_eq_some_iff.1 hlenient
  exact h.blind_change hcell hdefault change

end Json.Cell

/-! ### The lenient fields of each record -/

/-- The lenient fields of an offering. -/
def Offering.lenientFields : List (LenientField Offering) :=
  [⟨"packages", fun o => { o with packages := [] }⟩]

/-- The lenient fields of offerings. -/
def Offerings.lenientFields : List (LenientField Offerings) :=
  [⟨"offerings", fun o => { o with offerings := [] }⟩]

/-- The lenient fields of an entitlement. -/
def Entitlement.lenientFields : List (LenientField Entitlement) :=
  [⟨"expires_date", fun e => { e with expiresDate := none }⟩,
    ⟨"purchase_date", fun e => { e with purchaseDate := none }⟩]

/-- The lenient fields of a subscription. -/
def Subscription.lenientFields : List (LenientField Subscription) := [
  ⟨"expires_date", fun s => { s with expiresDate := none }⟩,
  ⟨"purchase_date", fun s => { s with purchaseDate := none }⟩,
  ⟨"original_purchase_date", fun s => { s with firstPurchaseDate := none }⟩,
  ⟨"unsubscribe_detected_at", fun s => { s with unsubscribeDetectedAt := none }⟩,
  ⟨"billing_issues_detected_at", fun s => { s with billingIssuesDetectedAt := none }⟩]

/-- The lenient fields of a subscriber. -/
def Subscriber.lenientFields : List (LenientField Subscriber) := [
  ⟨"first_seen", fun s => { s with firstSeen := none }⟩,
  ⟨"original_purchase_date", fun s => { s with firstPurchaseDate := none }⟩,
  ⟨"entitlements", fun s => { s with entitlements := [] }⟩,
  ⟨"subscriptions", fun s => { s with subscriptions := [] }⟩]

/-- The lenient fields of customer info. -/
def CustomerInfo.lenientFields : List (LenientField CustomerInfo) :=
  [⟨"request_date", fun c => { c with requestDate := none }⟩]

/-- The lenient fields of the entitlements of products. -/
def ProductsEntitlements.lenientFields : List (LenientField ProductsEntitlements) :=
  [⟨"products", fun p => { p with products := [] }⟩]

/-! ### The lenient fields of each part -/

/-- The lenient fields of the part. -/
def Offerings.Part.lenientFields : (part : Part) → List (LenientField part.Value)
  | whole => Offerings.lenientFields
  | offering _ => Offering.lenientFields
  | package _ _ => []

/-- The lenient fields of the part. -/
def CustomerInfo.Part.lenientFields : (part : Part) → List (LenientField part.Value)
  | whole => CustomerInfo.lenientFields
  | subscriber => Subscriber.lenientFields
  | entitlement _ => Entitlement.lenientFields
  | subscription _ => Subscription.lenientFields

/-- The lenient fields of the part. -/
def ProductsEntitlements.Part.lenientFields : (part : Part) → List (LenientField part.Value)
  | whole => ProductsEntitlements.lenientFields
  | product _ => []

section
variable (change : Record.Change)

/-! The lenient fields listed are the lenient cells. -/

theorem Offerings.Part.blind_lenient (part : Part) {field : LenientField part.Value}
    (hfield : field ∈ part.lenientFields) :
    Decoder.Blind part.record.decode (change.apply part.record.names field.name) field.mask := by
  cases part with
  | whole => exact Offerings.describes.blind_lenient hfield change
  | offering i => exact Offering.describes.blind_lenient hfield change
  | package i j => cases hfield

theorem CustomerInfo.Part.blind_lenient (part : Part) {field : LenientField part.Value}
    (hfield : field ∈ part.lenientFields) :
    Decoder.Blind part.record.decode (change.apply part.record.names field.name) field.mask := by
  cases part with
  | whole => exact CustomerInfo.describes.blind_lenient hfield change
  | subscriber => exact Subscriber.describes.blind_lenient hfield change
  | entitlement id => exact Entitlement.describes.blind_lenient hfield change
  | subscription id => exact Subscription.describes.blind_lenient hfield change

theorem ProductsEntitlements.Part.blind_lenient (part : Part) {field : LenientField part.Value}
    (hfield : field ∈ part.lenientFields) :
    Decoder.Blind part.record.decode (change.apply part.record.names field.name) field.mask := by
  cases part with
  | whole => exact ProductsEntitlements.describes.blind_lenient hfield change
  | product i => cases hfield

end

/-! ### Collections -/

section
variable {payload : Json}

theorem Offerings.offering_read {o : Offerings} (h : decoder payload = .ok o) {index : Nat} {offering : Offering}
    (hoffering : o.offerings[index]? = some offering) :
    ∃ value, at? (Part.offering index).path payload = some value ∧ Offering.decoder value = .ok offering := by
  obtain ⟨value, hfind, hread⟩ := (describes.readsAll offeringsCell_mem h).getElem? hoffering
  cases hfield : Step.find? (.field record.names "offerings") payload with
  | none => rw [hfield] at hfind; cases hfind
  | some list =>
    rw [hfield] at hfind
    refine ⟨value, ?_, hread⟩
    simpa [Part.path, at?, hfield] using hfind

theorem CustomerInfo.subscriber_read {c : CustomerInfo} (h : decoder payload = .ok c) :
    ∃ value, at? Part.subscriber.path payload = some value ∧ Subscriber.decoder value = .ok c.subscriber := by
  rcases describes.get_decode subscriberCell_mem h with ⟨value, hfind, hvalue⟩ | ⟨-, hrequired, -⟩
  · exact ⟨value, (at?_singleton _ _).trans hfind, hvalue⟩
  · cases hrequired

/-- The collections of offerings are read whole from their places in the payload, or are empty. -/
def Offerings.Whole (payload : Json) (o : Offerings) : Prop :=
  Offering.decoder.ReadsAll (at? [.field record.names "offerings"] payload) o.offerings ∧
    ∀ (index : Nat) (offering : Offering), o.offerings[index]? = some offering →
      Package.decoder.ReadsAll
        (at? ((Part.offering index).path ++ [.field Offering.record.names "packages"]) payload) offering.packages

/-- The collections of customer info are read whole from their places in the payload, or are empty. -/
def CustomerInfo.Whole (payload : Json) (c : CustomerInfo) : Prop :=
  Entitlement.decoder.ReadsAllEntries
      (at? (Part.subscriber.path ++ [.field Subscriber.record.names "entitlements"]) payload)
      c.subscriber.entitlements ∧
    Subscription.decoder.ReadsAllEntries
      (at? (Part.subscriber.path ++ [.field Subscriber.record.names "subscriptions"]) payload)
      c.subscriber.subscriptions

/-- The products are read whole from their place in the payload, or there are none. -/
def ProductsEntitlements.Whole (payload : Json) (p : ProductsEntitlements) : Prop :=
  ProductMapping.decoder.ReadsAll (at? [.field record.names "products"] payload) p.products

theorem Offerings.whole_of_read {o : Offerings} (h : decoder payload = .ok o) : Whole payload o := by
  refine ⟨?_, fun index offering hoffering => ?_⟩
  · rw [at?_singleton]
    exact describes.readsAll offeringsCell_mem h
  · obtain ⟨value, hat, hread⟩ := offering_read h hoffering
    rw [at?_append, hat, Option.bind_some, at?_singleton]
    exact Offering.describes.readsAll Offering.packagesCell_mem hread

theorem CustomerInfo.whole_of_read {c : CustomerInfo} (h : decoder payload = .ok c) : Whole payload c := by
  obtain ⟨value, hat, hread⟩ := subscriber_read h
  constructor
  · rw [at?_append, hat, Option.bind_some, at?_singleton]
    exact Subscriber.describes.readsAllEntries Subscriber.entitlementsCell_mem hread
  · rw [at?_append, hat, Option.bind_some, at?_singleton]
    exact Subscriber.describes.readsAllEntries Subscriber.subscriptionsCell_mem hread

theorem ProductsEntitlements.whole_of_read {p : ProductsEntitlements} (h : decoder payload = .ok p) :
    Whole payload p := by
  rw [Whole, at?_singleton]
  exact describes.readsAll productsCell_mem h

end

namespace Classify

/-- A change of a lenient field of a part of a response, whether another value takes the place of its own or its member
goes, changes nothing else of what is read, nor whether it is read or the reason why not; and the collections of what is
read are whole or empty. -/
theorem lenient_fields_contained (payload : Json) :
    ((∀ (part : Offerings.Part) (field : LenientField part.Value), field ∈ part.lenientFields →
          ∀ change : Record.Change, Alike (part.on field.mask)
            (decode Offerings.decoder (editAt part.path (change.apply part.record.names field.name) payload))
            (decode Offerings.decoder payload)) ∧
        ∀ o, decode Offerings.decoder payload = .ok o → o.Whole payload) ∧
      ((∀ (part : CustomerInfo.Part) (field : LenientField part.Value), field ∈ part.lenientFields →
          ∀ change : Record.Change, Alike (part.on field.mask)
            (decode CustomerInfo.decoder (editAt part.path (change.apply part.record.names field.name) payload))
            (decode CustomerInfo.decoder payload)) ∧
        ∀ c, decode CustomerInfo.decoder payload = .ok c → c.Whole payload) ∧
      (∀ (part : ProductsEntitlements.Part) (field : LenientField part.Value), field ∈ part.lenientFields →
          ∀ change : Record.Change, Alike (part.on field.mask)
            (decode ProductsEntitlements.decoder (editAt part.path (change.apply part.record.names field.name) payload))
            (decode ProductsEntitlements.decoder payload)) ∧
        ∀ p, decode ProductsEntitlements.decoder payload = .ok p → p.Whole payload := by
  refine ⟨⟨?_, ?_⟩, ⟨?_, ?_⟩, ?_, ?_⟩
  · exact fun part field hfield change => alike_decode (part.blind (part.blind_lenient change hfield)) payload
  · exact fun o h => Offerings.whole_of_read (decode_eq_ok h)
  · exact fun part field hfield change => alike_decode (part.blind (part.blind_lenient change hfield)) payload
  · exact fun c h => CustomerInfo.whole_of_read (decode_eq_ok h)
  · exact fun part field hfield change => alike_decode (part.blind (part.blind_lenient change hfield)) payload
  · exact fun p h => ProductsEntitlements.whole_of_read (decode_eq_ok h)

theorem lenient_fields_contained_nested :
    let expiry : LenientField Entitlement := ⟨"expires_date", fun e => { e with expiresDate := none }⟩
    let edited := editAt (CustomerInfo.Part.entitlement "pro").path
      (Record.Change.apply Entitlement.record.names expiry.name (.replace (.int 7))) sharedPayload
    (expiry ∈ (CustomerInfo.Part.entitlement "pro").lenientFields ∧
        Alike ((CustomerInfo.Part.entitlement "pro").on expiry.mask) (decode CustomerInfo.decoder edited)
          (decode CustomerInfo.decoder sharedPayload)) ∧
      ∃ o, decode Offerings.decoder sharedPayload = .ok o ∧ o.Whole sharedPayload := by
  obtain ⟨⟨-, hwhole⟩, ⟨hcontained, -⟩, -⟩ := lenient_fields_contained sharedPayload
  have hexpiry : ⟨"expires_date", fun e => { e with expiresDate := none }⟩ ∈
      (CustomerInfo.Part.entitlement "pro").lenientFields := List.mem_cons_self
  exact ⟨⟨hexpiry, hcontained _ _ hexpiry _⟩, _, rfl, hwhole _ rfl⟩

/-- The expiry of the entitlement is gone, and its entitlement is not. -/
example :
    let edited := editAt (CustomerInfo.Part.entitlement "pro").path
      (Record.Change.apply Entitlement.record.names "expires_date" (.replace (.int 7))) sharedPayload
    decode CustomerInfo.decoder edited =
      .ok ⟨none, ⟨"user", none, none, none, [("pro", ⟨"", none, none⟩)], []⟩⟩ := by
  rfl

end Classify

end Entitle
