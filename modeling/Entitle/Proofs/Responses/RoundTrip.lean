import Entitle.Proofs.Json.ReadBack
import Entitle.Proofs.Responses.Parts
import Entitle.Proofs.Timestamp.Zones

/-!
# Responses read back

A response whose dates have years of four digits is what its own text is read as (`Classify.responses_read_back`).
-/

namespace Entitle
open Json

/-! ### Decoders of what is written -/

namespace Json
variable {α ρ : Type} {read : Decoder α} {write : α → Json}

@[simp] theorem plain_ofOption {depth : Nat} (s : Option String) : Plain depth (ofOption s) := by
  cases s with
  | none => exact .null
  | some s => exact .string s

/-- The decoder gives back what is written. -/
def Decoder.Restores (read : Decoder α) (write : α → Json) (x : α) : Prop :=
  read (write x).canonical = .ok x

namespace Decoder

@[simp] theorem restores_text (s : String) : text.Restores .string s := rfl

@[simp] theorem restores_flag (b : Bool) : flag.Restores .bool b := rfl

@[simp] theorem restores_optional (s : Option String) : (optional text).Restores ofOption s := by
  cases s with
  | none => rfl
  | some s => rfl

theorem Restores.lenient {x : α} (h : read.Restores write x) (default : α) :
    (lenient default read).Restores write x := by
  unfold Restores Decoder.lenient at *
  rw [h]

theorem items_map {xs : List α} (h : ∀ x ∈ xs, read.Restores write x) :
    items read ((xs.map write).map canonical) = .ok xs := by
  induction xs with
  | nil => rfl
  | cons x xs ih =>
    have hx : read (write x).canonical = .ok x := h x List.mem_cons_self
    rw [List.map_cons, List.map_cons, items, hx, ih fun y hy => h y (List.mem_cons_of_mem x hy)]
    rfl

theorem restores_list {xs : List α} (h : ∀ x ∈ xs, read.Restores write x) :
    (list read).Restores (fun xs => .array (xs.map write)) xs := by
  rw [Restores, canonical_array]
  exact items_map h

theorem members_map {m : KeyMap α} (h : ∀ entry ∈ m, read.Restores write entry.2) :
    members read (m.map fun entry => (entry.1, (write entry.2).canonical)) = .ok m := by
  induction m with
  | nil => rfl
  | cons entry m ih =>
    have hentry : read (write entry.2).canonical = .ok entry.2 := h entry List.mem_cons_self
    rw [List.map_cons, members, hentry, ih fun e he => h e (List.mem_cons_of_mem entry he)]
    rfl

theorem restores_map {m : KeyMap α} (hsorted : m.Sorted) (h : ∀ entry ∈ m, read.Restores write entry.2) :
    (map read).Restores (fun m => .object (m.map fun entry => (entry.1, write entry.2))) m := by
  have hpairs : (m.map fun entry => (entry.1, write entry.2)).map (fun member => (member.1, canonical member.2)) =
      m.map fun entry => (entry.1, (write entry.2).canonical) := by
    rw [List.map_map]
    rfl
  rw [Restores, canonical_object, hpairs, (hsorted.map fun x => (write x).canonical).ofPairs_eq]
  exact members_map h

end Decoder

/-! ### Records of what is written -/

namespace Record
variable {fields : List (Field ρ)} {members : List (String × Json)}

theorem storeMembers_ok
    (h : ∀ member ∈ members, ∀ g ∈ fields, g.name = member.1 → ∀ s, ∃ s', g.store member.2 s = .ok s')
    (s : ρ) : ∃ s', storeMembers fields members s = .ok s' := by
  induction members generalizing s with
  | nil => exact ⟨s, rfl⟩
  | cons member rest ih =>
    have hrest := ih fun m hm => h m (List.mem_cons_of_mem member hm)
    simp only [storeMembers]
    split
    · next g hfound =>
      have hname : g.name = member.1 := by simpa using List.find?_some hfound
      obtain ⟨s', hs'⟩ := h member List.mem_cons_self g (List.mem_of_find?_eq_some hfound) hname s
      rw [hs']
      exact hrest s'
    · exact hrest s

end Record

namespace Cell
variable {cells : List (Cell ρ)} {cell : Cell ρ} {r : Record ρ} {toJson : ρ → Json} {member : String × Json} {x : ρ}

/-- The members that are written of a record, in canonical form. -/
def members (cells : List (Cell ρ)) (x : ρ) : KeyMap Json :=
  .ofPairs (cells.map fun cell => (cell.name, (cell.write (cell.get x)).canonical))

namespace Describes

theorem canonical_eq (h : Describes cells r toJson) (x : ρ) : (toJson x).canonical = .object (members cells x) := by
  rw [h.written, canonical_object, List.map_map]
  rfl

theorem mem_members (h : Describes cells r toJson) :
    member ∈ members cells x ↔ ∃ cell ∈ cells, (cell.name, (cell.write (cell.get x)).canonical) = member := by
  have hkeys : KeyMap.keys (cells.map fun cell => (cell.name, (cell.write (cell.get x)).canonical)) =
      cells.map Cell.name := by
    rw [KeyMap.keys, List.map_map]
    rfl
  rw [members, KeyMap.mem_ofPairs (hkeys ▸ h.nodup), List.mem_map]

theorem lastMember?_members (h : Describes cells r toJson) (hcell : cell ∈ cells) :
    lastMember? (members cells x) cell.name = some (cell.write (cell.get x)).canonical := by
  have hnodup : (KeyMap.keys (members cells x)).Nodup := (KeyMap.sorted_ofPairs _).nodup
  rw [lastMember?, KeyMap.get?_reverse hnodup, KeyMap.get?_eq_some_iff hnodup, h.mem_members]
  exact ⟨cell, hcell, rfl⟩

theorem missing?_members (h : Describes cells r toJson) (x : ρ) :
    Record.missing? r.fields (members cells x) = none := by
  refine List.find?_eq_none.2 fun g hg hmissing => ?_
  rw [h.fields] at hg
  obtain ⟨cell, hcell, rfl⟩ := List.mem_map.1 hg
  have hmember : (members cells x).any (·.1 = cell.field.name) = true :=
    List.any_eq_true.2 ⟨_, h.mem_members.2 ⟨cell, hcell, rfl⟩, by simp [field, Field.of]⟩
  rw [hmember] at hmissing
  simp at hmissing

/-- A record whose cells are read back is read back: all its members are taken, and each cell holds what it held. -/
theorem restores (h : Describes cells r toJson) (hcells : ∀ cell ∈ cells, cell.read.Restores cell.write (cell.get x)) :
    Decoder.Restores r.decode toJson x := by
  have hstore : ∃ y, Record.storeMembers r.fields (members cells x) r.blank = .ok y := by
    refine Record.storeMembers_ok (fun member hmember g hg hname s => ?_) r.blank
    obtain ⟨cell, hcell, rfl⟩ := h.mem_members.1 hmember
    obtain rfl := List.inj_on_of_nodup_map h.names hg (h.mem_fields hcell) hname
    exact ⟨cell.set (cell.get x) s, congrArg (Except.map _) (hcells cell hcell)⟩
  obtain ⟨y, hy⟩ := hstore
  have hread : r.decode (.object (members cells x)) = .ok y := by
    simp only [Record.decode, hy, bind, Except.bind, h.missing?_members]
    rfl
  have hsame : y = x := h.ext y x fun cell hcell => by
    have hfind : Step.find? (.field r.names cell.name) (.object (members cells x)) =
        some (cell.write (cell.get x)).canonical := h.lastMember?_members hcell
    rcases h.get_decode hcell hread with ⟨v, hv, hget⟩ | ⟨hnone, -⟩
    · obtain rfl := Option.some.inj (hfind.symm.trans hv)
      exact Except.ok.inj (hget.symm.trans (hcells cell hcell))
    · rw [hfind] at hnone
      cases hnone
  rw [Decoder.Restores, h.canonical_eq, hread, hsame]

end Describes

end Cell

end Json

/-! ### Dates -/

@[simp] theorem Instant.plain_optionToJson {depth : Nat} (d : Option Instant) : Plain depth (optionToJson d) := by
  cases d with
  | none => exact .null
  | some t => exact .string _

theorem Instant.restores_date {d : Option Instant} (h : ∀ t ∈ d, t.IsPrintable) :
    Decoder.Restores decodeLenient optionToJson d := by
  cases d with
  | none => rfl
  | some t =>
    have hread := parse?_render (h t rfl)
    simp only [Decoder.Restores, decodeLenient, optionToJson, canonical, text?, Option.bind_some, hread]

/-! ### Responses -/

namespace Package

theorem restores (p : Package) : decoder.Restores toJson p :=
  describes.restores (by simp)

theorem plain (p : Package) (depth : Nat) : Plain (depth + 1) p.toJson := by
  simp [toJson]

end Package

namespace Offering

theorem restores (o : Offering) : decoder.Restores toJson o := by
  have hpackages := (Decoder.restores_list fun p (_ : p ∈ o.packages) => p.restores).lenient []
  exact describes.restores (by simp [hpackages])

theorem plain (o : Offering) (depth : Nat) : Plain (depth + 3) o.toJson := by
  simp [toJson, Package.plain]

end Offering

namespace Offerings

theorem restores (o : Offerings) : decoder.Restores toJson o := by
  have hofferings := (Decoder.restores_list fun p (_ : p ∈ o.offerings) => p.restores).lenient []
  exact describes.restores (by simp [hofferings])

theorem plain (o : Offerings) (depth : Nat) : Plain (depth + 5) o.toJson := by
  simp [toJson, Offering.plain]

end Offerings

namespace Entitlement

/-- The dates that are present. -/
def dates (e : Entitlement) : List Instant :=
  e.expiresDate.toList ++ e.purchaseDate.toList

theorem restores {e : Entitlement} (h : ∀ t ∈ e.dates, t.IsPrintable) : decoder.Restores toJson e := by
  simp only [dates, List.forall_mem_append, Option.mem_toList] at h
  exact describes.restores (by simp [Instant.restores_date h.1, Instant.restores_date h.2])

theorem plain (e : Entitlement) (depth : Nat) : Plain (depth + 1) e.toJson := by
  simp [toJson]

end Entitlement

namespace Subscription

/-- The dates that are present. -/
def dates (s : Subscription) : List Instant :=
  s.expiresDate.toList ++ s.purchaseDate.toList ++ s.firstPurchaseDate.toList ++ s.unsubscribeDetectedAt.toList ++
    s.billingIssuesDetectedAt.toList

theorem restores {s : Subscription} (h : ∀ t ∈ s.dates, t.IsPrintable) : decoder.Restores toJson s := by
  simp only [dates, List.forall_mem_append, Option.mem_toList] at h
  obtain ⟨⟨⟨⟨hexpires, hpurchase⟩, hfirst⟩, hunsubscribe⟩, hbilling⟩ := h
  refine describes.restores ?_
  simp [Instant.restores_date hexpires, Instant.restores_date hpurchase, Instant.restores_date hfirst,
    Instant.restores_date hunsubscribe, Instant.restores_date hbilling]

theorem plain (s : Subscription) (depth : Nat) : Plain (depth + 1) s.toJson := by
  simp [toJson]

end Subscription

namespace Subscriber

/-- The dates that are present, in the entitlements and subscriptions too. -/
def dates (s : Subscriber) : List Instant :=
  s.firstSeen.toList ++ s.firstPurchaseDate.toList ++ s.entitlements.flatMap (fun entry => entry.2.dates) ++
    s.subscriptions.flatMap fun entry => entry.2.dates

theorem restores {s : Subscriber} (hsorted : s.entitlements.Sorted) (hsorted' : s.subscriptions.Sorted)
    (h : ∀ t ∈ s.dates, t.IsPrintable) : decoder.Restores toJson s := by
  simp only [dates, List.forall_mem_append, Option.mem_toList] at h
  obtain ⟨⟨⟨hseen, hfirst⟩, hdates⟩, hdates'⟩ := h
  have hentitlements := (Decoder.restores_map hsorted fun entry hentry =>
    Entitlement.restores fun t ht => hdates t (List.mem_flatMap.2 ⟨entry, hentry, ht⟩)).lenient []
  have hsubscriptions := (Decoder.restores_map hsorted' fun entry hentry =>
    Subscription.restores fun t ht => hdates' t (List.mem_flatMap.2 ⟨entry, hentry, ht⟩)).lenient []
  refine describes.restores ?_
  simp [Instant.restores_date hseen, Instant.restores_date hfirst, hentitlements, hsubscriptions]

theorem plain (s : Subscriber) (depth : Nat) : Plain (depth + 3) s.toJson := by
  have hentitlements : ∀ member ∈ s.entitlements.map fun entry => (entry.1, entry.2.toJson),
      Plain (depth + 1) member.2 := List.forall_mem_map.2 fun entry _ => entry.2.plain depth
  have hsubscriptions : ∀ member ∈ s.subscriptions.map fun entry => (entry.1, entry.2.toJson),
      Plain (depth + 1) member.2 := List.forall_mem_map.2 fun entry _ => entry.2.plain depth
  refine .object ?_
  simp only [List.forall_mem_cons]
  exact ⟨.string _, Instant.plain_optionToJson _, Instant.plain_optionToJson _, plain_ofOption _, .object hentitlements,
    .object hsubscriptions, nofun⟩

end Subscriber

namespace CustomerInfo

/-- The dates that are present, at any depth. -/
def dates (c : CustomerInfo) : List Instant :=
  c.requestDate.toList ++ c.subscriber.dates

theorem restores {c : CustomerInfo} (hentitlements : c.subscriber.entitlements.Sorted)
    (hsubscriptions : c.subscriber.subscriptions.Sorted) (h : ∀ t ∈ c.dates, t.IsPrintable) :
    decoder.Restores toJson c := by
  simp only [dates, List.forall_mem_append, Option.mem_toList] at h
  have hsubscriber := Subscriber.restores hentitlements hsubscriptions h.2
  exact describes.restores (by simp [Instant.restores_date h.1, hsubscriber])

theorem plain (c : CustomerInfo) (depth : Nat) : Plain (depth + 4) c.toJson := by
  simp [toJson, Subscriber.plain]

end CustomerInfo

namespace ProductMapping

theorem restores (p : ProductMapping) : decoder.Restores toJson p := by
  have hentitlements := Decoder.restores_list fun s (_ : s ∈ p.entitlements) => Decoder.restores_text s
  exact describes.restores (by simp [hentitlements])

theorem plain (p : ProductMapping) (depth : Nat) : Plain (depth + 2) p.toJson := by
  simp [toJson]

end ProductMapping

namespace ProductsEntitlements

theorem restores (p : ProductsEntitlements) : decoder.Restores toJson p := by
  have hproducts := (Decoder.restores_list fun m (_ : m ∈ p.products) => m.restores).lenient []
  exact describes.restores (by simp [hproducts])

theorem plain (p : ProductsEntitlements) (depth : Nat) : Plain (depth + 4) p.toJson := by
  simp [toJson, ProductMapping.plain]

end ProductsEntitlements

namespace Classify

/-- The text of the value is read, and what it is read as decodes to the value. -/
def ReadsBack {α : Type} (decoder : Decoder α) (toJson : α → Json) (x : α) : Prop :=
  Json.read (Text.utf8 (toJson x).render) = .ok (toJson x).canonical ∧ decode decoder (toJson x).canonical = .ok x

theorem readsBack_of {α : Type} {decoder : Decoder α} {toJson : α → Json} {x : α} (hplain : Plain depthLimit (toJson x))
    (h : decoder.Restores toJson x) : ReadsBack decoder toJson x :=
  ⟨hplain.read_render, by rw [decode, h]⟩

/-- A response is what its own text is read as, if the years of its dates have four digits. -/
theorem responses_read_back :
    (∀ o : Offerings, ReadsBack Offerings.decoder Offerings.toJson o) ∧
      (∀ c : CustomerInfo, c.subscriber.entitlements.Sorted → c.subscriber.subscriptions.Sorted →
        (∀ t ∈ c.dates, t.IsPrintable) → ReadsBack CustomerInfo.decoder CustomerInfo.toJson c) ∧
      (∀ p : ProductsEntitlements, ReadsBack ProductsEntitlements.decoder ProductsEntitlements.toJson p) ∧
      ∀ t : Instant, t.IsPrintable → Instant.parse? t.render = some t := by
  refine ⟨fun o => ?_, fun c hentitlements hsubscriptions hdates => ?_, fun p => ?_, fun t ht => ?_⟩
  · exact readsBack_of (o.plain 122) o.restores
  · exact readsBack_of (c.plain 123) (c.restores hentitlements hsubscriptions hdates)
  · exact readsBack_of (p.plain 123) p.restores
  · exact Instant.parse?_render ht

/-- A customer with an entitlement that expires within a leap second. -/
def leapCustomer : CustomerInfo where
  requestDate := some ⟨-62167219200, 1⟩
  subscriber :=
    { firstAppUserId := "a \"quoted\" name\n"
      firstSeen := none
      firstPurchaseDate := none
      managementUrl := none
      entitlements := [("pro", ⟨"annual", some ⟨1483228799, 1999999999⟩, none⟩), ("trial", ⟨"", none, none⟩)]
      subscriptions := [] }

theorem responses_read_back_leapSecond :
    leapCustomer.subscriber.entitlements.Sorted ∧ (∀ t ∈ leapCustomer.dates, t.IsPrintable) ∧
      ReadsBack CustomerInfo.decoder CustomerInfo.toJson leapCustomer ∧
      Instant.parse? "2016-12-31T23:59:60.999999999Z" = some ⟨1483228799, 1999999999⟩ := by
  obtain ⟨-, hcustomer, -, hinstant⟩ := responses_read_back
  have hsorted : leapCustomer.subscriber.entitlements.Sorted :=
    (by decide : List.Pairwise (· < ·) ["pro", "trial"])
  have hfirst : Instant.IsPrintable ⟨-62167219200, 1⟩ := ⟨by decide, by decide⟩
  have hlast : Instant.IsPrintable ⟨1483228799, 1999999999⟩ := ⟨by decide, by decide⟩
  have hdates : ∀ t ∈ leapCustomer.dates, t.IsPrintable :=
    List.forall_mem_cons.2 ⟨hfirst, List.forall_mem_singleton.2 hlast⟩
  have htext : Instant.render ⟨1483228799, 1999999999⟩ = "2016-12-31T23:59:60.999999999Z" := by decide
  exact ⟨hsorted, hdates, hcustomer _ hsorted .nil hdates, htext ▸ hinstant _ hlast⟩

end Classify

end Entitle
