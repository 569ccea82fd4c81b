import Entitle.Proofs.Cache.Origin
import Entitle.Proofs.Signature

/-!
# Whose tag and whose body

Entries are found by the keys of their requests, so a request is served what was recorded under its key, for whatever
request. If the digests of the bodies differ, that is the request itself, or one whose path is written like the path and
the digest of another (`served_apart`); the second does occur (`mimic_served`).
-/

namespace Entitle.ConditionalCache
open KeyValueStore

/-- Among the uses is a record of a success of the request, with the tag and the body. -/
def GivenFor (uses : List Use) (t : Signature) (tag body : String) : Prop :=
  ∃ now response, .record now t (.ok response) ∈ uses ∧
    response.status.isSuccessful ∧ response.tag = some tag ∧ response.body = Text.utf8 body

/-- Such a record, of the request or of one that is written like it. -/
def GivenAs (uses : List Use) (s : Signature) (tag body : String) : Prop :=
  ∃ t, (s = t ∨ s.Mimics t ∨ t.Mimics s) ∧ GivenFor uses t tag body

variable {σ : Type} [KeyValueStore σ] {view : σ → String → Option Bytes} {cache : ConditionalCache} {store : σ}
  {s t : Signature} {uses : List Use}

theorem storageKey_eq_iff (hdigest : ¬ s.Collides t) :
    storageKey s = storageKey t ↔ s = t ∨ s.Mimics t ∨ t.Mimics s := by
  rw [storageKey, storageKey, String.append_right_inj, Signature.cacheKey_eq_iff]
  tauto

theorem Given.givenAs {tag body : String} (hgiven : Given uses (storageKey s) tag body)
    (hdigests : ∀ t tag body, GivenFor uses t tag body → ¬ s.Collides t) : GivenAs uses s tag body := by
  obtain ⟨now, t, response, hmem, hkey, hresponse⟩ := hgiven
  have hfor : GivenFor uses t tag body := ⟨now, response, hmem, hresponse⟩
  exact ⟨t, (storageKey_eq_iff (hdigests t tag body hfor)).1 hkey.symm, hfor⟩

theorem attach_of_none {request : Request} (hentry : (cache.entry? s store).1 = none) :
    (attach s request cache store).1 = request := by
  simp [attach, tag?, hentry]

theorem attach_of_some {request : Request} {entry : CacheEntry} (hentry : (cache.entry? s store).1 = some entry) :
    (attach s request cache store).1 = request.withHeader tagRequestHeader entry.tag := by
  simp [attach, tag?, hentry]

theorem record_of_none {now : Instant} {outcome : Outcome} (hentry : (cache.entry? s store).1 = none) :
    (record now s outcome cache store).1 = outcome := by
  have hload : (load (storageKey s) cache store).1 = none := hentry
  cases outcome with
  | error e => rfl
  | ok response =>
    simp only [record, settleNotModified, hload]
    split
    · rfl
    · split <;> rfl

theorem record_of_some {now : Instant} {outcome : Outcome} {entry : CacheEntry}
    (hentry : (cache.entry? s store).1 = some entry) :
    (record now s outcome cache store).1 = outcome ∨
      (record now s outcome cache store).1 = .ok ⟨⟨200⟩, some entry.tag, Text.utf8 entry.body⟩ := by
  cases outcome with
  | error e => exact .inl rfl
  | ok response =>
    by_cases hsame : response.status.isNotModified
    · exact .inr (record_notModified hentry now hsame)
    · refine .inl ?_
      simp only [record, hsame, Bool.false_eq_true, if_false]
      split <;> rfl

/-- Two requests the digests of whose bodies do not collide have one key if and only if they are one request or one is
written like the other. Whatever was done with a cache over a failing store that had no entries at first: to a request
is attached nothing or a tag, and an outcome of it comes back as it is or as a body with a tag, that was recorded for
the request or for one that is written like it. -/
theorem served_apart (h : IsFallible view) (hempty : ∀ k, Text.startsWith k keyStart → view store k = none)
    (uses : List Use) (s : Signature) (hdigests : ∀ t tag body, GivenFor uses t tag body → ¬ s.Collides t) :
    (∀ t, ¬ s.Collides t → (s.cacheKey = t.cacheKey ↔ s = t ∨ s.Mimics t ∨ t.Mimics s)) ∧
    let after := runAll uses {} store
    (∀ request, (attach s request after.1 after.2).1 = request ∨
      ∃ tag body, GivenAs uses s tag body ∧
        (attach s request after.1 after.2).1 = request.withHeader tagRequestHeader tag) ∧
    ∀ now outcome, (record now s outcome after.1 after.2).1 = outcome ∨
      ∃ tag body, GivenAs uses s tag body ∧
        (record now s outcome after.1 after.2).1 = .ok ⟨⟨200⟩, some tag, Text.utf8 body⟩ := by
  refine ⟨fun t hdigest => ?_, ?_⟩
  · rw [← storageKey_eq_iff hdigest, storageKey, storageKey, String.append_right_inj]
  intro after
  have hsourced : Sourced view (Given uses) after.1 after.2 := sourced_runAll h uses hempty
  have hfound := (sourced_load h hsourced (startsWith_storageKey s)).1
  cases hentry : (ConditionalCache.entry? s after.1 after.2).1 with
  | none => exact ⟨fun _ => .inl (attach_of_none hentry), fun _ _ => .inl (record_of_none hentry)⟩
  | some entry =>
    have hgiven : GivenAs uses s entry.tag entry.body := (hfound entry hentry).givenAs hdigests
    refine ⟨fun request => .inr ⟨entry.tag, entry.body, hgiven, attach_of_some hentry⟩, fun now outcome => ?_⟩
    exact (record_of_some hentry).imp_right fun hreplayed => ⟨entry.tag, entry.body, hgiven, hreplayed⟩

/-- Such as for one body beside another and beside none, though a path ends in the mark of a digest. -/
theorem served_apart_bodies :
    let body (n : Int) : Json := .object [("a", .int n)]
    let s := Signature.withBody .post "/receipts" (body 1)
    let response : Response := ⟨⟨200⟩, some "abc", Text.utf8 "1"⟩
    let others : List Signature := [.withBody .post "/receipts" (body 2), .bare .post "/receipts #"]
    let uses : List Use := others.map fun t => .record ⟨0, 0⟩ t (.ok response)
    let view (store : MemoryStore) (key : String) := store.entries.get? key
    let after := runAll uses {} ({} : MemoryStore)
    IsFallible view ∧ (∀ t tag body, GivenFor uses t tag body → t ∈ others ∧ ¬ s.Collides t) ∧
      (attach s (.ofSignature s) after.1 after.2).1 = .ofSignature s ∧
      (record ⟨60, 0⟩ s (.ok ⟨⟨304⟩, none, []⟩) after.1 after.2).1 = .ok ⟨⟨304⟩, none, []⟩ := by
  intro body s response others uses view after
  have hgiven : ∀ t tag body, GivenFor uses t tag body → t ∈ others := by
    rintro t tag body ⟨now, response, hmem, -⟩
    obtain ⟨t', hother, huse⟩ := List.mem_map.1 hmem
    obtain ⟨-, rfl, -⟩ := Use.record.inj huse
    exact hother
  have hdigest : Signature.bodyDigest (body 1).canonical.render ≠ Signature.bodyDigest (body 2).canonical.render := by
    rw [Signature.bodyDigest, Signature.bodyDigest, Text.Blake3.digest, Text.Blake3.digest,
      Text.Blake3.tree_of_short (by decide +kernel), Text.Blake3.tree_of_short (by decide +kernel)]
    decide +kernel
  have hapart : ∀ t ∈ others, ¬ s.Collides t := by
    rintro t hother ⟨-, -, b, b', hb, hb', -, heq⟩
    obtain rfl := Option.some.inj hb
    rcases List.mem_pair.1 hother with rfl | rfl
    · obtain rfl := Option.some.inj hb'
      exact hdigest heq
    · cases hb'
  have hmimics : ∀ t ∈ others, ¬ (s = t ∨ s.Mimics t ∨ t.Mimics s) := by
    rintro t hother (rfl | ⟨hnone, -⟩ | hmimics)
    · revert hother
      decide +kernel
    · cases hnone
    · have hlength := hmimics.length_path
      revert hlength
      rcases List.mem_pair.1 hother with rfl | rfl <;> decide +kernel
  have hempty : ∀ k, Text.startsWith k keyStart → view {} k = none := fun _ _ => rfl
  have hother : ∀ tag body, ¬ GivenAs uses s tag body := by
    rintro tag body ⟨t, hsame, ht⟩
    exact hmimics t (hgiven t tag body ht) hsame
  have hfallible : IsFallible view := MemoryStore.isMap.isFallible
  obtain ⟨-, hattach, hrecord⟩ := served_apart hfallible hempty uses s
    fun t tag body ht => hapart t (hgiven t tag body ht)
  refine ⟨hfallible, fun t tag body ht => ⟨hgiven t tag body ht, hapart t (hgiven t tag body ht)⟩, ?_, ?_⟩
  · refine (hattach _).resolve_right ?_
    rintro ⟨tag, body, has, -⟩
    exact hother tag body has
  · refine (hrecord _ _).resolve_right ?_
    rintro ⟨tag, body, has, -⟩
    exact hother tag body has

/-- A request without a body is served to the one that it is written like. -/
theorem mimic_served :
    let body : Json := .object [("a", .int 1)]
    let s := Signature.withBody .post "/receipts" body
    let t := Signature.bare .post "/receipts #d59b6562d7c9b121bc9760873d787890"
    let mine := Text.utf8 (Json.object [("a", .string "mine")]).render
    let after := runAll [.record ⟨0, 0⟩ t (.ok ⟨⟨200⟩, some "abc", mine⟩)] {} ({} : MemoryStore)
    s ≠ t ∧ ¬ s.Collides t ∧ s.cacheKey = t.cacheKey ∧ (tag? s after.1 after.2).1 = some "abc" ∧
      (record ⟨60, 0⟩ s (.ok ⟨⟨304⟩, none, []⟩) after.1 after.2).1 = .ok ⟨⟨200⟩, some "abc", mine⟩ := by
  intro body s t mine after
  have hdigest : Signature.bodyDigest body.canonical.render = "d59b6562d7c9b121bc9760873d787890" := by
    rw [Signature.bodyDigest, Text.Blake3.digest, Text.Blake3.tree_of_short (by decide +kernel)]
    decide +kernel
  have hmimics : t.Mimics s := ⟨rfl, rfl, body.canonical.render, rfl, by rw [hdigest]; decide +kernel⟩
  have hkey : storageKey s = storageKey t := by rw [storageKey, ← hmimics.cacheKey_eq, storageKey]
  refine ⟨by decide +kernel, ?_, hmimics.cacheKey_eq.symm, ?_, ?_⟩
  · rintro ⟨-, -, _, _, -, hnone, -⟩
    cases hnone
  · simp only [tag?, entry?, hkey]
    decide +kernel
  · simp only [record, settleNotModified, hkey]
    decide +kernel

end Entitle.ConditionalCache
