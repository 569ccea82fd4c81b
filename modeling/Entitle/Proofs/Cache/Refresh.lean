import Entitle.Proofs.Cache.Durable
import Entitle.Proofs.Cache.StoredBodies

/-!
# What a refresh changes

An entry has two copies, in memory and in the store. `Holds`, `Lacks` and `Unmoved` speak of both, and of what is found
through them by this cache and by one that is built anew. Main statement: `refresh_confined`. Nothing that fails touches
an entry, and nothing touches the entry of another key.
-/

namespace Entitle.ConditionalCache
open KeyValueStore

/-- The text of JSON, by its outline. -/
def IsJsonText (body : Bytes) : Prop :=
  ∃ text, body = Text.utf8 text ∧ Json.isOutlined body

/-- No answer, or one that neither confirms an entry nor can leave one. -/
inductive IsFailedRefresh : Outcome → Prop where
  | noAnswer (e : TransportError) : IsFailedRefresh (.error e)
  | refused {response : Response} (hcode : response.status.code < 200 ∨ 299 < response.status.code)
      (hmodified : response.status.code ≠ 304) : IsFailedRefresh (.ok response)
  | untagged {response : Response} (hcode : 200 ≤ response.status.code ∧ response.status.code ≤ 299)
      (htag : response.tag = none) : IsFailedRefresh (.ok response)
  | unreadable {response : Response} (hcode : 200 ≤ response.status.code ∧ response.status.code ≤ 299)
      (hbody : ¬ IsJsonText response.body) : IsFailedRefresh (.ok response)

variable {σ : Type} [KeyValueStore σ]

/-- Both copies of a signature's entry are this one. -/
structure Holds (view : σ → String → Option Bytes) (s : Signature) (entry : CacheEntry)
    (after : ConditionalCache × σ) : Prop where
  memory : after.1.entries.get? (storageKey s) = some entry
  stored : view after.2 (storageKey s) = some (Text.utf8 entry.toJson.render)
  found : (ConditionalCache.entry? s after.1 after.2).1 = some entry
  reread : entry.lastRefreshed.IsProper → (ConditionalCache.entry? s {} after.2).1 = some entry

/-- Nothing is kept for a signature. -/
structure Lacks (view : σ → String → Option Bytes) (s : Signature) (after : ConditionalCache × σ) : Prop where
  memory : after.1.entries.get? (storageKey s) = none
  stored : view after.2 (storageKey s) = none
  found : (ConditionalCache.entry? s after.1 after.2).1 = none
  reread : (ConditionalCache.entry? s {} after.2).1 = none

/-- What is kept for a signature is what was kept before. -/
structure Unmoved (view : σ → String → Option Bytes) (s : Signature) (before after : ConditionalCache × σ) : Prop where
  memory : after.1.entries.get? (storageKey s) = before.1.entries.get? (storageKey s)
  stored : view after.2 (storageKey s) = view before.2 (storageKey s)
  found : (ConditionalCache.entry? s after.1 after.2).1 = (ConditionalCache.entry? s before.1 before.2).1
  reread : (ConditionalCache.entry? s {} after.2).1 = (ConditionalCache.entry? s {} before.2).1

variable {view : σ → String → Option Bytes} {s t : Signature} {entry : CacheEntry} {cache : ConditionalCache}
    {store : σ}
  {before after : ConditionalCache × σ}

theorem entry_known (h : IsMap view) (s : Signature) (cache : ConditionalCache) (store : σ) :
    (cache.entry? s store).1 = known view cache store (storageKey s) :=
  (load_known h (storageKey s) cache store).1

/-! ### From the copies to what is found -/

theorem Holds.of_copies (h : IsMap view) (hmemory : after.1.entries.get? (storageKey s) = some entry)
    (hstored : view after.2 (storageKey s) = some (Text.utf8 entry.toJson.render)) : Holds view s entry after where
  memory := hmemory
  stored := hstored
  found := by simp [entry_known h, known, hmemory]
  reread hproper := by simp [entry_known h, known, hstored, CacheEntry.read_toJson hproper, Except.toOption]

theorem Lacks.of_copies (h : IsMap view) (hmemory : after.1.entries.get? (storageKey s) = none)
    (hstored : view after.2 (storageKey s) = none) : Lacks view s after where
  memory := hmemory
  stored := hstored
  found := by simp [entry_known h, known, hmemory, hstored]
  reread := by simp [entry_known h, known, hstored]

theorem Unmoved.of_copies (h : IsMap view)
    (hmemory : after.1.entries.get? (storageKey s) = before.1.entries.get? (storageKey s))
    (hstored : view after.2 (storageKey s) = view before.2 (storageKey s)) : Unmoved view s before after where
  memory := hmemory
  stored := hstored
  found := by simp only [entry_known h, known, hmemory, hstored]
  reread := by simp only [entry_known h, known, hstored]

theorem Unmoved.refl : Unmoved view s after after :=
  ⟨rfl, rfl, rfl, rfl⟩

theorem Unmoved.trans {later : ConditionalCache × σ} (h : Unmoved view s before after)
    (h' : Unmoved view s after later) :
    Unmoved view s before later :=
  ⟨h'.memory.trans h.memory, h'.stored.trans h.stored, h'.found.trans h.found, h'.reread.trans h.reread⟩

/-! ### The operations -/

theorem holds_save (h : IsMap view) (s : Signature) (entry : CacheEntry) (cache : ConditionalCache) (store : σ) :
    Holds view s entry (save (storageKey s) entry cache store) :=
  .of_copies h (by simp [save, KeyMap.get?_put]) (by simp [view_save h])

theorem lacks_invalidate (h : IsMap view) (s : Signature) (cache : ConditionalCache) (store : σ) :
    Lacks view s (invalidate s cache store) :=
  .of_copies h (by simp [invalidate, KeyMap.get?_erase]) (by simp [view_invalidate h])

theorem unmoved_load (h : IsMap view) (hne : storageKey s ≠ storageKey t) (cache : ConditionalCache) (store : σ) :
    Unmoved view t (cache, store) (load (storageKey s) cache store).2 := by
  refine .of_copies h ?_ (congrFun (load_view h ..) _)
  unfold load
  cases cache.entries.get? (storageKey s) with
  | some entry => rfl
  | none =>
    simp only
    split
    · simp [KeyMap.get?_put, hne]
    · rfl

theorem unmoved_save (h : IsMap view) (hne : storageKey s ≠ storageKey t) (entry : CacheEntry)
    (cache : ConditionalCache)
    (store : σ) : Unmoved view t (cache, store) (save (storageKey s) entry cache store) :=
  .of_copies h (by simp [save, KeyMap.get?_put, hne]) (by simp [view_save h, hne])

theorem unmoved_invalidate (h : IsMap view) (hne : storageKey s ≠ storageKey t) (cache : ConditionalCache) (store : σ) :
    Unmoved view t (cache, store) (invalidate s cache store) :=
  .of_copies h (by simp [invalidate, KeyMap.get?_erase, hne]) (by simp [view_invalidate h, hne])

/-! ### Outcomes -/

variable {now : Instant} {outcome : Outcome} {response : Response}

theorem entryOf?_of_jsonText {tag text : String} (hcode : 200 ≤ response.status.code ∧ response.status.code ≤ 299)
    (htag : response.tag = some tag) (hbody : response.body = Text.utf8 text)
    (houtline : Json.isOutlined response.body) :
    entryOf? now response = some ⟨tag, text, now⟩ :=
  entryOf?_eq_some.2 ⟨by simpa [Status.isSuccessful] using hcode, htag, Text.ofUtf8?_eq_some_iff.2 hbody, houtline, rfl⟩

theorem isFailedRefresh_iff :
    IsFailedRefresh (.ok response) ↔ response.status.code ≠ 304 ∧ entryOf? now response = none := by
  constructor
  · intro hfailed
    have hmodified : response.status.code ≠ 304 := by cases hfailed <;> omega
    refine ⟨hmodified, Option.eq_none_iff_forall_ne_some.2 fun entry hentry => ?_⟩
    obtain ⟨hsuccess, htag, hbody, houtline, -⟩ := entryOf?_eq_some.1 hentry
    simp only [Status.isSuccessful, Bool.and_eq_true, decide_eq_true_eq] at hsuccess
    cases hfailed with
    | refused hcode => omega
    | untagged _ hnone => cases htag.symm.trans hnone
    | unreadable _ hunreadable => exact hunreadable ⟨entry.body, Text.ofUtf8?_eq_some_iff.1 hbody, houtline⟩
  · rintro ⟨hmodified, hnone⟩
    by_cases hcode : 200 ≤ response.status.code ∧ response.status.code ≤ 299
    · cases htag : response.tag with
      | none => exact .untagged hcode htag
      | some tag =>
        refine .unreadable hcode ?_
        rintro ⟨text, hbody, houtline⟩
        cases hnone.symm.trans (entryOf?_of_jsonText hcode htag hbody houtline)
    · exact .refused (by omega) hmodified

/-- A failed refresh comes back as it is and leaves everything as it is. -/
theorem IsFailedRefresh.record_eq (hfailed : IsFailedRefresh outcome) (now : Instant) (s : Signature)
    (cache : ConditionalCache) (store : σ) : record now s outcome cache store = (outcome, cache, store) := by
  cases outcome with
  | error e => rfl
  | ok response =>
    obtain ⟨hmodified, hnone⟩ : response.status.code ≠ 304 ∧ entryOf? now response = none :=
      isFailedRefresh_iff.1 hfailed
    simp only [record, Status.isNotModified, hmodified, decide_false, Bool.false_eq_true, if_false, hnone]

theorem record_confirmed (h : IsMap view) (hcode : response.status.code = 304)
    (hfound : (cache.entry? s store).1 = some entry) :
    (record now s (.ok response) cache store).1 = .ok ⟨⟨200⟩, some entry.tag, Text.utf8 entry.body⟩ ∧
      Holds view s { entry with lastRefreshed := now } (record now s (.ok response) cache store).2 := by
  have hload : (load (storageKey s) cache store).1 = some entry := hfound
  simp only [record, Status.isNotModified, hcode, decide_true, if_true, settleNotModified, hload, true_and]
  exact holds_save h ..

theorem record_unconfirmed (h : IsMap view) (hcode : response.status.code = 304)
    (hfound : (cache.entry? s store).1 = none) :
    (record now s (.ok response) cache store).1 = .ok response ∧
      Lacks view s (record now s (.ok response) cache store).2 := by
  have hload : (load (storageKey s) cache store).1 = none := hfound
  simp only [record, Status.isNotModified, hcode, decide_true, if_true, settleNotModified, hload, true_and]
  exact lacks_invalidate h ..

theorem unmoved_record (h : IsMap view) (hne : storageKey s ≠ storageKey t) (now : Instant) (outcome : Outcome)
    (cache : ConditionalCache) (store : σ) : Unmoved view t (cache, store) (record now s outcome cache store).2 := by
  cases outcome with
  | error e => exact .refl
  | ok response =>
    simp only [record]
    split
    · simp only [settleNotModified]
      have hload := unmoved_load h hne cache store
      cases (load (storageKey s) cache store).1 with
      | some entry => exact hload.trans (unmoved_save h hne ..)
      | none => exact hload.trans (unmoved_invalidate h hne ..)
    · cases entryOf? now response with
      | some entry => exact unmoved_save h hne ..
      | none => exact .refl

/-- On a store that is a map, with anything in memory and in the store. A failed refresh comes back as it is and changes
nothing. A success with a tag and a JSON text comes back as it is, and its entry is put in place of that of its
signature. A 304 comes back as the entry that was found, of which the time alone is another afterwards; if none was
found, it comes back as it is and there is none afterwards. What is kept under other keys stays. -/
theorem refresh_confined (h : IsMap view) (now : Instant) (s : Signature) (outcome : Outcome)
    (cache : ConditionalCache) (store : σ) :
    let after := record now s outcome cache store
    (IsFailedRefresh outcome → after = (outcome, cache, store)) ∧
    (∀ response tag text, outcome = .ok response → 200 ≤ response.status.code ∧ response.status.code ≤ 299 →
      response.tag = some tag → response.body = Text.utf8 text → Json.isOutlined response.body →
        after.1 = outcome ∧ Holds view s ⟨tag, text, now⟩ after.2) ∧
    (∀ response, outcome = .ok response → response.status.code = 304 →
      (∀ entry, (cache.entry? s store).1 = some entry →
        after.1 = .ok ⟨⟨200⟩, some entry.tag, Text.utf8 entry.body⟩ ∧
          Holds view s { entry with lastRefreshed := now } after.2) ∧
      ((cache.entry? s store).1 = none → after.1 = outcome ∧ Lacks view s after.2)) ∧
    ∀ t, storageKey t ≠ storageKey s → Unmoved view t (cache, store) after.2 := by
  intro after
  refine ⟨fun hfailed => hfailed.record_eq now s cache store, ?_, ?_, ?_⟩
  · rintro response tag text rfl hcode htag hbody houtline
    have hrecord : after = _ := record_of_entryOf? (entryOf?_of_jsonText hcode htag hbody houtline) cache store
    rw [hrecord]
    exact ⟨rfl, holds_save h ..⟩
  · rintro response rfl hcode
    exact ⟨fun entry hfound => record_confirmed h hcode hfound, record_unconfirmed h hcode⟩
  · exact fun t hne => unmoved_record h hne.symm now outcome cache store

/-- Such as for an entry that is in the store only, beside another that cannot be read. -/
theorem refresh_confined_stored :
    let s := Signature.bare .get "/offerings"
    let t := Signature.bare .get "/products"
    let entry : CacheEntry := ⟨"abc", "1", ⟨0, 0⟩⟩
    let store : MemoryStore := ⟨[(storageKey s, Text.utf8 entry.toJson.render), (storageKey t, Text.utf8 "1")]⟩
    let view (store : MemoryStore) (key : String) := store.entries.get? key
    let refused : Outcome := .ok ⟨⟨500⟩, some "def", Text.utf8 "2"⟩
    let confirmed := record ⟨60, 0⟩ s (.ok ⟨⟨304⟩, none, []⟩) {} store
    IsMap view ∧ record ⟨60, 0⟩ s refused {} store = (refused, {}, store) ∧
      confirmed.1 = .ok ⟨⟨200⟩, some "abc", Text.utf8 "1"⟩ ∧
      Holds view s { entry with lastRefreshed := ⟨60, 0⟩ } confirmed.2 ∧
        Unmoved view t ({}, store) confirmed.2 := by
  intro s t entry store view refused confirmed
  have hfound : (ConditionalCache.entry? s {} store).1 = some entry := by decide +kernel
  obtain ⟨hfailed, -⟩ := refresh_confined MemoryStore.isMap ⟨60, 0⟩ s refused {} store
  obtain ⟨-, -, hconfirmed, hother⟩ :=
    refresh_confined MemoryStore.isMap ⟨60, 0⟩ s (.ok ⟨⟨304⟩, none, []⟩) {} store
  obtain ⟨hreplayed, hholds⟩ := (hconfirmed _ rfl rfl).1 entry hfound
  exact ⟨MemoryStore.isMap, hfailed (.refused (by decide) (by decide)), hreplayed, hholds, hother t (by decide +kernel)⟩

end Entitle.ConditionalCache
