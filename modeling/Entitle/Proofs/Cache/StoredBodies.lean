import Entitle.Classify
import Entitle.Proofs.Cache.Conditional
import Entitle.Proofs.Json.Outline
import Entitle.Store.Memory

/-!
# Stored bodies and the classifier

The cache looks at the outline of a body, the classifier reads its value. Every body that the classifier reads
is stored verbatim. The converse fails: a body whose outline is sound is stored even if its value is refused,
and what refuses it then is one of the faults that an outline does not show.
-/

namespace Entitle.Classify

/-- The classifier could not read the body. -/
def IsMalformed (result : Classified Json) : Prop :=
  ∃ reason text, result = .error (.malformed reason text)

theorem isMalformed_classify {response : Response} (hsuccess : response.status.isSuccessful) :
    IsMalformed (classify (.ok response)) ↔ ∃ fault, Json.read response.body = .error fault := by
  simp only [classify, hsuccess, if_true, success, IsMalformed]
  cases Json.read response.body with
  | error fault => simp
  | ok payload =>
    -- a partial rejection is an error, but not that the body is malformed
    simp only
    cases partialRejection? response.status payload with
    | none => simp
    | some rejection => cases hcode : rejection.code.isRecognized <;> simp [RequestError.ofBackend, hcode]

end Entitle.Classify

namespace Entitle.ConditionalCache
open Classify

/-- What a success leaves: its tag and its body as a text, if the outline of the body is sound. -/
theorem entryOf?_eq_some {now : Instant} {response : Response} {entry : CacheEntry} :
    entryOf? now response = some entry ↔
      response.status.isSuccessful ∧ response.tag = some entry.tag ∧
        Text.ofUtf8? response.body = some entry.body ∧ Json.isOutlined response.body ∧ entry.lastRefreshed = now := by
  obtain ⟨tag, body, lastRefreshed⟩ := entry
  unfold entryOf?
  split
  · next hsuccess =>
    split
    · next tag' body' htag hbody =>
      simp only [htag, hbody, hsuccess, Option.ite_none_right_eq_some, Option.some.injEq, CacheEntry.mk.injEq]
      grind
    · next hnone =>
      simp only [hsuccess, reduceCtorEq, false_iff, true_and]
      rintro ⟨htag, hbody, -⟩
      exact hnone _ _ htag hbody
  · next hrejected => simp [hrejected]

theorem not_isNotModified {status : Status} (h : status.isSuccessful) : ¬ status.isNotModified := by
  simp only [Status.isSuccessful, Status.isNotModified, Bool.and_eq_true, decide_eq_true_eq] at h ⊢
  omega

variable {σ : Type} [KeyValueStore σ] {now : Instant} {s : Signature} {response : Response} {entry : CacheEntry}

theorem record_of_entryOf? (h : entryOf? now response = some entry) (cache : ConditionalCache) (store : σ) :
    record now s (.ok response) cache store = (.ok response, save (storageKey s) entry cache store) := by
  have hsuccess := (entryOf?_eq_some.1 h).1
  simp only [record, not_isNotModified hsuccess, h]
  rfl

theorem entry_save (s : Signature) (entry : CacheEntry) (cache : ConditionalCache) (store : σ) :
    (ConditionalCache.entry? s (save (storageKey s) entry cache store).1 (save (storageKey s) entry cache store).2).1 =
      some entry := by
  simp only [ entry?, load, save, KeyMap.get?_put, if_true]

/-! ### Which bodies are stored -/

/-- A stored body is rejected by the classifier for, and only for, a fault that its outline does not show: too many
containers inside one another, a number out of range or half of a surrogate pair. -/
theorem stored_isMalformed_iff (hstored : entryOf? now response = some entry) (cache : ConditionalCache) (store : σ) :
    record now s (.ok response) cache store = (.ok response, save (storageKey s) entry cache store) ∧
      (IsMalformed (classify (.ok response)) ↔
        ∃ fault, Json.read response.body = .error fault ∧ fault.cause.isUnseen) := by
  obtain ⟨hsuccess, -, hbody, houtline, -⟩ := entryOf?_eq_some.1 hstored
  refine ⟨record_of_entryOf? hstored cache store, ?_⟩
  rw [isMalformed_classify hsuccess]
  constructor
  · rintro ⟨fault, hfault⟩
    exact ⟨fault, hfault, Json.isUnseen_of_isOutlined (Text.isUtf8_iff.2 ⟨_, hbody⟩) houtline hfault⟩
  · rintro ⟨fault, hfault, -⟩
    exact ⟨fault, hfault⟩

/-- A success whose body is half of a surrogate pair. -/
def halfPair : Response :=
  ⟨⟨200⟩, some "abc", Text.utf8 "\"\\ud800\""⟩

/-- Half of a surrogate pair is such a fault. -/
theorem stored_isMalformed_halfPair :
    entryOf? ⟨0, 0⟩ halfPair = some ⟨"abc", "\"\\ud800\"", ⟨0, 0⟩⟩ ∧
      (IsMalformed (classify (.ok halfPair)) ↔
        ∃ fault, Json.read halfPair.body = .error fault ∧ fault.cause.isUnseen) :=
  have hstored : entryOf? ⟨0, 0⟩ halfPair = some ⟨"abc", "\"\\ud800\"", ⟨0, 0⟩⟩ := by decide +kernel
  ⟨hstored, (stored_isMalformed_iff (s := .bare .get "/offerings") hstored {} ({} : MemoryStore)).2⟩

/-- So the cache keeps a body that the classifier rejects, and a later 304 brings back nothing better. -/
theorem halfPair_kept :
    let s := Signature.bare .get "/offerings"
    let after := record ⟨0, 0⟩ s (.ok halfPair) {} ({} : MemoryStore)
    (ConditionalCache.entry? s after.2.1 after.2.2).1 = some ⟨"abc", "\"\\ud800\"", ⟨0, 0⟩⟩ ∧
      IsMalformed (classify after.1) ∧
      IsMalformed (classify (record ⟨60, 0⟩ s (.ok ⟨⟨304⟩, none, []⟩) after.2.1 after.2.2).1) := by
  intro s after
  have hmalformed : IsMalformed (classify (.ok halfPair)) := by
    rw [isMalformed_classify (by decide)]
    exact ⟨⟨.unexpectedEndOfHexEscape, [], .plain⟩, by cbv⟩
  have hrecorded : after.1 = .ok halfPair := rfl
  have hreplayed : (record ⟨60, 0⟩ s (.ok ⟨⟨304⟩, none, []⟩) after.2.1 after.2.2).1 = .ok halfPair := by
    decide +kernel
  exact ⟨by decide +kernel, hrecorded ▸ hmalformed, hreplayed ▸ hmalformed⟩

/-- Every body that the classifier reads is stored verbatim, with its tag and the time. -/
theorem stored_of_not_isMalformed {tag : String} (hsuccess : response.status.isSuccessful)
    (htag : response.tag = some tag) (hread : ¬ IsMalformed (classify (.ok response)))
    (now : Instant) (s : Signature) (cache : ConditionalCache) (store : σ) :
    ∃ body, Text.utf8 body = response.body ∧
      record now s (.ok response) cache store = (.ok response, save (storageKey s) ⟨tag, body, now⟩ cache store) ∧
      (ConditionalCache.entry? s (record now s (.ok response) cache store).2.1
        (record now s (.ok response) cache store).2.2).1 =
        some ⟨tag, body, now⟩ := by
  rw [isMalformed_classify hsuccess] at hread
  obtain ⟨payload, hpayload⟩ : ∃ payload, Json.read response.body = .ok payload := by
    cases hresult : Json.read response.body with
    | error fault => exact absurd ⟨fault, hresult⟩ hread
    | ok payload => exact ⟨payload, rfl⟩
  obtain ⟨hutf8, houtline⟩ := Json.isOutlined_of_read hpayload
  obtain ⟨body, hbody⟩ := Text.isUtf8_iff.1 hutf8
  have hentry : entryOf? now response = some ⟨tag, body, now⟩ :=
    entryOf?_eq_some.2 ⟨hsuccess, htag, hbody, houtline, rfl⟩
  have hrecord := record_of_entryOf? (s := s) hentry cache store
  refine ⟨body, (Text.ofUtf8?_eq_some_iff.1 hbody).symm, hrecord, ?_⟩
  · rw [hrecord]
    exact entry_save s _ cache store

/-- Among them a text with blanks, escapes, a surrogate pair and containers inside one another. -/
theorem stored_of_not_isMalformed_pair :
    let response : Response :=
      ⟨⟨201⟩, some "v1", Text.utf8 " \x7b\"id\" :\"\\ud83d\\ude00 é\\n\",\"all\":[[], [true]]\x7d\n"⟩
    response.status.isSuccessful ∧ response.tag = some "v1" ∧ ¬ IsMalformed (classify (.ok response)) ∧
      ∃ body, Text.utf8 body = response.body ∧
        let s := Signature.bare .get "/offerings"
        let after := record ⟨0, 0⟩ s (.ok response) {} ({} : MemoryStore)
        after = (.ok response, save (storageKey s) ⟨"v1", body, ⟨0, 0⟩⟩ {} ({} : MemoryStore)) ∧
          (ConditionalCache.entry? s after.2.1 after.2.2).1 = some ⟨"v1", body, ⟨0, 0⟩⟩ := by
  intro response
  have hsuccess : response.status.isSuccessful := by decide
  have hvalue : (Json.read response.body).toOption.isSome = true := by cbv
  have hread : ¬ IsMalformed (classify (.ok response)) := by
    rw [isMalformed_classify hsuccess]
    rintro ⟨fault, hfault⟩
    rw [hfault] at hvalue
    cases hvalue
  exact ⟨hsuccess, rfl, hread,
    stored_of_not_isMalformed hsuccess rfl hread ⟨0, 0⟩ (.bare .get "/offerings") {} ({} : MemoryStore)⟩

end Entitle.ConditionalCache
