import Entitle.Proofs.Cache.Durable
import Entitle.Proofs.Cache.StoredBodies

/-!
# Where entries come from

A cache is used and built anew over a store any of whose operations may fail. Memory and store can then hold different
entries of one signature, but each of them has its tag and its body from one response (`sourced_runAll`): nothing ever
puts the tag of one beside the body of another. Main statement: `entry_origin`.
-/

namespace Entitle.ConditionalCache
open KeyValueStore

/-- One use of a cache. -/
inductive Use where
  | entry (s : Signature)
  | tag (s : Signature)
  | attach (s : Signature) (request : Request)
  | record (now : Instant) (s : Signature) (outcome : Outcome)
  | invalidate (s : Signature)
  | clear
  /-- The cache is dropped, and built anew on its store. -/
  | reopen
  deriving Repr

variable {σ : Type} [KeyValueStore σ]

/-- What a use makes of a cache and its store. -/
def Use.run (use : Use) (cache : ConditionalCache) (store : σ) : ConditionalCache × σ :=
  match use with
  | .entry s => (cache.entry? s store).2
  | .tag s => (tag? s cache store).2
  | .attach s request => (cache.attach s request store).2
  | .record now s outcome => (cache.record now s outcome store).2
  | .invalidate s => cache.invalidate s store
  | .clear => cache.clear store
  | .reopen => ({}, store)

/-- What a run of uses makes of a cache and its store. -/
def runAll : List Use → ConditionalCache → σ → ConditionalCache × σ
  | [], cache, store => (cache, store)
  | use :: uses, cache, store => runAll uses (use.run cache store).1 (use.run cache store).2

/-- Among the uses is a record of one response, a success under the storage key with the tag and the body. -/
def Given (uses : List Use) (key tag body : String) : Prop :=
  ∃ now s response, .record now s (.ok response) ∈ uses ∧ storageKey s = key ∧
    response.status.isSuccessful ∧ response.tag = some tag ∧ response.body = Text.utf8 body

/-- Whatever is in memory, or stored under the cache's keys, has its tag and its body from one source. -/
structure Sourced (view : σ → String → Option Bytes) (source : String → String → String → Prop)
    (cache : ConditionalCache) (store : σ) : Prop where
  memory : ∀ key entry, cache.entries.get? key = some entry → source key entry.tag entry.body
  stored : ∀ key, Text.startsWith key keyStart → ∀ entry, storedEntry (view store key) = some entry →
    source key entry.tag entry.body

variable {view : σ → String → Option Bytes} {source : String → String → String → Prop}
  {cache cache' : ConditionalCache} {store store' : σ} {key : String} {s : Signature}

/-! ### One use -/

omit [KeyValueStore σ] in
theorem Sourced.forget (hs : Sourced view source cache store)
    (hmemory : ∀ k entry, cache'.entries.get? k = some entry → cache.entries.get? k = some entry)
    (hstored : ∀ k, view store' k = view store k ∨ view store' k = none) : Sourced view source cache' store' := by
  refine ⟨fun k entry hentry => hs.memory k entry (hmemory k entry hentry), fun k hstart entry hentry => ?_⟩
  rcases hstored k with hsame | hnone
  · exact hs.stored k hstart entry (hsame ▸ hentry)
  · rw [hnone] at hentry
    cases hentry

theorem sourced_load (h : IsFallible view) (hs : Sourced view source cache store)
    (hstart : Text.startsWith key keyStart) :
    (∀ entry, (load key cache store).1 = some entry → source key entry.tag entry.body) ∧
      Sourced view source (load key cache store).2.1 (load key cache store).2.2 := by
  unfold load
  cases hm : cache.entries.get? key with
  | some entry =>
    refine ⟨fun e he => ?_, hs⟩
    cases he
    exact hs.memory key entry hm
  | none =>
    have hview := h.load_snd CacheEntry.read key store
    have hload := @IsFallible.load_fst σ CacheEntry _ view h CacheEntry.read key store
    simp only
    cases hl : KeyValueStore.load CacheEntry.read key store with
    | mk result store' =>
      rw [hl] at hview hload
      have hkept : Sourced view source cache store' :=
        hs.forget (fun _ _ he => he) fun k => .inl (congrFun hview k)
      simp only
      split
      · next entry =>
        have hentry : source key entry.tag entry.body := hs.stored key hstart entry (hload rfl)
        refine ⟨fun e he => by cases he; exact hentry, fun k e he => ?_, hkept.stored⟩
        rw [KeyMap.get?_put] at he
        split at he
        · next heq => subst heq; cases he; exact hentry
        · exact hs.memory k e he
      · exact ⟨nofun, hkept⟩

theorem sourced_save (h : IsFallible view) (hs : Sourced view source cache store) {entry : CacheEntry}
    (hentry : source key entry.tag entry.body) :
    Sourced view source (save key entry cache store).1 (save key entry cache store).2 := by
  refine ⟨fun k e he => ?_, fun k hstart e he => ?_⟩
  · have hput : (cache.entries.put key entry).get? k = some e := he
    rw [KeyMap.get?_put] at hput
    split at hput
    · next heq => subst heq; cases hput; exact hentry
    · exact hs.memory k e hput
  · have hset : storedEntry (view (KeyValueStore.set key (Text.utf8 entry.toJson.render) store).2 k) = some e := he
    rw [h.set] at hset
    split at hset
    · next heq =>
      -- what is read back has at most another time
      obtain ⟨-, rfl⟩ := heq
      simp only [storedEntry, Option.bind_some, CacheEntry.toOption_read_toJson, Option.map_eq_some_iff] at hset
      obtain ⟨t, -, rfl⟩ := hset
      exact hentry
    · exact hs.stored k hstart e hset

theorem sourced_invalidate (h : IsFallible view) (hs : Sourced view source cache store) (s : Signature) :
    Sourced view source (invalidate s cache store).1 (invalidate s cache store).2 := by
  refine hs.forget (fun k entry hentry => ?_) fun k => h.remove_cases (storageKey s) store k
  have hentry : (cache.entries.erase (storageKey s)).get? k = some entry := hentry
  rw [KeyMap.get?_erase] at hentry
  split at hentry
  · cases hentry
  · exact hentry

theorem view_removeAll (h : IsFallible view) (keys : List String) (store : σ) (k : String) :
    view (removeAll keys store) k = view store k ∨ view (removeAll keys store) k = none := by
  induction keys generalizing store with
  | nil => exact .inl rfl
  | cons key keys ih =>
    rw [removeAll]
    rcases ih (KeyValueStore.remove key store).2 with hsame | hnone
    · rw [hsame]
      exact h.remove_cases key store k
    · exact .inr hnone

theorem sourced_clear (h : IsFallible view) (hs : Sourced view source cache store) :
    Sourced view source (clear cache store).1 (clear cache store).2 := by
  have hview := (h.keysWithPrefix keyStart store).1
  cases hlisted : (KeyValueStore.keysWithPrefix keyStart store).1 with
  | ok keys =>
    rw [clear_of_listed hlisted]
    exact hs.forget nofun fun k => hview ▸ view_removeAll h keys _ k
  | error e =>
    rw [clear_of_error hlisted]
    exact hs.forget nofun fun k => .inl (congrFun hview k)

theorem sourced_attach (h : IsFallible view) (hs : Sourced view source cache store) (s : Signature)
    (request : Request) :
    Sourced view source (attach s request cache store).2.1 (attach s request cache store).2.2 := by
  have hload := (sourced_load h hs (startsWith_storageKey s)).2
  simp only [attach, tag?, entry?]
  cases (load (storageKey s) cache store).1 <;> exact hload

/-- A record needs a source for what the response leaves, and for nothing else. -/
theorem sourced_record (h : IsFallible view) (hs : Sourced view source cache store) {now : Instant} {outcome : Outcome}
    (hsource : ∀ response entry, outcome = .ok response → entryOf? now response = some entry →
      source (storageKey s) entry.tag entry.body) :
    Sourced view source (record now s outcome cache store).2.1 (record now s outcome cache store).2.2 := by
  cases outcome with
  | error e => exact hs
  | ok response =>
    by_cases hsame : response.status.isNotModified
    · obtain ⟨hfound, hloaded⟩ := sourced_load h hs (startsWith_storageKey s)
      simp only [record, hsame, if_true, settleNotModified]
      cases hentry : (load (storageKey s) cache store).1 with
      | some entry =>
        have hmoved : source (storageKey s) ({ entry with lastRefreshed := now } : CacheEntry).tag entry.body :=
          hfound entry hentry
        exact sourced_save h hloaded hmoved
      | none => exact sourced_invalidate h hloaded s
    · simp only [record, hsame, Bool.false_eq_true, if_false]
      cases hentry : entryOf? now response with
      | some entry => exact sourced_save h hs (hsource response entry rfl hentry)
      | none => exact hs

theorem sourced_use (h : IsFallible view) (hs : Sourced view source cache store) {use : Use}
    (hsource : ∀ now s response entry, use = .record now s (.ok response) → entryOf? now response = some entry →
      source (storageKey s) entry.tag entry.body) :
    Sourced view source (use.run cache store).1 (use.run cache store).2 := by
  cases use with
  | entry s => exact (sourced_load h hs (startsWith_storageKey s)).2
  | tag s => exact (sourced_load h hs (startsWith_storageKey s)).2
  | attach s request => exact sourced_attach h hs s request
  | record now s outcome =>
    exact sourced_record h hs fun response entry houtcome => hsource now s response entry (by rw [houtcome])
  | invalidate s => exact sourced_invalidate h hs s
  | clear => exact sourced_clear h hs
  | reopen => exact hs.forget nofun fun _ => .inl rfl

/-! ### All uses -/

theorem Sourced.runAll (h : IsFallible view) {uses : List Use} (hs : Sourced view source cache store)
    (hsource : ∀ now s response entry, .record now s (.ok response) ∈ uses → entryOf? now response = some entry →
      source (storageKey s) entry.tag entry.body) :
    Sourced view source (runAll uses cache store).1 (runAll uses cache store).2 := by
  induction uses generalizing cache store with
  | nil => exact hs
  | cons use uses ih =>
    refine ih (sourced_use h hs ?_) fun now s response entry hmem => ?_
    · exact fun now s response entry huse => hsource now s response entry (huse ▸ List.mem_cons_self)
    · exact hsource now s response entry (List.mem_cons_of_mem _ hmem)

theorem sourced_runAll (h : IsFallible view) (uses : List Use)
    (hempty : ∀ k, Text.startsWith k keyStart → view store k = none) :
    Sourced view (Given uses) (runAll uses {} store).1 (runAll uses {} store).2 := by
  have hstart : Sourced view (Given uses) {} store :=
    ⟨nofun, fun k hk entry hentry => by rw [hempty k hk] at hentry; cases hentry⟩
  refine hstart.runAll h fun now s response entry hmem hentry => ?_
  obtain ⟨hsuccess, htag, hbody, -, -⟩ := entryOf?_eq_some.1 hentry
  exact ⟨now, s, response, hmem, rfl, hsuccess, htag, Text.ofUtf8?_eq_some_iff.1 hbody⟩

theorem record_notModified {entry : CacheEntry} (hentry : (cache.entry? s store).1 = some entry) (now : Instant)
    {response : Response} (hsame : response.status.isNotModified) :
    (record now s (.ok response) cache store).1 = .ok ⟨⟨200⟩, some entry.tag, Text.utf8 entry.body⟩ := by
  have hload : (load (storageKey s) cache store).1 = some entry := hentry
  simp only [record, hsame, if_true, settleNotModified, hload]

theorem entry_again {entry : CacheEntry} (hentry : (cache.entry? s store).1 = some entry) (store' : σ) :
    (ConditionalCache.entry? s (cache.entry? s store).2.1 store').1 = some entry := by
  have hload : (load (storageKey s) cache store).1 = some entry := hentry
  have hmemory : (load (storageKey s) cache store).2.1.entries.get? (storageKey s) = some entry := by
    unfold load at hload ⊢
    cases hm : cache.entries.get? (storageKey s) with
    | some e =>
      rw [hm] at hload
      exact hm.trans hload
    | none =>
      rw [hm] at hload
      simp only at hload ⊢
      cases hl : KeyValueStore.load CacheEntry.read (storageKey s) store with
      | mk result store'' =>
        rw [hl] at hload
        simp only at hload ⊢
        split at hload
        · cases hload
          simp [KeyMap.get?_put]
        · cases hload
  show (load (storageKey s) (load (storageKey s) cache store).2.1 store').1 = some entry
  rw [load, hmemory]

/-- Whatever was done with a cache over a failing store that had no entries at first: the entry of a signature has its
tag and its body from one response that was recorded under its key, and a 304 brings back that tag and that body,
whether it is settled at once or after the entry was looked up, and whatever became of the store by then. -/
theorem entry_origin (h : IsFallible view) (hempty : ∀ k, Text.startsWith k keyStart → view store k = none)
    (uses : List Use) :
    let after := runAll uses {} store
    ∀ s entry, (ConditionalCache.entry? s after.1 after.2).1 = some entry →
      Given uses (storageKey s) entry.tag entry.body ∧
        ∀ now (response : Response), response.status.isNotModified →
          (record now s (.ok response) after.1 after.2).1 = .ok ⟨⟨200⟩, some entry.tag, Text.utf8 entry.body⟩ ∧
            ∀ later : σ, (record now s (.ok response) (ConditionalCache.entry? s after.1 after.2).2.1 later).1 =
              .ok ⟨⟨200⟩, some entry.tag, Text.utf8 entry.body⟩ := by
  intro after s entry hentry
  have hsourced : Sourced view (Given uses) after.1 after.2 := sourced_runAll h uses hempty
  refine ⟨(sourced_load h hsourced (startsWith_storageKey s)).1 entry hentry, fun now response hsame => ?_⟩
  exact ⟨record_notModified hentry now hsame, fun later => record_notModified (entry_again hentry later) now hsame⟩

/-- Such as an entry that comes back from the store: neither its replacement nor its removal had reached it. -/
theorem entry_origin_older :
    let s := Signature.bare .get "/offerings"
    let response (tag body : String) : Response := ⟨⟨200⟩, some tag, Text.utf8 body⟩
    let uses : List Use := [.record ⟨0, 0⟩ s (.ok (response "v1" "1")), .record ⟨60, 0⟩ s (.ok (response "v2" "2")),
      .tag s, .invalidate s]
    let store : FaultyStore MemoryStore := ⟨{}, [false, true, true]⟩
    let view (faulty : FaultyStore MemoryStore) (key : String) := faulty.store.entries.get? key
    let after := runAll uses {} store
    let entry : CacheEntry := ⟨"v1", "1", ⟨0, 0⟩⟩
    IsFallible view ∧ (∀ k, Text.startsWith k keyStart → view store k = none) ∧
      (ConditionalCache.entry? s after.1 after.2).1 = some entry ∧ Given uses (storageKey s) entry.tag entry.body ∧
        (record ⟨90, 0⟩ s (.ok ⟨⟨304⟩, none, []⟩) after.1 after.2).1 = .ok ⟨⟨200⟩, some "v1", Text.utf8 "1"⟩ := by
  intro s response uses store view after entry
  have hfallible : IsFallible view := FaultyStore.isFallible MemoryStore.isMap
  have hempty : ∀ k, Text.startsWith k keyStart → view store k = none := fun _ _ => rfl
  have hentry : (ConditionalCache.entry? s after.1 after.2).1 = some entry := by decide +kernel
  obtain ⟨hgiven, hreplayed⟩ := entry_origin hfallible hempty uses s entry hentry
  exact ⟨hfallible, hempty, hentry, hgiven, (hreplayed ⟨90, 0⟩ ⟨⟨304⟩, none, []⟩ rfl).1⟩

end Entitle.ConditionalCache
