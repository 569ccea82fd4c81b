import Entitle.Proofs.Cache.Conditional
import Entitle.Proofs.Cache.Entry
import Mathlib.Logic.Function.Basic

/-!
# Entries that outlive their cache

`ConditionalCache.Keeps`: whatever the cache has in memory is also what the store gives back, so a new cache on the
same store knows as much. Every operation keeps this, and what it answers follows from the entries alone.
-/

namespace Entitle.ConditionalCache
open KeyValueStore

variable {σ : Type} [KeyValueStore σ] {keys : List String} {valid : σ → Prop} {view : σ → String → Option Bytes}

/-- The entry in stored bytes. -/
def storedEntry (stored : Option Bytes) : Option CacheEntry :=
  stored.bind fun bytes => (CacheEntry.read bytes).toOption

/-- The entries under the cache's keys are stored, and memory holds some of them; the other keys hold `others`. -/
structure Keeps (keys : List String) (valid : σ → Prop) (view : σ → String → Option Bytes)
    (entries : String → Option CacheEntry) (others : String → Option Bytes) (cache : ConditionalCache) (store : σ) :
    Prop where
  valid : valid store
  others : ∀ k ∈ keys, ¬ Text.startsWith k keyStart → view store k = others k
  stored : ∀ k ∈ keys, Text.startsWith k keyStart → storedEntry (view store k) = entries k
  memory : ∀ k ∈ keys, Text.startsWith k keyStart → ∀ entry, cache.entries.get? k = some entry → entries k = some entry

variable {entries : String → Option CacheEntry} {others : String → Option Bytes} {cache : ConditionalCache} {store : σ}
  {key : String} {now : Instant} {s : Signature}

omit [KeyValueStore σ] in
theorem Keeps.congr {store' : σ} {others' : String → Option Bytes}
    (h : Keeps keys valid view entries others cache store)
    (hvalid : valid store')
    (hview : ∀ k ∈ keys, view store' k = if Text.startsWith k keyStart then view store k else others' k) :
    Keeps keys valid view entries others' cache store' where
  valid := hvalid
  others k hk hstart := by rw [hview k hk, if_neg hstart]
  stored k hk hstart := by rw [hview k hk, if_pos hstart, h.stored k hk hstart]
  memory := h.memory

theorem keeps_load (hmap : IsMapOn keys valid view) (h : Keeps keys valid view entries others cache store)
    (hkey : key ∈ keys) (hstart : Text.startsWith key keyStart) :
    (load key cache store).1 = entries key ∧
      Keeps keys valid view entries others (load key cache store).2.1 (load key cache store).2.2 := by
  unfold load
  -- memory answers first; what it does not have is what is stored, and goes to memory
  cases hm : cache.entries.get? key with
  | some entry => exact ⟨(h.memory key hkey hstart entry hm).symm, h⟩
  | none =>
    obtain ⟨-, hvalid, hview⟩ := hmap.get hkey h.valid
    have hread := (hmap.at hkey h.valid).load_fst CacheEntry.read
    have hstored := h.stored key hkey hstart
    have hkept : Keeps keys valid view entries others cache (KeyValueStore.load CacheEntry.read key store).2 :=
      h.congr hvalid fun k hk => by
        rw [show view (KeyValueStore.load CacheEntry.read key store).2 = view store from hview]
        split
        · rfl
        · next hstart => exact h.others k hk hstart
    simp only
    cases hl : KeyValueStore.load CacheEntry.read key store with
    | mk result store' =>
      rw [hl] at hread hkept
      simp only
      split
      · next entry =>
        have hentry : entries key = some entry := hstored.symm.trans ((hread entry).1 rfl)
        refine ⟨hentry.symm, hkept.valid, hkept.others, hkept.stored, fun k hk hs e he => ?_⟩
        rw [KeyMap.get?_put] at he
        split at he
        · next heq => subst heq; cases he; exact hentry
        · exact h.memory k hk hs e he
      · next hnot =>
        refine ⟨?_, hkept⟩
        cases hentry : entries key with
        | none => rfl
        | some entry => exact absurd ((hread entry).2 (hstored.trans hentry)) (hnot entry)

theorem keeps_save (hmap : IsMapOn keys valid view) (h : Keeps keys valid view entries others cache store)
    (hkey : key ∈ keys) (hstart : Text.startsWith key keyStart) {entry : CacheEntry}
    (hproper : entry.lastRefreshed.IsProper) :
    Keeps keys valid view (Function.update entries key (some entry)) others (save key entry cache store).1
      (save key entry cache store).2 := by
  obtain ⟨-, hvalid, hview⟩ := hmap.set (Text.utf8 entry.toJson.render) hkey h.valid
  refine ⟨hvalid, fun k hk hother => ?_, fun k hk hstart => ?_, fun k hk hstart e he => ?_⟩
  · show view (KeyValueStore.set key (Text.utf8 entry.toJson.render) store).2 k = _
    rw [hview k hk, if_neg fun heq : key = k => hother (heq ▸ hstart)]
    exact h.others k hk hother
  · show storedEntry (view (KeyValueStore.set key (Text.utf8 entry.toJson.render) store).2 k) = _
    rw [hview k hk]
    by_cases heq : k = key
    · subst heq
      simp [storedEntry, CacheEntry.read_toJson hproper, Except.toOption]
    · rw [if_neg (Ne.symm heq), Function.update_of_ne heq]
      exact h.stored k hk hstart
  · have he : (cache.entries.put key entry).get? k = some e := he
    rw [KeyMap.get?_put] at he
    by_cases heq : k = key
    · subst heq
      rw [if_pos rfl] at he
      rw [Function.update_self, he]
    · rw [if_neg (Ne.symm heq)] at he
      rw [Function.update_of_ne heq]
      exact h.memory k hk hstart e he

theorem keeps_invalidate (hmap : IsMapOn keys valid view) (h : Keeps keys valid view entries others cache store)
    (hkey : storageKey s ∈ keys) :
    Keeps keys valid view (Function.update entries (storageKey s) none) others (invalidate s cache store).1
      (invalidate s cache store).2 := by
  obtain ⟨-, hvalid, hview⟩ := hmap.remove hkey h.valid
  refine ⟨hvalid, fun k hk hother => ?_, fun k hk hstart => ?_, fun k hk hstart e he => ?_⟩
  · show view (KeyValueStore.remove (storageKey s) store).2 k = _
    rw [hview k hk, if_neg fun heq : storageKey s = k => hother (heq ▸ startsWith_storageKey s)]
    exact h.others k hk hother
  · show storedEntry (view (KeyValueStore.remove (storageKey s) store).2 k) = _
    rw [hview k hk]
    by_cases heq : k = storageKey s
    · subst heq
      simp [storedEntry]
    · rw [if_neg (Ne.symm heq), Function.update_of_ne heq]
      exact h.stored k hk hstart
  · have he : (cache.entries.erase (storageKey s)).get? k = some e := he
    rw [KeyMap.get?_erase] at he
    by_cases heq : k = storageKey s
    · subst heq
      rw [if_pos rfl] at he
      cases he
    · rw [if_neg (Ne.symm heq)] at he
      rw [Function.update_of_ne heq]
      exact h.memory k hk hstart e he

theorem removeAll_spec (hmap : IsMapOn keys valid view) {listed : List String} (hlisted : ∀ k ∈ listed, k ∈ keys)
    (hvalid : valid store) : valid (removeAll listed store) ∧
      ∀ k ∈ keys, view (removeAll listed store) k = if k ∈ listed then none else view store k := by
  induction listed generalizing store with
  | nil => exact ⟨hvalid, fun _ _ => rfl⟩
  | cons key listed ih =>
    obtain ⟨-, hvalid', hview⟩ := hmap.remove (hlisted key List.mem_cons_self) hvalid
    obtain ⟨hvalid'', hview'⟩ := ih (fun k hk => hlisted k (List.mem_cons_of_mem _ hk)) hvalid'
    refine ⟨hvalid'', fun k hk => ?_⟩
    rw [removeAll, hview' k hk, hview k hk]
    by_cases hmem : k ∈ listed
    · simp [hmem]
    · simp [hmem, eq_comm]

theorem keeps_clear (hmap : IsMapOn keys valid view) (h : Keeps keys valid view entries others cache store) :
    Keeps keys valid view (fun _ => none) others (clear cache store).1 (clear cache store).2 := by
  obtain ⟨hvalid, hview, listed, hlisted, hkeys, hmem⟩ := hmap.keysWithPrefix keyStart h.valid
  obtain ⟨hvalid', hview'⟩ := removeAll_spec hmap hkeys hvalid
  rw [clear_of_listed hlisted]
  refine ⟨hvalid', fun k hk hother => ?_, fun k hk hstart => ?_, fun _ _ _ _ he => nomatch he⟩
  · simp only [hview' k hk, hview]
    rw [if_neg fun hlisted => hother ((hmem k hk).1 hlisted).1]
    exact h.others k hk hother
  · simp only [hview' k hk, hview]
    split
    · rfl
    · next hnot =>
      have hnone : view store k = none := by
        by_contra hsome
        exact hnot ((hmem k hk).2 ⟨hstart, hsome⟩)
      rw [hnone]
      rfl

/-! ### Requests and outcomes -/

/-- A request with the tag of an entry. -/
def tagged (entry : Option CacheEntry) (request : Request) : Request :=
  match entry with
  | some entry => request.withHeader tagRequestHeader entry.tag
  | none => request

/-- What the classifier sees of an outcome, beside an entry. -/
def seen (outcome : Outcome) (entry : Option CacheEntry) : Outcome :=
  match outcome, entry with
  | .ok response, some entry =>
    if response.status.isNotModified then .ok ⟨⟨200⟩, some entry.tag, Text.utf8 entry.body⟩ else .ok response
  | outcome, _ => outcome

theorem attach_fst (h : IsMap view) (s : Signature) (request : Request) (cache : ConditionalCache) (store : σ) :
    (attach s request cache store).1 = tagged (known view cache store (storageKey s)) request := by
  obtain ⟨hload, -⟩ := load_known h (storageKey s) cache store
  simp only [attach, tag?, entry?, hload]
  cases known view cache store (storageKey s) <;> rfl

theorem record_fst (h : IsMap view) (now : Instant) (s : Signature) (outcome : Outcome) (cache : ConditionalCache)
    (store : σ) : (record now s outcome cache store).1 = seen outcome (known view cache store (storageKey s)) := by
  cases outcome with
  | error e => rfl
  | ok response =>
    by_cases hsame : response.status.isNotModified
    · simp only [record, hsame, if_true, settleNotModified_fst h]
      cases known view cache store (storageKey s) <;> simp [seen, hsame]
    · simp only [record, hsame, Bool.false_eq_true, if_false]
      cases entryOf? now response <;> cases known view cache store (storageKey s) <;> simp [seen, hsame]

theorem keeps_attach (hmap : IsMapOn keys valid view) (h : Keeps keys valid view entries others cache store)
    (hkey : storageKey s ∈ keys) (request : Request) :
    (attach s request cache store).1 = tagged (entries (storageKey s)) request ∧
      Keeps keys valid view entries others (attach s request cache store).2.1 (attach s request cache store).2.2 := by
  obtain ⟨hload, hkept⟩ := keeps_load hmap h hkey (startsWith_storageKey s)
  simp only [attach, tag?, entry?, hload]
  cases entries (storageKey s) with
  | some entry => exact ⟨rfl, hkept⟩
  | none => exact ⟨rfl, hkept⟩

theorem lastRefreshed_entryOf? {response : Response} {entry : CacheEntry} (h : entryOf? now response = some entry) :
    entry.lastRefreshed = now := by
  unfold entryOf? at h
  split at h
  · split at h
    · split at h
      · cases h; rfl
      · cases h
    · cases h
  · cases h

theorem keeps_record (hmap : IsMapOn keys valid view) (h : Keeps keys valid view entries others cache store)
    (hkey : storageKey s ∈ keys) (hproper : now.IsProper) (outcome : Outcome) :
    (record now s outcome cache store).1 = seen outcome (entries (storageKey s)) ∧
      Keeps keys valid view
        (Function.update entries (storageKey s) (recorded now outcome (entries (storageKey s)))) others
        (record now s outcome cache store).2.1 (record now s outcome cache store).2.2 := by
  have hstart := startsWith_storageKey s
  cases outcome with
  | error e =>
    simp only [record, recorded, Function.update_eq_self]
    exact ⟨rfl, h⟩
  | ok response =>
    by_cases hsame : response.status.isNotModified
    · obtain ⟨hload, hkept⟩ := keeps_load hmap h hkey hstart
      simp only [record, recorded, hsame, if_true, settleNotModified, hload]
      cases hentry : entries (storageKey s) with
      | some entry =>
        have hproper' : ({ entry with lastRefreshed := now } : CacheEntry).lastRefreshed.IsProper := hproper
        exact ⟨by simp only [seen, hsame, if_true], keeps_save hmap hkept hkey hstart hproper'⟩
      | none => exact ⟨rfl, keeps_invalidate hmap hkept hkey⟩
    · have hseen : seen (.ok response) (entries (storageKey s)) = .ok response := by
        cases entries (storageKey s) <;> simp [seen, hsame]
      simp only [record, recorded, hsame, Bool.false_eq_true, if_false, hseen]
      cases hentry : entryOf? now response with
      | some entry =>
        exact ⟨rfl, keeps_save hmap h hkey hstart ((lastRefreshed_entryOf? hentry).symm ▸ hproper)⟩
      | none =>
        simp only [Option.none_or, Function.update_eq_self]
        exact ⟨trivial, h⟩

end Entitle.ConditionalCache
