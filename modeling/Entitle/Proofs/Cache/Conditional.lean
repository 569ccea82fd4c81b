import Entitle.Cache.Conditional
import Entitle.Proofs.Store
import Mathlib.Tactic.ByContra

/-!
# What a cache knows

A cache over a store that is a map is read through one view: `known`, the entry under a key, from memory or
else from the store. Every operation is one equation on this view.
-/

namespace Entitle.ConditionalCache
open KeyValueStore

variable {σ : Type} {view : σ → String → Option Bytes}

/-- The entry under a key. -/
def known (view : σ → String → Option Bytes) (cache : ConditionalCache) (store : σ) (key : String) :
    Option CacheEntry :=
  (cache.entries.get? key).or ((view store key).bind fun bytes => (CacheEntry.read bytes).toOption)

theorem startsWith_storageKey (s : Signature) : Text.startsWith (storageKey s) keyStart := by
  simp [Text.startsWith, storageKey, keyStart]

variable [KeyValueStore σ] {cache : ConditionalCache} {store : σ}

theorem load_known (h : IsMap view) (key : String) (cache : ConditionalCache) (store : σ) :
    (load key cache store).1 = known view cache store key ∧
      ∀ k, known view (load key cache store).2.1 (load key cache store).2.2 k = known view cache store k := by
  have hview := h.load_snd CacheEntry.read key store
  have hread := h.load_fst CacheEntry.read key store
  unfold load
  cases hm : cache.entries.get? key with
  | some entry => exact ⟨by simp [known, hm], fun k => rfl⟩
  | none =>
    simp only
    cases hl : KeyValueStore.load CacheEntry.read key store with
    | mk result store' =>
    rw [hl] at hview hread
    simp only at hview hread
    simp only
    split
    · next entry =>
      have hentry := (hread entry).1 rfl
      refine ⟨by simp [known, hm, hentry], fun k => ?_⟩
      simp only [known, hview, KeyMap.get?_put]
      split
      · next hk => subst hk; rw [hm, Option.none_or, hentry]; rfl
      · rfl
    · next hnot =>
      have hnone : ((view store key).bind fun bytes => (CacheEntry.read bytes).toOption) = none := by
        by_contra hne
        obtain ⟨entry, hentry⟩ := Option.ne_none_iff_exists'.1 hne
        exact hnot entry ((hread entry).2 hentry)
      exact ⟨by simp [known, hm, hnone], fun k => by simp only [known, hview]⟩

theorem save_known (h : IsMap view) (key : String) (entry : CacheEntry) (k : String) :
    known view (save key entry cache store).1 (save key entry cache store).2 k =
      if key = k then some entry else known view cache store k := by
  have hview := (h.set key (Text.utf8 entry.toJson.render) store).2 k
  simp only [known, save, KeyValueStore.save, KeyMap.get?_put, hview]
  split <;> simp

theorem invalidate_known (h : IsMap view) (s : Signature) (k : String) :
    known view (invalidate s cache store).1 (invalidate s cache store).2 k =
      if storageKey s = k then none else known view cache store k := by
  have hview := (h.remove (storageKey s) store).2 k
  simp only [known, invalidate, KeyMap.get?_erase, hview]
  split <;> simp

theorem removeAll_view (h : IsMap view) (keys : List String) (store : σ) (k : String) :
    view (removeAll keys store) k = if k ∈ keys then none else view store k := by
  induction keys generalizing store with
  | nil => rfl
  | cons key keys ih =>
    rw [removeAll, ih, (h.remove key store).2]
    by_cases hk : k ∈ keys
    · simp [hk]
    · simp [hk, eq_comm]

theorem clear_of_listed {listed : List String}
    (hlisted : (KeyValueStore.keysWithPrefix keyStart store).1 = .ok listed) :
    clear cache store = (⟨[]⟩, removeAll listed (KeyValueStore.keysWithPrefix keyStart store).2) := by
  simp [clear, hlisted]

theorem clear_of_error {e : StoreError} (hlisted : (KeyValueStore.keysWithPrefix keyStart store).1 = .error e) :
    clear cache store = (⟨[]⟩, (KeyValueStore.keysWithPrefix keyStart store).2) := by
  simp [clear, hlisted]

theorem clear_known (h : IsMap view) {k : String} (hk : Text.startsWith k keyStart) :
    known view (clear cache store).1 (clear cache store).2 k = none := by
  obtain ⟨hview, keys, hkeys, hmem⟩ := h.keysWithPrefix keyStart store
  rw [clear_of_listed hkeys]
  simp only [known, KeyMap.get?_nil, Option.none_or, removeAll_view h, hview]
  split
  · rfl
  · next hnot =>
    have : view store k = none := by
      by_contra hne
      exact hnot ((hmem k).2 ⟨hk, hne⟩)
    rw [this]
    rfl

/-! ### What is stored -/

theorem load_view (h : IsMap view) (key : String) (cache : ConditionalCache) (store : σ) :
    view (load key cache store).2.2 = view store := by
  have hview := h.load_snd CacheEntry.read key store
  unfold load
  cases cache.entries.get? key with
  | some entry => rfl
  | none =>
    simp only
    cases hl : KeyValueStore.load CacheEntry.read key store with
    | mk result store' =>
      rw [hl] at hview
      simp only
      split <;> exact hview

theorem view_save (h : IsMap view) (key : String) (entry : CacheEntry) (cache : ConditionalCache) (store : σ)
    (k : String) :
    view (save key entry cache store).2 k = if key = k then some (Text.utf8 entry.toJson.render) else view store k :=
  (h.set key (Text.utf8 entry.toJson.render) store).2 k

theorem view_invalidate (h : IsMap view) (s : Signature) (cache : ConditionalCache) (store : σ) (k : String) :
    view (invalidate s cache store).2 k = if storageKey s = k then none else view store k :=
  (h.remove (storageKey s) store).2 k

/-- What is cleared is found by its prefix, so all the keys of the cache go and no other. -/
theorem view_clear (h : IsMap view) (cache : ConditionalCache) (store : σ) (k : String) :
    view (clear cache store).2 k = if Text.startsWith k keyStart then none else view store k := by
  obtain ⟨hview, listed, hlisted, hmem⟩ := h.keysWithPrefix keyStart store
  rw [clear_of_listed hlisted, removeAll_view h, hview]
  by_cases hk : Text.startsWith k keyStart
  · cases hstored : view store k with
    | none => simp [hk]
    | some bytes => rw [if_pos ((hmem k).2 ⟨hk, by simp [hstored]⟩), if_pos hk]
  · rw [if_neg fun hlisted => hk ((hmem k).1 hlisted).1, if_neg hk]

theorem clear_fst (h : IsMap view) (cache : ConditionalCache) (store : σ) : (clear cache store).1 = ⟨[]⟩ := by
  obtain ⟨-, listed, hlisted, -⟩ := h.keysWithPrefix keyStart store
  rw [clear_of_listed hlisted]

/-! ### Requests and outcomes -/

theorem attach_tag? (h : IsMap view) (s : Signature) :
    (attach s (.ofSignature s) cache store).1.tag? = (known view cache store (storageKey s)).map (·.tag) := by
  obtain ⟨hload, -⟩ := load_known h (storageKey s) cache store
  simp only [attach, tag?, entry?, hload]
  cases known view cache store (storageKey s) <;> simp [Request.tag?, Request.header?, Request.withHeader,
    Request.ofSignature, KeyMap.get?_put]

theorem attach_known (h : IsMap view) (s : Signature) (request : Request) (k : String) :
    known view (attach s request cache store).2.1 (attach s request cache store).2.2 k = known view cache store k := by
  obtain ⟨hload, hsame⟩ := load_known h (storageKey s) cache store
  rw [← hsame k]
  simp only [attach, tag?, entry?]
  cases (load (storageKey s) cache store).1 <;> rfl

theorem settleNotModified_fst (h : IsMap view) (now : Instant) (s : Signature) (response : Response)
    (cache : ConditionalCache) (store : σ) :
    (settleNotModified now s response cache store).1 =
      match known view cache store (storageKey s) with
      | some entry => ⟨⟨200⟩, some entry.tag, Text.utf8 entry.body⟩
      | none => response := by
  obtain ⟨hload, -⟩ := load_known h (storageKey s) cache store
  simp only [settleNotModified, hload]
  cases known view cache store (storageKey s) <;> rfl

theorem settleNotModified_known (h : IsMap view) (now : Instant) (s : Signature) (response : Response) (k : String) :
    known view (settleNotModified now s response cache store).2.1 (settleNotModified now s response cache store).2.2 k =
      if storageKey s = k then (known view cache store k).map ({ · with lastRefreshed := now })
      else known view cache store k := by
  obtain ⟨hload, hsame⟩ := load_known h (storageKey s) cache store
  simp only [settleNotModified, hload]
  cases hk : known view cache store (storageKey s) with
  | some entry =>
    show known view (save _ _ _ _).1 (save _ _ _ _).2 k = _
    rw [save_known h, hsame]
    split
    · next heq => subst heq; rw [hk]; rfl
    · rfl
  | none =>
    show known view (invalidate _ _ _).1 (invalidate _ _ _).2 k = _
    rw [invalidate_known h, hsame]
    split
    · next heq => subst heq; rw [hk]; rfl
    · rfl

/-- The entry of a signature after an outcome. -/
def recorded (now : Instant) (outcome : Outcome) (entry : Option CacheEntry) : Option CacheEntry :=
  match outcome with
  | .error _ => entry
  | .ok response =>
    if response.status.isNotModified then entry.map ({ · with lastRefreshed := now })
    else (entryOf? now response).or entry

theorem record_known (h : IsMap view) (now : Instant) (s : Signature) (outcome : Outcome) (k : String) :
    known view (record now s outcome cache store).2.1 (record now s outcome cache store).2.2 k =
      if storageKey s = k then recorded now outcome (known view cache store k) else known view cache store k := by
  cases outcome with
  | error e => simp [record, recorded]
  | ok response =>
    simp only [record, recorded]
    split
    · exact settleNotModified_known h now s response k
    · cases entryOf? now response with
      | some entry => exact save_known h _ entry k
      | none => simp

end Entitle.ConditionalCache
