import Entitle.Proofs.Cache.Origin

/-!
# How long an invalidation lasts

An invalidation drops an entry from memory, and from the store if the store lets it. What the store keeps is read back
as if nothing had happened. Main statement: `invalidation_lasts`. A signature stays without an entry until a response
leaves a new one, if and only if the store forgot its key or had nothing readable there; otherwise the next look-up that
reaches the store brings the old entry back (`invalidation_undone`).
-/

namespace Entitle.ConditionalCache
open KeyValueStore

variable {σ : Type} [KeyValueStore σ]

/-- The keys that a store forgets when it is told to forget some, one after the other. -/
def forgotten : List String → σ → List String
  | [], _ => []
  | key :: keys, store =>
    (if (KeyValueStore.remove key store).1.isOk then [key] else []) ++
      forgotten keys (KeyValueStore.remove key store).2

namespace Use

/-- The use is an invalidation of the signature, or of every signature. -/
def Drops (use : Use) (s : Signature) : Prop :=
  use = .invalidate s ∨ use = .clear

/-- The keys that an invalidation gets the store to forget. -/
def removed (use : Use) (store : σ) : List String :=
  match use with
  | .invalidate s => forgotten [storageKey s] store
  | .clear =>
    match (KeyValueStore.keysWithPrefix keyStart store).1 with
    | .ok listed => forgotten listed (KeyValueStore.keysWithPrefix keyStart store).2
    | .error _ => []
  | _ => []

end Use

/-- No use records a response that leaves an entry under the key. -/
def LeaveNothing (uses : List Use) (key : String) : Prop :=
  ∀ now s response, .record now s (.ok response) ∈ uses → storageKey s = key → entryOf? now response = none

variable {view : σ → String → Option Bytes} {cache : ConditionalCache} {store : σ} {s : Signature} {key : String}

/-! ### What an invalidation leaves -/

theorem view_forgotten (h : IsFallible view) (keys : List String) (store : σ) (k : String) :
    view (removeAll keys store) k = if k ∈ forgotten keys store then none else view store k := by
  induction keys generalizing store with
  | nil => rfl
  | cons key keys ih =>
    rw [removeAll, ih, h.remove]
    simp only [forgotten, List.mem_append]
    by_cases hok : (KeyValueStore.remove key store).1.isOk
    · by_cases hk : k = key
      · simp [hok, hk]
      · simp [hok, hk, Ne.symm hk]
    · simp [hok]

namespace Use.Drops
variable {drop : Use}

theorem view_run (h : IsFallible view) (hdrops : drop.Drops s) (cache : ConditionalCache) (store : σ) (k : String) :
    view (drop.run cache store).2 k = if k ∈ drop.removed store then none else view store k := by
  rcases hdrops with rfl | rfl
  · exact view_forgotten h [storageKey s] store k
  · have hview := (h.keysWithPrefix keyStart store).1
    cases hlisted : (KeyValueStore.keysWithPrefix keyStart store).1 with
    | ok listed => simp only [Use.run, removed, clear_of_listed hlisted, hlisted, view_forgotten h, hview]
    | error e => simp [Use.run, removed, clear_of_error hlisted, hlisted, hview]

theorem entries_run (hdrops : drop.Drops s) (cache : ConditionalCache) (store : σ) :
    (drop.run cache store).1.entries.get? (storageKey s) = none := by
  rcases hdrops with rfl | rfl
  · show (cache.entries.erase (storageKey s)).get? (storageKey s) = none
    rw [KeyMap.get?_erase, if_pos rfl]
  · cases hlisted : (KeyValueStore.keysWithPrefix keyStart store).1 with
    | ok listed => rw [Use.run, clear_of_listed hlisted]; rfl
    | error e => rw [Use.run, clear_of_error hlisted]; rfl

end Use.Drops

theorem load_of_not_in_memory (h : IsFallible view) (hmemory : cache.entries.get? key = none) {entry : CacheEntry}
    (hstored : storedEntry (view store key) = some entry) (hget : (KeyValueStore.get key store).1.isOk) :
    (load key cache store).1 = some entry := by
  have hvalue := (h.get key store).1
  simp only [load, hmemory, KeyValueStore.load]
  cases hg : KeyValueStore.get key store with
  | mk result store' =>
    rw [hg] at hvalue hget
    cases result with
    | error e => cases hget
    | ok stored =>
      obtain rfl : stored = view store key := hvalue stored rfl
      simp only
      cases hv : view store key with
      | none => rw [hv] at hstored; cases hstored
      | some bytes =>
        rw [hv, storedEntry, Option.bind_some] at hstored
        cases hr : CacheEntry.read bytes with
        | error fault => rw [hr] at hstored; cases hstored
        | ok found =>
          rw [hr] at hstored
          cases hstored
          simp [hr]

/-! ### What comes after -/

/-- As long as no response leaves a new entry under the key, what is found there is what the store has kept. -/
theorem found_after (h : IsFallible view) (hmemory : cache.entries.get? key = none)
    (hstart : Text.startsWith key keyStart) {later : List Use} (hlater : LeaveNothing later key) {entry : CacheEntry} :
    (load key (runAll later cache store).1 (runAll later cache store).2).1 = some entry →
      ∃ kept, storedEntry (view store key) = some kept ∧ entry.tag = kept.tag ∧ entry.body = kept.body := by
  -- under the key every entry has one source, that of the kept entry; the other keys do not count
  let source (k tag body : String) : Prop :=
    k = key → ∃ kept, storedEntry (view store key) = some kept ∧ tag = kept.tag ∧ body = kept.body
  have hsourced : Sourced view source cache store := by
    refine ⟨fun k entry hentry hk => ?_, fun k _ entry hentry hk => ?_⟩
    · rw [hk, hmemory] at hentry
      cases hentry
    · exact ⟨entry, hk ▸ hentry, rfl, rfl⟩
  have hafter : Sourced view source (runAll later cache store).1 (runAll later cache store).2 := by
    refine hsourced.runAll h fun now s' response entry hmem hentry hk => ?_
    rw [hlater now s' response hmem hk] at hentry
    cases hentry
  exact fun hload => (sourced_load h hafter hstart).1 entry hload rfl

/-- After an invalidation, and until a response leaves a new entry, a signature has no entry and its requests are
unconditional if the store forgot its key or had nothing readable there. Otherwise the entry that the store has kept is
found by the next look-up that reads the store, and nothing else is ever found. -/
theorem invalidation_lasts (h : IsFallible view) {drop : Use} (hdrops : drop.Drops s) (before later : List Use)
    (hlater : LeaveNothing later (storageKey s)) (store : σ) :
    let start := runAll before {} store
    let after := drop.run start.1 start.2
    let final := runAll later after.1 after.2
    let stored := storedEntry (view start.2 (storageKey s))
    (storageKey s ∈ drop.removed start.2 ∨ stored = none →
      (tag? s final.1 final.2).1 = none ∧ ∀ request, (attach s request final.1 final.2).1 = request) ∧
    (storageKey s ∉ drop.removed start.2 → ∀ entry, stored = some entry →
      ((KeyValueStore.get (storageKey s) after.2).1.isOk → (tag? s after.1 after.2).1 = some entry.tag) ∧
        ∀ tag, (tag? s final.1 final.2).1 = some tag → tag = entry.tag) := by
  intro start after final stored
  have hmemory : after.1.entries.get? (storageKey s) = none := hdrops.entries_run start.1 start.2
  have hview : view after.2 (storageKey s) = _ := hdrops.view_run h start.1 start.2 (storageKey s)
  have hfound := @found_after _ _ view after.1 after.2 (storageKey s) h hmemory (startsWith_storageKey s) later hlater
  refine ⟨fun hgone => ?_, fun hkept entry hentry => ⟨fun hget => ?_, fun tag htag => ?_⟩⟩
  · have hnothing : storedEntry (view after.2 (storageKey s)) = none := by
      rw [hview]
      split
      · rfl
      · next hkept => exact hgone.resolve_left hkept
    have hnone : (load (storageKey s) final.1 final.2).1 = none := by
      refine Option.eq_none_iff_forall_ne_some.2 fun entry hentry => ?_
      obtain ⟨kept, hkept, -, -⟩ := hfound hentry
      cases hnothing.symm.trans hkept
    exact ⟨by simp [tag?, entry?, hnone], fun request => by simp [attach, tag?, entry?, hnone]⟩
  · rw [if_neg hkept] at hview
    have hload : (load (storageKey s) after.1 after.2).1 = some entry :=
      load_of_not_in_memory h hmemory (hview ▸ hentry) hget
    simp [tag?, entry?, hload]
  · rw [if_neg hkept] at hview
    obtain ⟨found, hload, rfl⟩ := Option.map_eq_some_iff.1 htag
    obtain ⟨kept, hkept, heq, -⟩ := hfound hload
    rw [hview] at hkept
    cases hkept.symm.trans hentry
    exact heq

/-- Such as one that was stored before this cache was built, after a 304 that finds nothing to replay. -/
theorem invalidation_lasts_unloaded :
    let s := Signature.bare .get "/offerings"
    let response : Response := ⟨⟨200⟩, some "abc", Text.utf8 "1"⟩
    let before : List Use := [.record ⟨0, 0⟩ s (.ok response), .reopen]
    let later : List Use := [.record ⟨60, 0⟩ s (.ok ⟨⟨304⟩, none, []⟩)]
    let store : FaultyStore MemoryStore := ⟨{}, [false, false, false, true]⟩
    let view (faulty : FaultyStore MemoryStore) (key : String) := faulty.store.entries.get? key
    let start := runAll before {} store
    let after := Use.run .clear start.1 start.2
    let final := runAll later after.1 after.2
    IsFallible view ∧ Use.Drops .clear s ∧ LeaveNothing later (storageKey s) ∧
      storageKey s ∈ Use.removed .clear start.2 ∧ (tag? s start.1 start.2).1 = some "abc" ∧
        (tag? s final.1 final.2).1 = none ∧ ∀ request, (attach s request final.1 final.2).1 = request := by
  intro s response before later store view start after final
  have hfallible : IsFallible view := FaultyStore.isFallible MemoryStore.isMap
  have hlater : LeaveNothing later (storageKey s) := by
    intro now s' response hmem _
    obtain ⟨-, -, hresponse⟩ := Use.record.inj (List.mem_singleton.1 hmem)
    cases hresponse
    rfl
  have hremoved : storageKey s ∈ Use.removed .clear start.2 := by decide +kernel
  obtain ⟨hgone, -⟩ := invalidation_lasts hfallible (.inr rfl) before later hlater store
  exact ⟨hfallible, .inr rfl, hlater, hremoved, by decide +kernel, hgone (.inl hremoved)⟩

/-- A removal that fails, or a listing that does, leaves the next request conditional. -/
theorem invalidation_undone :
    let s := Signature.bare .get "/offerings"
    let response : Response := ⟨⟨200⟩, some "abc", Text.utf8 "1"⟩
    let stored := runAll [.record ⟨0, 0⟩ s (.ok response)] {} (⟨{}, [false, true]⟩ : FaultyStore MemoryStore)
    let one := Use.run (.invalidate s) stored.1 stored.2
    let all := Use.run .clear stored.1 stored.2
    (tag? s one.1 one.2).1 = some "abc" ∧ (tag? s all.1 all.2).1 = some "abc" := by
  decide +kernel

end Entitle.ConditionalCache
