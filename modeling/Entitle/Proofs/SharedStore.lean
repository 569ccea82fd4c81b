import Entitle.Proofs.Cache.Origin
import Entitle.Proofs.Client.Knowledge
import Entitle.Proofs.Ledger.History

/-!
# A cache and a ledger on one store

Each of the two has keys of its own: those of the cache start with `ConditionalCache.keyStart`, the ledger has one. What
a use reads and writes is under the keys of its own component (`Use.view_run`, `Use.alike_run`, for either). Main
statement: `SharedStore.components_apart`. Neither touches a key of the other, so each answers as if the other were not
there.
-/

namespace Entitle

open KeyValueStore

variable {σ : Type} {view : σ → String → Option Bytes}

/-- Two stores hold the same under the keys of `p`. -/
def AgreeOn (view : σ → String → Option Bytes) (p : String → Prop) (store store' : σ) : Prop :=
  ∀ key, p key → view store key = view store' key

variable [KeyValueStore σ] {store store' : σ}

theorem KeyValueStore.IsMap.load_congr (h : IsMap view) {α : Type} (reader : Bytes → Except Json.Fault α) {key : String}
    (hsame : view store key = view store' key) : (load reader key store).1 = (load reader key store').1 := by
  have hget : (KeyValueStore.get key store).1 = (KeyValueStore.get key store').1 := by
    rw [(h.get key store).1, (h.get key store').1, hsame]
  simp only [load, hget]

/-! ### The cache -/

namespace ConditionalCache

/-- The keys of the cache. -/
def IsKey (key : String) : Prop :=
  Text.startsWith key keyStart

theorem isKey_storageKey (s : Signature) : IsKey (storageKey s) :=
  startsWith_storageKey s

/-- What a use answers. -/
inductive Answer where
  | entry (entry : Option CacheEntry)
  | tag (tag : Option String)
  | request (request : Request)
  | outcome (outcome : Outcome)
  | done
  deriving DecidableEq

/-- What a use answers on a cache and its store. -/
def Use.answer (use : Use) (cache : ConditionalCache) (store : σ) : Answer :=
  match use with
  | .entry s => .entry (cache.entry? s store).1
  | .tag s => .tag (tag? s cache store).1
  | .attach s request => .request (cache.attach s request store).1
  | .record now s outcome => .outcome (cache.record now s outcome store).1
  | .invalidate _ | .clear | .reopen => .done

/-- Two results of one use: the same answer, the same memory, and stores that agree on the keys of the cache. -/
structure Alike {α : Type} (view : σ → String → Option Bytes) (r r' : α × ConditionalCache × σ) : Prop where
  answer : r.1 = r'.1
  memory : r.2.1 = r'.2.1
  agree : AgreeOn view IsKey r.2.2 r'.2.2

variable {cache : ConditionalCache} {key : String}

theorem alike_load (h : IsMap view) (hagree : AgreeOn view IsKey store store') (hkey : IsKey key)
    (cache : ConditionalCache) : Alike view (load key cache store) (load key cache store') := by
  have hresult := h.load_congr CacheEntry.read (hagree key hkey)
  refine ⟨?_, ?_, fun k hk => by rw [load_view h, load_view h]; exact hagree k hk⟩
  all_goals
    unfold load
    cases cache.entries.get? key with
    | some entry => rfl
    | none =>
      simp only [hresult]
      split <;> rfl

/-! #### The other keys -/

theorem view_settleNotModified (h : IsMap view) (now : Instant) (s : Signature) (response : Response)
    (cache : ConditionalCache) (store : σ) {k : String} (hk : ¬ IsKey k) :
    view (settleNotModified now s response cache store).2.2 k = view store k := by
  have hne : storageKey s ≠ k := fun heq => hk (heq ▸ isKey_storageKey s)
  simp only [settleNotModified]
  cases (load (storageKey s) cache store).1 with
  | some entry => exact (view_save h ..).trans ((if_neg hne).trans (congrFun (load_view h ..) k))
  | none => exact (view_invalidate h ..).trans ((if_neg hne).trans (congrFun (load_view h ..) k))

theorem view_record (h : IsMap view) (now : Instant) (s : Signature) (outcome : Outcome) (cache : ConditionalCache)
    (store : σ) {k : String} (hk : ¬ IsKey k) : view (record now s outcome cache store).2.2 k = view store k := by
  have hne : storageKey s ≠ k := fun heq => hk (heq ▸ isKey_storageKey s)
  cases outcome with
  | error e => rfl
  | ok response =>
    simp only [record]
    split
    · exact view_settleNotModified h now s response cache store hk
    · cases entryOf? now response with
      | some entry => exact (view_save h ..).trans (if_neg hne)
      | none => rfl

theorem view_attach (h : IsMap view) (s : Signature) (request : Request) (cache : ConditionalCache) (store : σ) :
    view (attach s request cache store).2.2 = view store := by
  simp only [attach, tag?, entry?]
  cases (load (storageKey s) cache store).1 <;> exact load_view h ..

theorem Use.view_run (h : IsMap view) (use : Use) (cache : ConditionalCache) (store : σ) {k : String} (hk : ¬ IsKey k) :
    view (use.run cache store).2 k = view store k := by
  cases use with
  | entry s | tag s => exact congrFun (load_view h (storageKey s) cache store) k
  | attach s request => exact congrFun (view_attach h s request cache store) k
  | record now s outcome => exact view_record h now s outcome cache store hk
  | invalidate s =>
    have hne : storageKey s ≠ k := fun heq => hk (heq ▸ isKey_storageKey s)
    exact (view_invalidate h ..).trans (if_neg hne)
  | clear => exact (view_clear h cache store k).trans (if_neg hk)
  | reopen => rfl

/-! #### The own keys -/

theorem alike_save (h : IsMap view) {α : Type} (answer : α) (hagree : AgreeOn view IsKey store store') (key : String)
    (entry : CacheEntry) (cache : ConditionalCache) :
    Alike view (answer, save key entry cache store) (answer, save key entry cache store') :=
  ⟨rfl, rfl, fun k hk => by simp only [view_save h, hagree k hk]⟩

theorem alike_invalidate (h : IsMap view) {α : Type} (answer : α) (hagree : AgreeOn view IsKey store store')
    (s : Signature) (cache : ConditionalCache) :
    Alike view (answer, invalidate s cache store) (answer, invalidate s cache store') :=
  ⟨rfl, rfl, fun k hk => by simp only [view_invalidate h, hagree k hk]⟩

theorem alike_attach (h : IsMap view) (hagree : AgreeOn view IsKey store store') (s : Signature) (request : Request)
    (cache : ConditionalCache) : Alike view (attach s request cache store) (attach s request cache store') := by
  have hload := alike_load h hagree (isKey_storageKey s) cache
  simp only [attach, tag?, entry?, hload.answer]
  cases (load (storageKey s) cache store').1 <;> exact ⟨rfl, hload.memory, hload.agree⟩

theorem alike_settleNotModified (h : IsMap view) (hagree : AgreeOn view IsKey store store') (now : Instant)
    (s : Signature) (response : Response) (cache : ConditionalCache) :
    Alike view (settleNotModified now s response cache store) (settleNotModified now s response cache store') := by
  have hload := alike_load h hagree (isKey_storageKey s) cache
  simp only [settleNotModified, hload.answer, hload.memory]
  cases (load (storageKey s) cache store').1 with
  | some entry => exact alike_save h _ hload.agree _ _ _
  | none => exact alike_invalidate h _ hload.agree s _

theorem alike_record (h : IsMap view) (hagree : AgreeOn view IsKey store store') (now : Instant) (s : Signature)
    (outcome : Outcome) (cache : ConditionalCache) :
    Alike view (record now s outcome cache store) (record now s outcome cache store') := by
  cases outcome with
  | error e => exact ⟨rfl, rfl, hagree⟩
  | ok response =>
    simp only [record]
    split
    · have hsettled := alike_settleNotModified h hagree now s response cache
      exact ⟨congrArg Except.ok hsettled.answer, hsettled.memory, hsettled.agree⟩
    · cases entryOf? now response with
      | some entry => exact alike_save h _ hagree _ _ _
      | none => exact ⟨rfl, rfl, hagree⟩

/-- A use answers by memory and by what is under the keys of the cache, and leaves there what follows from these. -/
theorem Use.alike_run (h : IsMap view) (hagree : AgreeOn view IsKey store store') (use : Use)
    (cache : ConditionalCache) :
    Alike view (use.answer cache store, use.run cache store) (use.answer cache store', use.run cache store') := by
  have hload (s : Signature) := alike_load h hagree (isKey_storageKey s) cache
  cases use with
  | entry s => exact ⟨congrArg Answer.entry (hload s).answer, (hload s).memory, (hload s).agree⟩
  | tag s =>
    have htag : (tag? s cache store).1 = (tag? s cache store').1 := congrArg (·.map (·.tag)) (hload s).answer
    exact ⟨congrArg Answer.tag htag, (hload s).memory, (hload s).agree⟩
  | attach s request =>
    have hattach := alike_attach h hagree s request cache
    exact ⟨congrArg Answer.request hattach.answer, hattach.memory, hattach.agree⟩
  | record now s outcome =>
    have hrecord := alike_record h hagree now s outcome cache
    exact ⟨congrArg Answer.outcome hrecord.answer, hrecord.memory, hrecord.agree⟩
  | invalidate s => exact alike_invalidate h _ hagree s cache
  | clear =>
    refine ⟨rfl, (clear_fst h cache store).trans (clear_fst h cache store').symm, fun k hk => ?_⟩
    show view (cache.clear store).2 k = view (cache.clear store').2 k
    rw [view_clear h, view_clear h, hagree k hk]
  | reopen => exact ⟨rfl, rfl, hagree⟩

end ConditionalCache

/-! ### The ledger -/

namespace Ledger

theorem markAll_on_map (h : IsMap view) {ids : List String} {ledger : Ledger} (hnew : ¬ ∀ id ∈ ids, id ∈ ledger.ids)
    (store : σ) :
    ∃ store', ledger.markAll ids store =
        (.ok (ids.dedup.filter (· ∉ ledger.ids)).length, ⟨(addAll ids ledger.ids).1⟩, store') ∧
      ∀ k, view store' k = if storageKey = k then some (markedText ids ledger) else view store k := by
  obtain ⟨hok, hview⟩ := h.set storageKey (markedText ids ledger) store
  rw [markAll_of_new hnew]
  cases hset : KeyValueStore.set storageKey (markedText ids ledger) store with
  | mk result store' =>
    rw [hset] at hok hview
    cases hok
    exact ⟨store', rfl, hview⟩

theorem reset_on_map (h : IsMap view) (ledger : Ledger) (store : σ) :
    ∃ store', ledger.reset store = (.ok (), ⟨[]⟩, store') ∧
      ∀ k, view store' k = if storageKey = k then none else view store k := by
  obtain ⟨hok, hview⟩ := h.remove storageKey store
  unfold reset
  cases hremove : KeyValueStore.remove storageKey store with
  | mk result store' =>
    rw [hremove] at hok hview
    cases hok
    exact ⟨store', rfl, hview⟩

theorem view_openFrom (h : IsMap view) (store : σ) : view (openFrom store).2 = view store := by
  rw [openFrom_snd, (h.get storageKey store).2]

theorem Use.view_run (h : IsMap view) (use : Use) (ledger : Ledger) (store : σ) {k : String} (hk : k ≠ storageKey) :
    view (use.run ledger store).2.2 k = view store k := by
  have hmark : ∀ ids, view (ledger.markAll ids store).2.2 k = view store k := fun ids => by
    by_cases hknown : ∀ id ∈ ids, id ∈ ledger.ids
    · rw [markAll_of_known hknown]
    · obtain ⟨store', hmarked, hview⟩ := markAll_on_map h hknown store
      rw [hmarked]
      exact (hview k).trans (if_neg (Ne.symm hk))
  cases use with
  | mark id => exact hmark [id]
  | markAll ids => exact hmark ids
  | reset =>
    obtain ⟨store', hreset, hview⟩ := reset_on_map h ledger store
    show view (ledger.reset store).2.2 k = view store k
    rw [hreset]
    exact (hview k).trans (if_neg (Ne.symm hk))
  | reopen => exact congrFun (view_openFrom h store) k

/-- Two results of one use: the same answer, the same memory, and stores that agree on the key of the ledger. -/
structure Alike {α : Type} (view : σ → String → Option Bytes) (r r' : α × Ledger × σ) : Prop where
  answer : r.1 = r'.1
  memory : r.2.1 = r'.2.1
  agree : AgreeOn view (· = storageKey) r.2.2 r'.2.2

theorem alike_markAll (h : IsMap view) (hagree : AgreeOn view (· = storageKey) store store') (ids : List String)
    (ledger : Ledger) : Alike view (ledger.markAll ids store) (ledger.markAll ids store') := by
  by_cases hknown : ∀ id ∈ ids, id ∈ ledger.ids
  · rw [markAll_of_known hknown, markAll_of_known hknown]
    exact ⟨rfl, rfl, hagree⟩
  · obtain ⟨after, hmarked, hview⟩ := markAll_on_map h hknown store
    obtain ⟨after', hmarked', hview'⟩ := markAll_on_map h hknown store'
    rw [hmarked, hmarked']
    exact ⟨rfl, rfl, fun k hk => by rw [hview, hview', hagree k hk]⟩

theorem alike_reset (h : IsMap view) (hagree : AgreeOn view (· = storageKey) store store') (ledger : Ledger) :
    Alike view (ledger.reset store) (ledger.reset store') := by
  obtain ⟨after, hreset, hview⟩ := reset_on_map h ledger store
  obtain ⟨after', hreset', hview'⟩ := reset_on_map h ledger store'
  rw [hreset, hreset']
  exact ⟨rfl, rfl, fun k hk => by rw [hview, hview', hagree k hk]⟩

theorem Use.alike_run (h : IsMap view) (hagree : AgreeOn view (· = storageKey) store store') (use : Use)
    (ledger : Ledger) : Alike view (use.run ledger store) (use.run ledger store') := by
  cases use with
  | mark id =>
    have hmark := alike_markAll h hagree [id] ledger
    exact ⟨congrArg (fun count => (count.map fun new => decide (0 < new)).map Answer.isNew) hmark.answer, hmark.memory,
      hmark.agree⟩
  | markAll ids =>
    have hmark := alike_markAll h hagree ids ledger
    exact ⟨congrArg (·.map Answer.count) hmark.answer, hmark.memory, hmark.agree⟩
  | reset =>
    have hreset := alike_reset h hagree ledger
    exact ⟨congrArg (·.map fun _ => Answer.done) hreset.answer, hreset.memory, hreset.agree⟩
  | reopen =>
    refine ⟨rfl, ?_, fun k hk => ?_⟩
    · show (openFrom store).1 = (openFrom store').1
      rw [openFrom_fst (h.isAtomic.at storageKey store), openFrom_fst (h.isAtomic.at storageKey store'),
        hagree storageKey rfl]
    · show view (openFrom store).2 k = view (openFrom store').2 k
      rw [view_openFrom h, view_openFrom h, hagree k hk]

end Ledger

/-! ### Both on one store -/

/-- A cache and a ledger that share a store. -/
structure SharedStore (σ : Type) where
  cache : ConditionalCache := {}
  ledger : Ledger := {}
  store : σ

namespace SharedStore

/-- One use of one of the two. -/
inductive Use where
  | cache (use : ConditionalCache.Use)
  | ledger (use : Ledger.Use)

/-- What a use answers; with the answer of the ledger comes all that it has in memory. -/
inductive Answer where
  | cache (answer : ConditionalCache.Answer)
  | ledger (answer : Except StoreError Ledger.Answer) (ids : KeySet)
  deriving DecidableEq

/-- The use is one of the cache. -/
def Use.isCache : Use → Bool
  | .cache _ => true
  | .ledger _ => false

/-- The answer is one of the cache. -/
def Answer.isCache : Answer → Bool
  | .cache _ => true
  | .ledger _ _ => false

/-- A use of the cache or of the ledger leaves the other component as it is; both write to the one store. -/
def step (shared : SharedStore σ) : Use → Answer × SharedStore σ
  | .cache use =>
    let (cache, store) := use.run shared.cache shared.store
    (.cache (use.answer shared.cache shared.store), { shared with cache, store })
  | .ledger use =>
    let (answer, ledger, store) := use.run shared.ledger shared.store
    (.ledger answer ledger.ids, { shared with ledger, store })

/-- What a run of uses answers. -/
def answers : List Use → SharedStore σ → List Answer
  | [], _ => []
  | use :: uses, shared => (shared.step use).1 :: answers uses (shared.step use).2

variable {shared shared' : SharedStore σ}

/-- The cache sees the same in both. -/
structure SameForCache (view : σ → String → Option Bytes) (shared shared' : SharedStore σ) : Prop where
  memory : shared.cache = shared'.cache
  agree : AgreeOn view ConditionalCache.IsKey shared.store shared'.store

/-- The ledger sees the same in both. -/
structure SameForLedger (view : σ → String → Option Bytes) (shared shared' : SharedStore σ) : Prop where
  memory : shared.ledger = shared'.ledger
  agree : AgreeOn view (· = Ledger.storageKey) shared.store shared'.store

theorem ne_storageKey_of_isKey {key : String} (hkey : ConditionalCache.IsKey key) : key ≠ Ledger.storageKey :=
  fun heq => not_startsWith_ledger (heq ▸ hkey)

theorem not_isKey_storageKey : ¬ ConditionalCache.IsKey Ledger.storageKey :=
  fun hkey => ne_storageKey_of_isKey hkey rfl

theorem SameForCache.step_cache (h : IsMap view) (hsame : SameForCache view shared shared')
    (use : ConditionalCache.Use) :
    (shared.step (.cache use)).1 = (shared'.step (.cache use)).1 ∧
      SameForCache view (shared.step (.cache use)).2 (shared'.step (.cache use)).2 := by
  obtain ⟨cache, ledger, store⟩ := shared
  obtain ⟨cache', ledger', store'⟩ := shared'
  obtain rfl : cache = cache' := hsame.memory
  have halike := use.alike_run h hsame.agree cache
  exact ⟨congrArg Answer.cache halike.answer, halike.memory, halike.agree⟩

theorem SameForCache.step_ledger (h : IsMap view) (hsame : SameForCache view shared shared') (use : Ledger.Use) :
    SameForCache view (shared.step (.ledger use)).2 shared' :=
  ⟨hsame.memory, fun key hkey =>
    (use.view_run h shared.ledger shared.store (ne_storageKey_of_isKey hkey)).trans (hsame.agree key hkey)⟩

theorem SameForLedger.step_ledger (h : IsMap view) (hsame : SameForLedger view shared shared') (use : Ledger.Use) :
    (shared.step (.ledger use)).1 = (shared'.step (.ledger use)).1 ∧
      SameForLedger view (shared.step (.ledger use)).2 (shared'.step (.ledger use)).2 := by
  obtain ⟨cache, ledger, store⟩ := shared
  obtain ⟨cache', ledger', store'⟩ := shared'
  obtain rfl : ledger = ledger' := hsame.memory
  have halike := use.alike_run h hsame.agree ledger
  refine ⟨?_, halike.memory, halike.agree⟩
  show Answer.ledger (use.run ledger store).1 (use.run ledger store).2.1.ids = _
  rw [halike.answer, halike.memory]
  rfl

theorem SameForLedger.step_cache (h : IsMap view) (hsame : SameForLedger view shared shared')
    (use : ConditionalCache.Use) : SameForLedger view (shared.step (.cache use)).2 shared' :=
  ⟨hsame.memory, fun key hkey =>
    (use.view_run h shared.cache shared.store (hkey ▸ not_isKey_storageKey)).trans (hsame.agree key hkey)⟩

/-- The cache answers as it does without the uses of the ledger. -/
theorem SameForCache.answers (h : IsMap view) (hsame : SameForCache view shared shared') (uses : List Use) :
    (answers uses shared).filter (·.isCache) = answers (uses.filter (·.isCache)) shared' := by
  induction uses generalizing shared shared' with
  | nil => rfl
  | cons use uses ih =>
    cases use with
    | cache use =>
      obtain ⟨hanswer, hnext⟩ := hsame.step_cache h use
      exact congrArg₂ List.cons hanswer (ih hnext)
    | ledger use => exact ih (hsame.step_ledger h use)

/-- The ledger answers as it does without the uses of the cache. -/
theorem SameForLedger.answers (h : IsMap view) (hsame : SameForLedger view shared shared') (uses : List Use) :
    (answers uses shared).filter (!·.isCache) = answers (uses.filter (!·.isCache)) shared' := by
  induction uses generalizing shared shared' with
  | nil => rfl
  | cons use uses ih =>
    cases use with
    | cache use => exact ih (hsame.step_cache h use)
    | ledger use =>
      obtain ⟨hanswer, hnext⟩ := hsame.step_ledger h use
      exact congrArg₂ List.cons hanswer (ih hnext)

/-- A cache and a ledger on one store that is a map, with anything in memory and in the store. No use of the cache
changes what is stored under a key that does not start with the cache's prefix, no use of the ledger changes what is
stored under another key than the ledger's, and in any run of uses each of the two answers as in the run that has its
own uses only. -/
theorem components_apart (h : IsMap view) (shared : SharedStore σ) :
    (∀ use key, ¬ Text.startsWith key ConditionalCache.keyStart →
      view (shared.step (.cache use)).2.store key = view shared.store key) ∧
    (∀ use key, key ≠ Ledger.storageKey → view (shared.step (.ledger use)).2.store key = view shared.store key) ∧
    ∀ uses, (answers uses shared).filter (·.isCache) = answers (uses.filter (·.isCache)) shared ∧
      (answers uses shared).filter (!·.isCache) = answers (uses.filter (!·.isCache)) shared := by
  have hcache : SameForCache view shared shared := ⟨rfl, fun _ _ => rfl⟩
  have hledger : SameForLedger view shared shared := ⟨rfl, fun _ _ => rfl⟩
  refine ⟨fun use key hkey => ?_, fun use key hkey => ?_, fun uses => ⟨hcache.answers h uses, hledger.answers h uses⟩⟩
  · exact use.view_run h shared.cache shared.store hkey
  · exact use.view_run h shared.ledger shared.store hkey

/-- Such as uses that alternate on a store with a key of neither: a clear of the cache leaves the ledger what it had,
and a reset of the ledger leaves the entries. -/
theorem components_apart_alternating :
    let s := Signature.bare .get "/offerings"
    let store : MemoryStore := ⟨[(Ledger.storageKey, Text.utf8 "[\"a\"]"), ("other", [0])]⟩
    let shared : SharedStore MemoryStore := { store }
    let view (store : MemoryStore) (key : String) := store.entries.get? key
    let record := ConditionalCache.Use.record ⟨0, 0⟩ s (.ok ⟨⟨200⟩, some "v1", Text.utf8 "1"⟩)
    let uses : List Use := [.cache record, .ledger .reopen, .cache .clear, .ledger (.mark "b"), .cache record,
      .ledger .reset, .cache (.tag s), .ledger .reopen]
    IsMap view ∧
      (answers uses shared).filter (·.isCache) = answers (uses.filter (·.isCache)) shared ∧
      answers (uses.filter (·.isCache)) shared =
        [.cache (.outcome (.ok ⟨⟨200⟩, some "v1", Text.utf8 "1"⟩)), .cache .done,
          .cache (.outcome (.ok ⟨⟨200⟩, some "v1", Text.utf8 "1"⟩)), .cache (.tag (some "v1"))] ∧
      (answers uses shared).filter (!·.isCache) = answers (uses.filter (!·.isCache)) shared ∧
      answers (uses.filter (!·.isCache)) shared =
        [.ledger (.ok .done) ["a"], .ledger (.ok (.isNew true)) ["a", "b"], .ledger (.ok .done) [],
          .ledger (.ok .done) []] := by
  intro s store shared view record uses
  obtain ⟨-, -, happart⟩ := components_apart MemoryStore.isMap shared
  exact ⟨MemoryStore.isMap, (happart uses).1, by decide +kernel, (happart uses).2, by decide +kernel⟩

end SharedStore

end Entitle
