import Entitle.Proofs.KeyMap
import Entitle.Store.Memory

/-!
# Stores that keep their promises

`IsMap`: every operation succeeds and is that of a map from keys to bytes. A store in memory is one.
`IsMapOn`: the same on some keys, while the store is in a good state. `IsAtomic`: reading succeeds, and a write or
a removal that fails leaves the map as it was; a map whose writes and removals fail by a plan is one. `IsFallible`:
any operation may fail, and leaves the map as it was; a map whose operations fail by a plan is one.
-/

namespace Entitle

namespace KeyValueStore

/-- The operations succeed, and `view` is the map that they read and change. -/
structure IsMap {σ : Type} [KeyValueStore σ] (view : σ → String → Option Bytes) : Prop where
  get : ∀ key store, (get key store).1 = .ok (view store key) ∧ view (get key store).2 = view store
  set : ∀ key value store, (set key value store).1 = .ok () ∧
    ∀ k, view (set key value store).2 k = if key = k then some value else view store k
  remove : ∀ key store, (remove key store).1 = .ok () ∧
    ∀ k, view (remove key store).2 k = if key = k then none else view store k
  keysWithPrefix : ∀ start store, view (keysWithPrefix start store).2 = view store ∧
    ∃ keys, (keysWithPrefix start store).1 = .ok keys ∧
      ∀ k, k ∈ keys ↔ Text.startsWith k start ∧ view store k ≠ none

/-- On `keys`, while the store is `valid`, the operations succeed and keep it so, and `view` is the map that they
read and change. -/
structure IsMapOn {σ : Type} [KeyValueStore σ] (keys : List String) (valid : σ → Prop)
    (view : σ → String → Option Bytes) : Prop where
  get : ∀ {key store}, key ∈ keys → valid store → (get key store).1 = .ok (view store key) ∧
    valid (get key store).2 ∧ view (get key store).2 = view store
  set : ∀ {key store} value, key ∈ keys → valid store → (set key value store).1 = .ok () ∧
    valid (set key value store).2 ∧
      ∀ k ∈ keys, view (set key value store).2 k = if key = k then some value else view store k
  remove : ∀ {key store}, key ∈ keys → valid store → (remove key store).1 = .ok () ∧ valid (remove key store).2 ∧
    ∀ k ∈ keys, view (remove key store).2 k = if key = k then none else view store k
  keysWithPrefix : ∀ {store} start, valid store → valid (keysWithPrefix start store).2 ∧
    view (keysWithPrefix start store).2 = view store ∧
      ∃ listed, (keysWithPrefix start store).1 = .ok listed ∧ (∀ k ∈ listed, k ∈ keys) ∧
        ∀ k ∈ keys, k ∈ listed ↔ Text.startsWith k start ∧ view store k ≠ none

/-- Reading succeeds, and `view` is the map that is read; a write or a removal changes it or fails without a
trace. -/
structure IsAtomic {σ : Type} [KeyValueStore σ] (view : σ → String → Option Bytes) : Prop where
  get : ∀ key store, (get key store).1 = .ok (view store key) ∧ view (get key store).2 = view store
  set : ∀ key value store k, view (set key value store).2 k =
    if (set key value store).1.isOk ∧ key = k then some value else view store k
  remove : ∀ key store k, view (remove key store).2 k =
    if (remove key store).1.isOk ∧ key = k then none else view store k

/-- Any operation may fail, and then nothing has happened; one that succeeds is that of the map `view`. -/
structure IsFallible {σ : Type} [KeyValueStore σ] (view : σ → String → Option Bytes) : Prop where
  get : ∀ key store, (∀ value, (get key store).1 = .ok value → value = view store key) ∧
    view (get key store).2 = view store
  set : ∀ key value store k, view (set key value store).2 k =
    if (set key value store).1.isOk ∧ key = k then some value else view store k
  remove : ∀ key store k, view (remove key store).2 k =
    if (remove key store).1.isOk ∧ key = k then none else view store k
  keysWithPrefix : ∀ start store, view (keysWithPrefix start store).2 = view store ∧
    ∀ keys, (keysWithPrefix start store).1 = .ok keys → ∀ k, k ∈ keys ↔ Text.startsWith k start ∧ view store k ≠ none

variable {σ α : Type} [KeyValueStore σ] {view : σ → String → Option Bytes}

/-- `IsAtomic` for one key of one store. -/
structure IsAtomicAt (view : σ → String → Option Bytes) (key : String) (store : σ) : Prop where
  get : (get key store).1 = .ok (view store key) ∧ view (get key store).2 key = view store key
  set : ∀ value, view (set key value store).2 key =
    if (set key value store).1.isOk then some value else view store key
  remove : view (remove key store).2 key = if (remove key store).1.isOk then none else view store key

theorem IsAtomic.at (h : IsAtomic view) (key : String) (store : σ) : IsAtomicAt view key store where
  get := ⟨(h.get key store).1, congrFun (h.get key store).2 key⟩
  set value := by simpa using h.set key value store key
  remove := by simpa using h.remove key store key

theorem IsMapOn.at {keys : List String} {valid : σ → Prop} (h : IsMapOn keys valid view) {key : String} {store : σ}
    (hkey : key ∈ keys) (hvalid : valid store) : IsAtomicAt view key store where
  get := ⟨(h.get hkey hvalid).1, congrFun (h.get hkey hvalid).2.2 key⟩
  set value := by
    obtain ⟨hok, -, hview⟩ := h.set value hkey hvalid
    simp [hok, hview key hkey, Except.isOk, Except.toBool]
  remove := by
    obtain ⟨hok, -, hview⟩ := h.remove hkey hvalid
    simp [hok, hview key hkey, Except.isOk, Except.toBool]

theorem IsAtomicAt.load_fst {key : String} {store : σ} (h : IsAtomicAt view key store)
    (reader : Bytes → Except Json.Fault α) (value : α) :
    (load reader key store).1 = .ok (some value) ↔
      ((view store key).bind fun bytes => (reader bytes).toOption) = some value := by
  have hget := h.get.1
  unfold load
  cases hg : KeyValueStore.get key store with
  | mk result store' =>
    rw [hg] at hget
    subst hget
    cases view store key with
    | none => simp
    | some bytes => cases hr : reader bytes <;> simp [hr, Except.toOption]

namespace IsMap

theorem isAtomic (h : IsMap view) : IsAtomic view where
  get := h.get
  set key value store k := by
    obtain ⟨hok, hview⟩ := h.set key value store
    simp [hok, hview, Except.isOk, Except.toBool]
  remove key store k := by
    obtain ⟨hok, hview⟩ := h.remove key store
    simp [hok, hview, Except.isOk, Except.toBool]

theorem isFallible (h : IsMap view) : IsFallible view where
  get key store := by
    obtain ⟨hok, hview⟩ := h.get key store
    exact ⟨fun value hvalue => Except.ok.inj (hvalue.symm.trans hok), hview⟩
  set := h.isAtomic.set
  remove := h.isAtomic.remove
  keysWithPrefix start store := by
    obtain ⟨hview, listed, hlisted, hmem⟩ := h.keysWithPrefix start store
    refine ⟨hview, fun keys hkeys => ?_⟩
    obtain rfl : listed = keys := Except.ok.inj (hlisted.symm.trans hkeys)
    exact hmem

theorem load_snd (h : IsMap view) (reader : Bytes → Except Json.Fault α) (key : String) (store : σ) :
    view (load reader key store).2 = view store :=
  (h.get key store).2

theorem load_fst (h : IsMap view) (reader : Bytes → Except Json.Fault α) (key : String) (store : σ) (value : α) :
    (load reader key store).1 = .ok (some value) ↔
      ((view store key).bind fun bytes => (reader bytes).toOption) = some value :=
  (h.isAtomic.at key store).load_fst reader value

end IsMap

namespace IsFallible

theorem remove_cases (h : IsFallible view) (key : String) (store : σ) (k : String) :
    view (KeyValueStore.remove key store).2 k = view store k ∨ view (KeyValueStore.remove key store).2 k = none := by
  rw [h.remove]
  split
  · exact .inr rfl
  · exact .inl rfl

theorem load_snd (h : IsFallible view) (reader : Bytes → Except Json.Fault α) (key : String) (store : σ) :
    view (load reader key store).2 = view store :=
  (h.get key store).2

theorem load_fst (h : IsFallible view) {reader : Bytes → Except Json.Fault α} {key : String} {store : σ} {value : α}
    (hload : (load reader key store).1 = .ok (some value)) :
    ((view store key).bind fun bytes => (reader bytes).toOption) = some value := by
  have hget := (h.get key store).1
  unfold load at hload
  cases hg : KeyValueStore.get key store with
  | mk result store' =>
    rw [hg] at hload hget
    cases result with
    | error e => cases hload
    | ok stored =>
      obtain rfl := hget stored rfl
      cases hv : view store key with
      | none => rw [hv] at hload; cases hload
      | some bytes => cases hr : reader bytes <;> simp_all [Except.toOption]

end IsFallible

end KeyValueStore

theorem MemoryStore.isMap : KeyValueStore.IsMap fun (store : MemoryStore) key => store.entries.get? key where
  get _ _ := ⟨rfl, rfl⟩
  set key value store := ⟨rfl, fun k => KeyMap.get?_put store.entries key k value⟩
  remove key store := ⟨rfl, fun k => KeyMap.get?_erase store.entries key k⟩
  keysWithPrefix start store := ⟨rfl, _, rfl, fun k => by
    rw [List.mem_filter, KeyMap.mem_keys]
    exact And.comm⟩

/-! ### Failures by a plan -/

/-- A store whose writes and removals fail by a plan: each takes the first of it, and behind the plan none
fails. -/
structure UnreliableStore (σ : Type) where
  store : σ
  plan : List Bool := []

namespace UnreliableStore
variable {σ : Type}

/-- Makes the next write or removal, or fails it. -/
def attempt (key : String) (run : σ → Except StoreError Unit × σ) (unreliable : UnreliableStore σ) :
    Except StoreError Unit × UnreliableStore σ :=
  match unreliable.plan with
  | true :: plan => (.error (.io key .injected), ⟨unreliable.store, plan⟩)
  | plan =>
    let (result, store) := run unreliable.store
    (result, ⟨store, plan.drop 1⟩)

instance [KeyValueStore σ] : KeyValueStore (UnreliableStore σ) where
  get key unreliable :=
    let (result, store) := KeyValueStore.get key unreliable.store
    (result, { unreliable with store })
  set key value := attempt key (KeyValueStore.set key value)
  remove key := attempt key (KeyValueStore.remove key)
  keysWithPrefix start unreliable :=
    let (result, store) := KeyValueStore.keysWithPrefix start unreliable.store
    (result, { unreliable with store })

theorem isAtomic [KeyValueStore σ] {view : σ → String → Option Bytes} (h : KeyValueStore.IsMap view) :
    KeyValueStore.IsAtomic fun (unreliable : UnreliableStore σ) => view unreliable.store where
  get key unreliable := h.get key unreliable.store
  set key value unreliable k := by
    obtain ⟨hok, hview⟩ := h.set key value unreliable.store
    show view (attempt key _ unreliable).2.store k = if (attempt key _ unreliable).1.isOk ∧ key = k then _ else _
    unfold attempt
    split
    · simp [Except.isOk, Except.toBool]
    · simp [hok, hview, Except.isOk, Except.toBool]
  remove key unreliable k := by
    obtain ⟨hok, hview⟩ := h.remove key unreliable.store
    show view (attempt key _ unreliable).2.store k = if (attempt key _ unreliable).1.isOk ∧ key = k then _ else _
    unfold attempt
    split
    · simp [Except.isOk, Except.toBool]
    · simp [hok, hview, Except.isOk, Except.toBool]

end UnreliableStore

/-- A store whose operations, of any kind, fail by a plan: each takes the first of it, and behind the plan none
fails. -/
structure FaultyStore (σ : Type) where
  store : σ
  plan : List Bool := []

namespace FaultyStore
variable {σ α : Type}

/-- Makes the next operation, or fails it. -/
def attempt (key : String) (run : σ → Except StoreError α × σ) (faulty : FaultyStore σ) :
    Except StoreError α × FaultyStore σ :=
  if faulty.plan.headD false then (.error (.io key .injected), { faulty with plan := faulty.plan.tail })
  else
    let (result, store) := run faulty.store
    (result, ⟨store, faulty.plan.tail⟩)

instance [KeyValueStore σ] : KeyValueStore (FaultyStore σ) where
  get key := attempt key (KeyValueStore.get key)
  set key value := attempt key (KeyValueStore.set key value)
  remove key := attempt key (KeyValueStore.remove key)
  keysWithPrefix start := attempt start (KeyValueStore.keysWithPrefix start)

theorem attempt_cases (key : String) (run : σ → Except StoreError α × σ) (faulty : FaultyStore σ) :
    ((attempt key run faulty).1 = .error (.io key .injected) ∧ (attempt key run faulty).2.store = faulty.store) ∨
      ((attempt key run faulty).1 = (run faulty.store).1 ∧
        (attempt key run faulty).2.store = (run faulty.store).2) := by
  unfold attempt
  split
  · exact .inl ⟨rfl, rfl⟩
  · exact .inr ⟨rfl, rfl⟩

theorem isFallible [KeyValueStore σ] {view : σ → String → Option Bytes} (h : KeyValueStore.IsMap view) :
    KeyValueStore.IsFallible fun (faulty : FaultyStore σ) => view faulty.store where
  get key faulty := by
    obtain ⟨hok, hview⟩ := h.get key faulty.store
    rcases attempt_cases key (KeyValueStore.get key) faulty with ⟨hresult, hstore⟩ | ⟨hresult, hstore⟩
    · exact ⟨fun _ hvalue => (nomatch hresult.symm.trans hvalue), congrArg view hstore⟩
    · refine ⟨fun value hvalue => ?_, (congrArg view hstore).trans hview⟩
      exact Except.ok.inj (hvalue.symm.trans (hresult.trans hok))
  set key value faulty k := by
    obtain ⟨hok, hview⟩ := h.set key value faulty.store
    show view (attempt key _ faulty).2.store k = if (attempt key _ faulty).1.isOk ∧ key = k then _ else _
    rcases attempt_cases key (KeyValueStore.set key value) faulty with ⟨hresult, hstore⟩ | ⟨hresult, hstore⟩
    · simp [hresult, hstore, Except.isOk, Except.toBool]
    · simp [hresult, hstore, hok, hview, Except.isOk, Except.toBool]
  remove key faulty k := by
    obtain ⟨hok, hview⟩ := h.remove key faulty.store
    show view (attempt key _ faulty).2.store k = if (attempt key _ faulty).1.isOk ∧ key = k then _ else _
    rcases attempt_cases key (KeyValueStore.remove key) faulty with ⟨hresult, hstore⟩ | ⟨hresult, hstore⟩
    · simp [hresult, hstore, Except.isOk, Except.toBool]
    · simp [hresult, hstore, hok, hview, Except.isOk, Except.toBool]
  keysWithPrefix start faulty := by
    obtain ⟨hview, listed, hlisted, hmem⟩ := h.keysWithPrefix start faulty.store
    rcases attempt_cases start (KeyValueStore.keysWithPrefix start) faulty with ⟨hresult, hstore⟩ | ⟨hresult, hstore⟩
    · exact ⟨congrArg view hstore, fun _ hkeys => nomatch hresult.symm.trans hkeys⟩
    · refine ⟨(congrArg view hstore).trans hview, fun keys hkeys => ?_⟩
      obtain rfl : listed = keys := Except.ok.inj (hlisted.symm.trans (hresult.symm.trans hkeys))
      exact hmem

end FaultyStore

end Entitle
