import Entitle.Proofs.Ledger

/-!
# The life of a ledger

A ledger is opened, used and reopened over a store whose writes and removals may fail, each without a trace.
Main statement: at every time memory is what a fresh opening would load, and what the ledger lets through is what
was neither loaded nor acknowledged since the last reset (`History.faithful_run`).
-/

namespace Entitle.Ledger
open KeyValueStore

/-- One use of a ledger. -/
inductive Use where
  | mark (id : String)
  | markAll (ids : List String)
  | reset
  /-- The ledger is dropped and opened again. -/
  | reopen
  deriving DecidableEq, Repr

/-- What a use answers. -/
inductive Answer where
  | isNew (new : Bool)
  | count (new : Nat)
  | done
  deriving DecidableEq, Repr

variable {σ : Type} [KeyValueStore σ]

namespace Use

/-- The identifiers that a use marks. -/
def ids : Use → List String
  | .mark id => [id]
  | .markAll ids => ids
  | .reset | .reopen => []

/-- Makes a use. -/
def run (use : Use) (ledger : Ledger) (store : σ) : Except StoreError Answer × Ledger × σ :=
  match use with
  | .mark id =>
    let (result, ledger, store) := ledger.mark id store
    (result.map .isNew, ledger, store)
  | .markAll ids =>
    let (result, ledger, store) := ledger.markAll ids store
    (result.map .count, ledger, store)
  | .reset =>
    let (result, ledger, store) := ledger.reset store
    (result.map fun _ => .done, ledger, store)
  | .reopen =>
    let (ledger, store) := openFrom store
    (.ok .done, ledger, store)

/-- What the store answers to a use: a mark with a new identifier writes all of them, a reset removes the list, and
nothing else can fail. -/
def storeResult (use : Use) (ledger : Ledger) (store : σ) : Except StoreError Unit :=
  match use with
  | .mark id => writeResult [id] ledger store
  | .markAll ids => writeResult ids ledger store
  | .reset => (KeyValueStore.remove storageKey store).1
  | .reopen => .ok ()
where
  /-- What the store answers to a mark. -/
  writeResult (ids : List String) (ledger : Ledger) (store : σ) : Except StoreError Unit :=
    if ∀ id ∈ ids, id ∈ ledger.ids then .ok ()
    else (KeyValueStore.save storageKey (toJson (ids.foldl KeySet.insert ledger.ids)) store).1

/-- What a use that succeeds makes of the acknowledged identifiers. -/
def effect : Use → List String → List String
  | .reset, _ => []
  | use, acknowledged => acknowledged ++ use.ids

end Use

/-- A ledger, its store, and which identifiers are acknowledged: those loaded at first and those marked since, from
the last reset on. A use that fails does not count, and opening again acknowledges nothing. -/
structure History (σ : Type) where
  ledger : Ledger
  store : σ
  acknowledged : List String

namespace History

/-- A ledger is opened for the first time. -/
def start (store : σ) : History σ where
  ledger := (openFrom store).1
  store := (openFrom store).2
  acknowledged := loadedTexts store

/-- A ledger is used. -/
def next (history : History σ) (use : Use) : History σ :=
  match use.run history.ledger history.store with
  | (.ok _, ledger, store) => ⟨ledger, store, use.effect history.acknowledged⟩
  | (.error _, ledger, store) => ⟨ledger, store, history.acknowledged⟩

/-- Memory and store tell the same, and the ledger keeps its promises. -/
structure Faithful (history : History σ) : Prop where
  /-- A fresh opening loads what is in memory. -/
  reopened : (openFrom history.store).1 = history.ledger
  /-- What is let through is what is not acknowledged, in order and with its repeats. -/
  unsynced : ∀ ids, history.ledger.filterUnsynced ids = ids.filter (· ∉ history.acknowledged)
  /-- A use fails if the store fails, and with its error. -/
  failed : ∀ (use : Use) e, (use.run history.ledger history.store).1 = .error e ↔
    use.storeResult history.ledger history.store = .error e
  /-- A use that fails leaves memory as it was. -/
  unchanged : ∀ (use : Use) e, (use.run history.ledger history.store).1 = .error e →
    (history.next use).ledger = history.ledger
  /-- A mark counts the different identifiers that were not in memory. -/
  counted : ∀ ids new, (history.ledger.markAll ids history.store).1 = .ok new →
    new = (ids.dedup.filter (· ∉ history.ledger.ids)).length
  /-- A mark of one identifier says whether it was not in memory. -/
  isNew : ∀ id new, (history.ledger.mark id history.store).1 = .ok new → (new ↔ id ∉ history.ledger.ids)

variable {view : σ → String → Option Bytes} {ledger : Ledger} {store : σ} {history : History σ}

/-! ### One use -/

/-- What a use leaves in memory and in the store agrees. -/
theorem matches_run (h : IsAtomicAt view storageKey store) (hmatches : Matches view ledger store) (use : Use) :
    Matches view (use.run ledger store).2.1 (use.run ledger store).2.2 := by
  cases use with
  | mark id => exact matches_markAll h hmatches [id]
  | markAll ids => exact matches_markAll h hmatches ids
  | reset => exact matches_reset h hmatches
  | reopen => exact matches_openFrom h

theorem markAll_eq_error {ledger : Ledger} (hsorted : ledger.ids.Sorted) (ids : List String) (store : σ)
    (e : StoreError) :
    (ledger.markAll ids store).1 = .error e ↔ Use.storeResult.writeResult ids ledger store = .error e := by
  by_cases hknown : ∀ id ∈ ids, id ∈ ledger.ids
  · rw [markAll_of_known hknown, Use.storeResult.writeResult, if_pos hknown]
    simp
  · rw [markAll_of_new hknown, Use.storeResult.writeResult, if_neg hknown, markedText, addAll_fst hsorted]
    show _ ↔ (KeyValueStore.set storageKey (Text.utf8 (toJson (ids.foldl KeySet.insert ledger.ids)).render) store).1 = _
    cases KeyValueStore.set storageKey (Text.utf8 (toJson (ids.foldl KeySet.insert ledger.ids)).render) store with
    | mk result store' => cases result <;> simp

theorem markAll_of_error {ledger : Ledger} {ids : List String} {store : σ} {e : StoreError}
    (h : (ledger.markAll ids store).1 = .error e) : (ledger.markAll ids store).2.1 = ledger := by
  by_cases hknown : ∀ id ∈ ids, id ∈ ledger.ids
  · rw [markAll_of_known hknown]
  · rw [markAll_of_new hknown] at h ⊢
    cases hset : KeyValueStore.set storageKey (markedText ids ledger) store with
    | mk result store' =>
      rw [hset] at h
      cases result with
      | ok _ => cases h
      | error e' => rfl

theorem markAll_of_ok {ledger : Ledger} {ids : List String} {store : σ} {new : Nat}
    (h : (ledger.markAll ids store).1 = .ok new) : new = (ids.dedup.filter (· ∉ ledger.ids)).length := by
  by_cases hknown : ∀ id ∈ ids, id ∈ ledger.ids
  · rw [markAll_of_known hknown] at h
    cases h
    have hnone : ids.dedup.filter (· ∉ ledger.ids) = [] :=
      List.filter_eq_nil_iff.2 fun id hid => by simpa using hknown id (List.mem_dedup.1 hid)
    rw [hnone, List.length_nil]
  · rw [markAll_of_new hknown] at h
    cases hset : KeyValueStore.set storageKey (markedText ids ledger) store with
    | mk result store' =>
      rw [hset] at h
      cases result with
      | ok _ => cases h; rfl
      | error e => cases h

theorem reset_of_error {ledger : Ledger} {store : σ} {e : StoreError} (h : (ledger.reset store).1 = .error e) :
    (ledger.reset store).2.1 = ledger := by
  unfold reset at h ⊢
  cases hremove : KeyValueStore.remove storageKey store with
  | mk result store' =>
    rw [hremove] at h
    cases result with
    | ok _ => cases h
    | error e' => rfl

theorem reset_of_ok {ledger : Ledger} {store : σ} (h : (ledger.reset store).1 = .ok ()) :
    (ledger.reset store).2.1 = ⟨[]⟩ := by
  unfold reset at h ⊢
  cases hremove : KeyValueStore.remove storageKey store with
  | mk result store' =>
    rw [hremove] at h
    cases result with
    | ok _ => rfl
    | error e' => cases h

theorem map_eq_error {α β : Type} {f : α → β} {result : Except StoreError α} {e : StoreError} :
    result.map f = .error e ↔ result = .error e := by
  cases result <;> simp [Except.map]

theorem run_of_error {use : Use} {ledger : Ledger} {store : σ} {e : StoreError}
    (h : (use.run ledger store).1 = .error e) : (use.run ledger store).2.1 = ledger := by
  cases use with
  | mark id =>
    have hcount : (((ledger.markAll [id] store).1.map fun new => decide (0 < new)).map Answer.isNew) = .error e := h
    exact markAll_of_error (map_eq_error.1 (map_eq_error.1 hcount))
  | markAll ids => exact markAll_of_error (map_eq_error.1 h)
  | reset => exact reset_of_error (map_eq_error.1 h)
  | reopen => cases h

/-- What holds at every time: memory is the set of what is stored, and what is acknowledged is in it. -/
structure InStep (view : σ → String → Option Bytes) (history : History σ) : Prop where
  matched : Matches view history.ledger history.store
  acknowledged : ∀ id, id ∈ history.ledger.ids ↔ id ∈ history.acknowledged

theorem inStep_start (h : IsAtomic view) (store : σ) : InStep view (start store) where
  matched := matches_openFrom (h.at storageKey store)
  acknowledged id := by
    show id ∈ (openFrom store).1.ids ↔ _
    rw [openFrom_fst (h.at storageKey store), start, loadedTexts_eq (h.at storageKey store)]
    exact KeySet.mem_ofTexts

theorem mem_run_of_ok (h : IsAtomic view) (hstep : InStep view history) {use : Use} {answer : Answer}
    (hok : (use.run history.ledger history.store).1 = .ok answer) (id : String) :
    id ∈ (use.run history.ledger history.store).2.1.ids ↔ id ∈ use.effect history.acknowledged := by
  have hmark : ∀ ids, (∃ count, (history.ledger.markAll ids history.store).1 = .ok count) →
      (id ∈ (history.ledger.markAll ids history.store).2.1.ids ↔ id ∈ history.acknowledged ++ ids) := by
    intro ids hmarked
    rw [mem_markAll, List.mem_append, hstep.acknowledged, and_iff_left hmarked]
  cases use with
  | mark id' =>
    refine hmark [id'] ?_
    cases hresult : (history.ledger.markAll [id'] history.store).1 with
    | ok count => exact ⟨count, rfl⟩
    | error e => exact absurd hok (by simp [Use.run, mark, hresult, Except.map])
  | markAll ids =>
    refine hmark ids ?_
    cases hresult : (history.ledger.markAll ids history.store).1 with
    | ok count => exact ⟨count, rfl⟩
    | error e => exact absurd hok (by simp [Use.run, hresult, Except.map])
  | reset =>
    cases hresult : (history.ledger.reset history.store).1 with
    | ok _ =>
      show id ∈ (history.ledger.reset history.store).2.1.ids ↔ _
      rw [reset_of_ok hresult, Use.effect]
    | error e => exact absurd hok (by simp [Use.run, hresult, Except.map])
  | reopen =>
    show id ∈ (openFrom history.store).1.ids ↔ id ∈ history.acknowledged ++ []
    rw [openFrom_fst (h.at storageKey history.store), ← hstep.matched, List.append_nil]
    exact hstep.acknowledged id

/-! ### All uses -/

theorem inStep_next (h : IsAtomic view) (hstep : InStep view history) (use : Use) :
    InStep view (history.next use) := by
  have hmatches := matches_run (h.at storageKey history.store) hstep.matched use
  have herror := @run_of_error σ _ use history.ledger history.store
  have hok := fun answer => @mem_run_of_ok σ _ view history h hstep use answer
  unfold next
  cases hrun : use.run history.ledger history.store with
  | mk result rest =>
    obtain ⟨ledger, store⟩ := rest
    rw [hrun] at hmatches herror hok
    cases result with
    | ok answer => exact ⟨hmatches, hok answer rfl⟩
    | error e =>
      have hsame : ledger = history.ledger := herror rfl
      exact ⟨hmatches, hsame ▸ hstep.acknowledged⟩

theorem faithful_of_inStep (h : IsAtomic view) (hstep : InStep view history) : history.Faithful where
  reopened := (openFrom_fst (h.at storageKey history.store)).trans hstep.matched.symm
  unsynced ids := by
    refine List.filter_congr fun x _ => ?_
    simp only [isSynced, List.contains_eq_mem, ← hstep.acknowledged, decide_not, id]
  failed use e := by
    have hmark := fun ids => markAll_eq_error hstep.matched.sorted ids history.store e
    cases use with
    | mark id => exact (map_eq_error.trans map_eq_error).trans (hmark [id])
    | markAll ids => exact map_eq_error.trans (hmark ids)
    | reset =>
      refine map_eq_error.trans ?_
      show (history.ledger.reset history.store).1 = _ ↔ (KeyValueStore.remove storageKey history.store).1 = _
      unfold reset
      cases KeyValueStore.remove storageKey history.store with
      | mk result store => cases result <;> simp
    | reopen => simp [Use.run, Use.storeResult]
  unchanged use e herror := by
    have hsame := run_of_error herror
    unfold next
    cases hrun : use.run history.ledger history.store with
    | mk result rest =>
      rw [hrun] at herror hsame
      obtain rfl : result = .error e := herror
      exact hsame
  counted ids new := markAll_of_ok
  isNew id new hnew := by
    cases hresult : (history.ledger.markAll [id] history.store).1 with
    | error e => exact absurd hnew (by simp [mark, hresult, Except.map])
    | ok count =>
      have hcount := markAll_of_ok hresult
      have hpositive : new = decide (0 < count) := by
        simpa [mark, hresult, Except.map, eq_comm] using hnew
      by_cases hid : id ∈ history.ledger.ids <;> simp_all

/-- At every time of a ledger's life memory and store tell the same, and the ledger keeps its promises. -/
theorem faithful_run (h : IsAtomic view) (store : σ) (uses : List Use) :
    (uses.foldl next (start store)).Faithful := by
  suffices InStep view (uses.foldl next (start store)) from faithful_of_inStep h this
  suffices ∀ history, InStep view history → InStep view (uses.foldl next history) from
    this (start store) (inStep_start h store)
  induction uses with
  | nil => exact fun _ hstep => hstep
  | cons use uses ih => exact fun history hstep => ih _ (inStep_next h hstep use)

/-- Such as a list with a repeat, of which the first mark and the reset fail. -/
theorem faithful_run_unreliable :
    let store : UnreliableStore MemoryStore := ⟨⟨[(storageKey, Text.utf8 "[\"b\",\"a\",\"a\"]")]⟩, [true, false, true]⟩
    let history := [Use.mark "c", .markAll ["d", "c", "d", "a"], .reset, .reopen, .mark "e"].foldl next (start store)
    IsAtomic (fun (unreliable : UnreliableStore MemoryStore) key => unreliable.store.entries.get? key) ∧
      history.Faithful ∧ history.ledger.ids = ["a", "b", "c", "d", "e"] :=
  ⟨UnreliableStore.isAtomic MemoryStore.isMap, faithful_run (UnreliableStore.isAtomic MemoryStore.isMap) _ _,
    by decide +kernel⟩

end History

end Entitle.Ledger
