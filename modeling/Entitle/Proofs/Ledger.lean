import Entitle.Ledger
import Entitle.Proofs.Json.RoundTrip
import Entitle.Proofs.Store
import Mathlib.Data.List.Dedup
import Mathlib.Data.String.Basic

/-!
# Marks

What a mark and a reset make of the identifiers, whatever the store does: a mark whose write succeeds adds what
was marked and nothing else, and one whose write fails takes out again what it added. Where a write or a removal
that fails leaves no trace, memory stays the set of what is stored (`Ledger.Matches`).
-/

namespace Entitle

/-! ### Sets as lists in order -/

namespace KeySet

/-- In increasing order, each once. -/
def Sorted (s : KeySet) : Prop :=
  s.Pairwise (· < ·)

theorem Sorted.insert {s : KeySet} (h : s.Sorted) (key : String) : (s.insert key).Sorted := by
  induction s with
  | nil => exact List.pairwise_singleton _ _
  | cons k rest ih =>
    obtain ⟨hk, hrest⟩ := List.pairwise_cons.1 h
    simp only [KeySet.insert]
    split
    · exact h
    · next hne =>
      split
      · next hlt =>
        refine List.pairwise_cons.2 ⟨fun x hx => ?_, h⟩
        rcases List.mem_cons.1 hx with rfl | hx
        · exact hlt
        · exact lt_trans hlt (hk x hx)
      · next hnlt =>
        refine List.pairwise_cons.2 ⟨fun x hx => ?_, ih hrest⟩
        rcases mem_insert.1 hx with rfl | hx
        · exact lt_of_le_of_ne (not_lt.1 hnlt) hne
        · exact hk x hx

theorem Sorted.insert_of_mem {s : KeySet} {key : String} (h : s.Sorted) (hkey : key ∈ s) : s.insert key = s := by
  induction s with
  | nil => cases hkey
  | cons k rest ih =>
    obtain ⟨hk, hrest⟩ := List.pairwise_cons.1 h
    rcases List.mem_cons.1 hkey with rfl | hkey
    · simp only [KeySet.insert, if_true]
    · have hlt := hk key hkey
      simp only [KeySet.insert, if_neg (ne_of_lt hlt), if_neg (not_lt_of_gt hlt), ih hrest hkey]

theorem insert_of_forall_lt {s : KeySet} {key : String} (h : ∀ k ∈ s, k < key) : s.insert key = s ++ [key] := by
  induction s with
  | nil => rfl
  | cons k rest ih =>
    have hk := h k List.mem_cons_self
    simp only [insert, if_neg (ne_of_lt hk), if_neg (not_lt_of_gt hk), List.cons_append,
      ih fun x hx => h x (List.mem_cons_of_mem k hx)]

theorem mem_foldl_insert {texts : List String} {s : KeySet} {id : String} :
    id ∈ texts.foldl insert s ↔ id ∈ s ∨ id ∈ texts := by
  induction texts generalizing s with
  | nil => simp
  | cons x rest ih => rw [List.foldl_cons, ih, mem_insert, List.mem_cons, or_comm (a := id = x), or_assoc]

theorem mem_ofTexts {texts : List String} {id : String} : id ∈ ofTexts texts ↔ id ∈ texts := by
  rw [ofTexts, mem_foldl_insert]
  simp

theorem Sorted.foldl_insert {s : KeySet} (h : s.Sorted) (texts : List String) :
    (texts.foldl KeySet.insert s).Sorted := by
  induction texts generalizing s with
  | nil => exact h
  | cons x rest ih => exact ih (h.insert x)

theorem sorted_ofTexts (texts : List String) : (ofTexts texts).Sorted :=
  Sorted.foldl_insert List.Pairwise.nil texts

theorem Sorted.ofTexts_eq {s : KeySet} (h : s.Sorted) : ofTexts s = s := by
  suffices ∀ front back : List String, (front ++ back).Pairwise (· < ·) →
      back.foldl KeySet.insert front = front ++ back from this [] s h
  intro front back
  induction back generalizing front with
  | nil => simp
  | cons x rest ih =>
    intro h
    have hfront : ∀ k ∈ front, k < x := fun k hk => (List.pairwise_append.1 h).2.2 k hk x List.mem_cons_self
    -- what comes next is behind all that is there, so it goes to the end
    rw [List.foldl_cons, insert_of_forall_lt hfront, ih _ (by simpa using h)]
    simp

theorem foldl_erase_erase (texts : List String) (s : KeySet) (key : String) :
    texts.foldl erase (s.erase key) = (texts.foldl erase s).erase key := by
  induction texts generalizing s with
  | nil => rfl
  | cons x rest ih =>
    rw [List.foldl_cons, List.foldl_cons, ← ih]
    congr 1
    simp only [erase, List.filter_filter]
    exact List.filter_congr fun _ _ => Bool.and_comm _ _

end KeySet

namespace Ledger
open KeyValueStore

variable {σ : Type} [KeyValueStore σ]

/-! ### Adding and taking back -/

theorem addAll_fst {known : KeySet} (h : known.Sorted) (ids : List String) :
    (addAll ids known).1 = ids.foldl KeySet.insert known := by
  induction ids generalizing known with
  | nil => rfl
  | cons x rest ih =>
    simp only [addAll, List.foldl_cons]
    split
    · next hx => rw [h.insert_of_mem (by simpa using hx), ih h]
    · exact ih (h.insert x)

theorem mem_addAll {ids : List String} {known : KeySet} {id : String} :
    id ∈ (addAll ids known).1 ↔ id ∈ known ∨ id ∈ ids := by
  induction ids generalizing known with
  | nil => simp [addAll]
  | cons x rest ih =>
    simp only [addAll]
    split
    · next hx =>
      have hx : x ∈ known := by simpa using hx
      rw [ih, List.mem_cons]
      constructor
      · rintro (h | h)
        · exact .inl h
        · exact .inr (.inr h)
      · rintro (h | rfl | h)
        · exact .inl h
        · exact .inl hx
        · exact .inr h
    · rw [ih, KeySet.mem_insert, List.mem_cons, or_comm (a := id = x), or_assoc]

theorem mem_added {ids : List String} {known : KeySet} {id : String} :
    id ∈ (addAll ids known).2 ↔ id ∈ ids ∧ id ∉ known := by
  induction ids generalizing known with
  | nil => simp [addAll]
  | cons x rest ih =>
    simp only [addAll]
    split
    · next hx =>
      have hx : x ∈ known := by simpa using hx
      rw [ih, List.mem_cons]
      constructor
      · rintro ⟨hid, hnew⟩
        exact ⟨.inr hid, hnew⟩
      · rintro ⟨rfl | hid, hnew⟩
        · exact absurd hx hnew
        · exact ⟨hid, hnew⟩
    · next hx =>
      have hx : x ∉ known := by simpa using hx
      rw [List.mem_cons, ih, KeySet.mem_insert, List.mem_cons]
      constructor
      · rintro (rfl | ⟨hid, hnew⟩)
        · exact ⟨.inl rfl, hx⟩
        · exact ⟨.inr hid, fun h => hnew (.inr h)⟩
      · rintro ⟨rfl | hid, hnew⟩
        · exact .inl rfl
        · by_cases heq : id = x
          · exact .inl heq
          · exact .inr ⟨hid, fun h => h.elim heq hnew⟩

theorem nodup_added (ids : List String) (known : KeySet) : (addAll ids known).2.Nodup := by
  induction ids generalizing known with
  | nil => exact List.nodup_nil
  | cons x rest ih =>
    simp only [addAll]
    split
    · exact ih known
    · exact List.nodup_cons.2 ⟨fun h => (mem_added.1 h).2 (KeySet.mem_insert.2 (.inl rfl)), ih _⟩

/-- As many are added as there are different identifiers that were not known. -/
theorem length_added (ids : List String) (known : KeySet) :
    (addAll ids known).2.length = (ids.dedup.filter (· ∉ known)).length := by
  refine ((List.perm_ext_iff_of_nodup (nodup_added ids known) (ids.nodup_dedup.filter _)).2 fun id => ?_).length_eq
  rw [mem_added, List.mem_filter, List.mem_dedup, decide_eq_true_eq]

theorem isEmpty_added {ids : List String} {known : KeySet} :
    (addAll ids known).2.isEmpty ↔ ∀ id ∈ ids, id ∈ known := by
  simp only [List.isEmpty_iff, List.eq_nil_iff_forall_not_mem, mem_added, not_and, not_not]

theorem foldl_erase_added (ids : List String) (known : KeySet) :
    (addAll ids known).2.foldl KeySet.erase (addAll ids known).1 = known := by
  induction ids generalizing known with
  | nil => rfl
  | cons x rest ih =>
    simp only [addAll]
    split
    · exact ih known
    · next hx =>
      rw [List.foldl_cons, KeySet.foldl_erase_erase, ih]
      exact KeySet.erase_insert (by simpa using hx)

/-! ### Marks and resets -/

/-- What a mark writes. -/
def markedText (ids : List String) (ledger : Ledger) : Bytes :=
  Text.utf8 (toJson (addAll ids ledger.ids).1).render

theorem markAll_of_known {ids : List String} {ledger : Ledger} (h : ∀ id ∈ ids, id ∈ ledger.ids) (store : σ) :
    ledger.markAll ids store = (.ok 0, ledger, store) := by
  have hnone := isEmpty_added.2 h
  have hsame := foldl_erase_added ids ledger.ids
  rw [List.isEmpty_iff.1 hnone, List.foldl_nil] at hsame
  simp only [markAll, hnone, if_true, hsame]

/-- A mark with a new identifier: what was new is counted if the write succeeds, and out again if it fails. -/
theorem markAll_of_new {ids : List String} {ledger : Ledger} (h : ¬ ∀ id ∈ ids, id ∈ ledger.ids) (store : σ) :
    ledger.markAll ids store =
      match KeyValueStore.set storageKey (markedText ids ledger) store with
      | (.ok _, store) => (.ok (ids.dedup.filter (· ∉ ledger.ids)).length, ⟨(addAll ids ledger.ids).1⟩, store)
      | (.error e, store) => (.error e, ledger, store) := by
  have hsome : ¬ (addAll ids ledger.ids).2.isEmpty := mt isEmpty_added.1 h
  simp only [markAll, hsome, KeyValueStore.save, length_added, foldl_erase_added, markedText]
  cases KeyValueStore.set storageKey (Text.utf8 (toJson (addAll ids ledger.ids).1).render) store with
  | mk result store' => cases result <;> rfl

theorem mem_markAll (ids : List String) (ledger : Ledger) (store : σ) (id : String) :
    id ∈ (ledger.markAll ids store).2.1.ids ↔
      id ∈ ledger.ids ∨ id ∈ ids ∧ ∃ count, (ledger.markAll ids store).1 = .ok count := by
  by_cases h : ∀ id ∈ ids, id ∈ ledger.ids
  · rw [markAll_of_known h]
    refine ⟨.inl, ?_⟩
    rintro (hid | ⟨hid, -⟩)
    · exact hid
    · exact h id hid
  · rw [markAll_of_new h]
    cases KeyValueStore.set storageKey (markedText ids ledger) store with
    | mk result store' =>
      cases result with
      | ok _ => simp [mem_addAll]
      | error e => simp

theorem mem_of_mem_reset {ledger : Ledger} {store : σ} {id : String} (h : id ∈ (ledger.reset store).2.1.ids) :
    id ∈ ledger.ids := by
  unfold reset at h
  cases hr : KeyValueStore.remove storageKey store with
  | mk result store' =>
    rw [hr] at h
    cases result with
    | ok _ => cases h
    | error e => exact h

theorem mem_filterUnsynced {ledger : Ledger} {ids : List String} {id : String} :
    id ∈ ledger.filterUnsynced ids ↔ id ∈ ids ∧ id ∉ ledger.ids := by
  simp [filterUnsynced, filterUnsyncedBy, isSynced]

/-! ### Memory and store -/

/-- The texts that an opening finds. -/
def loadedTexts (store : σ) : List String :=
  match (KeyValueStore.load Json.readTexts storageKey store).1 with
  | .ok (some texts) => texts
  | _ => []

/-- The texts in stored bytes. -/
def loaded (stored : Option Bytes) : List String :=
  (stored.bind fun bytes => (Json.readTexts bytes).toOption).getD []

variable {view : σ → String → Option Bytes} {ledger : Ledger} {store : σ}

theorem loadedTexts_eq (h : IsAtomicAt view storageKey store) : loadedTexts store = loaded (view store storageKey) := by
  have hload := h.load_fst Json.readTexts
  unfold loaded loadedTexts
  cases hstored : (view store storageKey).bind fun bytes => (Json.readTexts bytes).toOption with
  | some texts => rw [(hload texts).2 hstored]; rfl
  | none =>
    split
    · next texts htexts => rw [(hload texts).1 htexts] at hstored; cases hstored
    · rfl

theorem openFrom_fst (h : IsAtomicAt view storageKey store) :
    (openFrom store).1 = ⟨KeySet.ofTexts (loaded (view store storageKey))⟩ := by
  rw [← loadedTexts_eq h, openFrom, loadedTexts]
  cases KeyValueStore.load Json.readTexts storageKey store with
  | mk result store' =>
    match result with
    | .ok (some texts) => rfl
    | .ok none => rfl
    | .error e => rfl

theorem openFrom_snd (store : σ) : (openFrom store).2 = (KeyValueStore.get storageKey store).2 := by
  show _ = (KeyValueStore.load Json.readTexts storageKey store).2
  rw [openFrom]
  cases KeyValueStore.load Json.readTexts storageKey store with
  | mk result store' =>
    match result with
    | .ok (some texts) => rfl
    | .ok none => rfl
    | .error e => rfl

/-- Memory is the set of what is stored. -/
def Matches (view : σ → String → Option Bytes) (ledger : Ledger) (store : σ) : Prop :=
  ledger = ⟨KeySet.ofTexts (loaded (view store storageKey))⟩

omit [KeyValueStore σ] in
theorem Matches.sorted (h : Matches view ledger store) : ledger.ids.Sorted := by
  rw [h]
  exact KeySet.sorted_ofTexts _

theorem matches_openFrom (h : IsAtomicAt view storageKey store) :
    Matches view (openFrom store).1 (openFrom store).2 := by
  rw [Matches, openFrom_fst h, openFrom_snd, h.get.2]

/-- Memory is what is stored once a set has been written. -/
theorem loaded_toJson {ids : KeySet} (h : ids.Sorted) :
    KeySet.ofTexts (loaded (some (Text.utf8 (toJson ids).render))) = ids := by
  simp only [loaded, toJson, Option.bind_some, Json.readTexts_render, Except.toOption, Option.getD_some, h.ofTexts_eq]

theorem matches_markAll (h : IsAtomicAt view storageKey store) (hmatches : Matches view ledger store)
    (ids : List String) :
    Matches view (ledger.markAll ids store).2.1 (ledger.markAll ids store).2.2 := by
  by_cases hknown : ∀ id ∈ ids, id ∈ ledger.ids
  · rw [markAll_of_known hknown]
    exact hmatches
  · have hview := h.set (markedText ids ledger)
    rw [markAll_of_new hknown]
    unfold Matches
    cases hset : KeyValueStore.set storageKey (markedText ids ledger) store with
    | mk result store' =>
      rw [hset] at hview
      cases result with
      | ok _ =>
        have hsorted : (addAll ids ledger.ids).1.Sorted := by
          rw [addAll_fst hmatches.sorted]
          exact hmatches.sorted.foldl_insert ids
        have hwritten : view store' storageKey = some (markedText ids ledger) := hview
        simp only [hwritten, markedText, loaded_toJson hsorted]
      | error e =>
        have hsame : view store' storageKey = view store storageKey := hview
        simp only [hsame]
        exact hmatches

theorem matches_reset (h : IsAtomicAt view storageKey store) (hmatches : Matches view ledger store) :
    Matches view (ledger.reset store).2.1 (ledger.reset store).2.2 := by
  have hview := h.remove
  unfold Matches reset
  cases hremove : KeyValueStore.remove storageKey store with
  | mk result store' =>
    rw [hremove] at hview
    cases result with
    | ok _ =>
      have hgone : view store' storageKey = none := hview
      simp only [hgone]
      rfl
    | error e =>
      have hsame : view store' storageKey = view store storageKey := hview
      simp only [hsame]
      exact hmatches

/-! ### On a map -/

section IsMapOn
variable {keys : List String} {valid : σ → Prop}

theorem openFrom_of_isMapOn (h : IsMapOn keys valid view) (hkey : storageKey ∈ keys) (hvalid : valid store) :
    valid (openFrom store).2 ∧ view (openFrom store).2 = view store := by
  rw [openFrom_snd]
  exact (h.get hkey hvalid).2

theorem markAll_of_isMapOn (h : IsMapOn keys valid view) (hkey : storageKey ∈ keys) (hvalid : valid store)
    (ids : List String) (ledger : Ledger) :
    (ledger.markAll ids store).1 = .ok (addAll ids ledger.ids).2.length ∧
      (ledger.markAll ids store).2.1 = ⟨(addAll ids ledger.ids).1⟩ ∧
      valid (ledger.markAll ids store).2.2 ∧
      ∀ k ∈ keys, k ≠ storageKey → view (ledger.markAll ids store).2.2 k = view store k := by
  simp only [markAll]
  split
  · next hnone =>
    rw [List.isEmpty_iff.1 hnone]
    exact ⟨rfl, rfl, hvalid, fun _ _ _ => rfl⟩
  · obtain ⟨hok, hvalid', hview⟩ := h.set (Text.utf8 (toJson (addAll ids ledger.ids).1).render) hkey hvalid
    have hframe : ∀ k ∈ keys, k ≠ storageKey → view (KeyValueStore.set storageKey
        (Text.utf8 (toJson (addAll ids ledger.ids).1).render) store).2 k = view store k := fun k hk hne => by
      rw [hview k hk, if_neg (Ne.symm hne)]
    simp only [KeyValueStore.save, hok]
    exact ⟨trivial, trivial, hvalid', hframe⟩

theorem reset_of_isMapOn (h : IsMapOn keys valid view) (hkey : storageKey ∈ keys) (hvalid : valid store)
    (ledger : Ledger) :
    (ledger.reset store).1 = .ok () ∧ (ledger.reset store).2.1 = ⟨[]⟩ ∧ valid (ledger.reset store).2.2 ∧
      ∀ k ∈ keys, k ≠ storageKey → view (ledger.reset store).2.2 k = view store k := by
  obtain ⟨hok, hvalid', hview⟩ := h.remove hkey hvalid
  have hframe : ∀ k ∈ keys, k ≠ storageKey → view (KeyValueStore.remove storageKey store).2 k = view store k :=
    fun k hk hne => by rw [hview k hk, if_neg (Ne.symm hne)]
  simp only [reset, hok]
  exact ⟨trivial, trivial, hvalid', hframe⟩

end IsMapOn

end Ledger

end Entitle
