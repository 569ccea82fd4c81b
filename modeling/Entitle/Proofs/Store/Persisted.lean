import Entitle.Ledger
import Entitle.Proofs.Cache.Entry
import Entitle.Proofs.Store.Files

/-!
# Saved values

A store that retains what is put under a key gives back the entries of the cache and the identifiers of the ledger that
are saved there (`KeyValueStore.saved_read_back`). A store in memory retains everything; one in a directory does unless
the key is too long for an entry or a directory stands where one of the two files of a write goes
(`FileStore.retains_iff`). Nothing is asked of digests here: a write replaces the file of whatever key had the name.
-/

namespace Entitle

namespace KeyValueStore

variable {σ α : Type} [KeyValueStore σ] {key : String} {store : σ}

/-- Whatever is put under the key is accepted, and is found there afterwards. -/
structure Retains (key : String) (store : σ) : Prop where
  set : ∀ value, (KeyValueStore.set key value store).1 = .ok ()
  get : ∀ value, (KeyValueStore.get key (KeyValueStore.set key value store).2).1 = .ok (some value)

theorem IsMap.retains {view : σ → String → Option Bytes} (h : IsMap view) (key : String) (store : σ) :
    Retains key store where
  set value := (h.set key value store).1
  get value := by rw [(h.get key _).1, (h.set key value store).2 key, if_pos rfl]

theorem load_of_get {reader : Bytes → Except Json.Fault α} {bytes : Bytes} (h : (get key store).1 = .ok (some bytes))
    (value : α) : (load reader key store).1 = .ok (some value) ↔ reader bytes = .ok value := by
  simp only [load, h]
  cases reader bytes with
  | ok read => simp only [Except.ok.injEq, Option.some.injEq]
  | error fault => exact ⟨nofun, nofun⟩

/-- What is loaded after a save is what the reader makes of the text that was saved. -/
theorem Retains.load_save (h : Retains key store) (reader : Bytes → Except Json.Fault α) (json : Json) :
    (save key json store).1 = .ok () ∧ ∀ value, (load reader key (save key json store).2).1 = .ok (some value) ↔
      reader (Text.utf8 json.render) = .ok value :=
  ⟨h.set _, load_of_get (h.get _)⟩

end KeyValueStore

namespace FileStore

variable {key : String} {value : Bytes} {store : FileStore}

theorem get_of_set_eq_ok (h : (set key value store).1 = .ok ()) :
    (set key value store).2.get key = .ok (some value) := by
  unfold set at h ⊢
  split
  · next directory hwrite =>
    obtain ⟨content, nodes, hcontent, -, -, -, rfl⟩ := write_eq_ok.1 hwrite
    simp only [get, KeyMap.get?_put, if_true, valueOf, Entry.decode?_encode? hcontent]
  · next cause hwrite =>
    rw [hwrite] at h
    cases h

theorem retains_iff : KeyValueStore.Retains key store ↔ (Text.utf8 key).length < Entry.keyLimit ∧
    ∃ nodes, store.directory = some nodes ∧ nodes.get? (stagingName key store.writes) ≠ some .directory ∧
      nodes.get? (fileName key) ≠ some .directory := by
  constructor
  · intro h
    have hset : (set key [] store).1 = .ok () := h.set []
    unfold set at hset
    split at hset
    · next directory hwrite =>
      obtain ⟨content, nodes, hcontent, hdirectory, hstaging, hfile, -⟩ := write_eq_ok.1 hwrite
      exact ⟨(Entry.encode?_eq_some_iff.1 hcontent).1, nodes, hdirectory, hstaging, hfile⟩
    · cases hset
  · rintro ⟨hshort, nodes, hdirectory, hstaging, hfile⟩
    have hset (value : Bytes) : (set key value store).1 = .ok () := by
      obtain ⟨content, hcontent⟩ := Option.isSome_iff_exists.1 ((Entry.isSome_encode? key value).2 hshort)
      have hwrite := write_eq_ok.2 ⟨content, nodes, hcontent, hdirectory, hstaging, hfile, rfl⟩
      simp only [set, hwrite]
    exact ⟨hset, fun value => get_of_set_eq_ok (hset value)⟩

end FileStore

namespace KeyValueStore

variable {σ : Type} [KeyValueStore σ] {key : String} {store : σ}

/-- Under a key that the store retains, every entry whose time a clock can show and every list of identifiers is saved,
and loaded as it was, the body of an entry byte for byte. An entry with any other time is not loaded as it was. -/
theorem saved_read_back (h : Retains key store) :
    (∀ e : CacheEntry, (save key e.toJson store).1 = .ok () ∧
      ((load CacheEntry.read key (save key e.toJson store).2).1 = .ok (some e) ↔ e.lastRefreshed.IsProper)) ∧
    ∀ ids : List String, (save key (Ledger.toJson ids) store).1 = .ok () ∧
      (load Json.readTexts key (save key (Ledger.toJson ids) store).2).1 = .ok (some ids) := by
  refine ⟨fun e => ?_, fun ids => ?_⟩
  · obtain ⟨hsaved, hloaded⟩ := h.load_save CacheEntry.read e.toJson
    exact ⟨hsaved, (hloaded e).trans CacheEntry.read_toJson_iff⟩
  · obtain ⟨hsaved, hloaded⟩ := h.load_save Json.readTexts (Ledger.toJson ids)
    exact ⟨hsaved, (hloaded ids).2 (Json.readTexts_render ids)⟩

/-- Such as an entry from the first minute that a clock can show, in a leap second, with quotes, backslashes and control
characters in its body, in a fresh directory; and identifiers out of order, one twice and one empty, in memory. -/
theorem saved_read_back_firstMinute :
    let e : CacheEntry := ⟨"\"W/\\\"", "\x7b\"a\":\"\\u0001\t\x00é😀\"\x7d", ⟨-8334601228741, 1999999999⟩⟩
    let ids := ["b", "a\n", "", "b"]
    let files := FileStore.openAt none
    let memory : MemoryStore := ⟨[("ids", [0x5B])]⟩
    e.lastRefreshed.IsProper ∧ Retains "etag.GET /offerings" files ∧ Retains "ids" memory ∧
      (load CacheEntry.read "etag.GET /offerings" (save "etag.GET /offerings" e.toJson files).2).1 = .ok (some e) ∧
      (load Json.readTexts "ids" (save "ids" (Ledger.toJson ids) memory).2).1 = .ok (some ids) := by
  intro e ids files memory
  have hproper : e.lastRefreshed.IsProper := by decide
  have hfiles : Retains "etag.GET /offerings" files := FileStore.retains_iff.2 ⟨by decide, [], rfl, nofun, nofun⟩
  have hmemory : Retains "ids" memory := MemoryStore.isMap.retains "ids" memory
  exact ⟨hproper, hfiles, hmemory, ((saved_read_back hfiles).1 e).2.2 hproper, ((saved_read_back hmemory).2 ids).2⟩

end KeyValueStore

end Entitle
