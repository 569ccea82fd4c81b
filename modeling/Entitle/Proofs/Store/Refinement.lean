import Entitle.Proofs.Store.Files
import Mathlib.Logic.Function.Basic

/-!
# A directory in use

A store in a directory is used and opened again, in any order, on keys no two of which share a digest. It answers as a
map from keys to bytes does (`answered_run`), whatever else lies in the directory that is not named like an entry.
-/

namespace Entitle.FileStore

/-- One use of a store. -/
inductive Use where
  | set (key : String) (value : Bytes)
  | get (key : String)
  | remove (key : String)
  | keysWithPrefix (start : String)
  /-- The store is dropped, and opened again on its directory. -/
  | reopen
  deriving DecidableEq, Repr

/-- What a use answers. -/
inductive Answer where
  | done
  | value (stored : Option Bytes)
  | keys (listed : List String)
  deriving DecidableEq, Repr

namespace Use

/-- The keys that a use names. -/
def keys : Use → List String
  | .set key _ | .get key | .remove key => [key]
  | .keysWithPrefix _ | .reopen => []

/-- Makes a use. -/
def run (use : Use) (store : FileStore) : Except StoreError Answer × FileStore :=
  match use with
  | .set key value =>
    let (result, store) := store.set key value
    (result.map fun _ => .done, store)
  | .get key => ((store.get key).map .value, store)
  | .remove key =>
    let (result, store) := store.remove key
    (result.map fun _ => .done, store)
  | .keysWithPrefix start => ((store.keysWithPrefix start).map .keys, store)
  | .reopen => (.ok .done, openAt store.directory)

/-- What a use makes of a map. -/
def effect (use : Use) (map : String → Option Bytes) : String → Option Bytes :=
  match use with
  | .set key value => Function.update map key (some value)
  | .remove key => Function.update map key none
  | .get _ | .keysWithPrefix _ | .reopen => map

/-- The answer is that of a map; a listing tells the keys in any order, each once. -/
def IsAnswered (use : Use) (map : String → Option Bytes) (answer : Except StoreError Answer) : Prop :=
  match use with
  | .get key => answer = .ok (.value (map key))
  | .keysWithPrefix start => ∃ listed, answer = .ok (.keys listed) ∧ listed.Nodup ∧
      ∀ k, k ∈ listed ↔ Text.startsWith k start ∧ map k ≠ none
  | .set _ _ | .remove _ | .reopen => answer = .ok .done

end Use

/-- The store after a run of uses. -/
def runAll (uses : List Use) (store : FileStore) : FileStore :=
  uses.foldl (fun store use => (use.run store).2) store

/-- The map after a run of uses. -/
def effects (uses : List Use) (map : String → Option Bytes) : String → Option Bytes :=
  uses.foldl (fun map use => use.effect map) map

/-- The directory holds what is in the map. -/
structure Refines (keys : List String) (map : String → Option Bytes) (store : FileStore) : Prop where
  holds : Holds keys store
  stored : ∀ k ∈ keys, store.stored k = map k
  others : ∀ k ∉ keys, map k = none

variable {keys : List String} {map : String → Option Bytes} {store : FileStore} {key : String}

/-! ### One use -/

theorem update_others (h : ∀ k ∉ keys, map k = none) (hkey : key ∈ keys) (stored : Option Bytes) :
    ∀ k ∉ keys, Function.update map key stored k = none := by
  intro k hk
  have hne : k ≠ key := fun heq => hk (heq ▸ hkey)
  rw [Function.update_of_ne hne]
  exact h k hk

theorem Refines.set (h : Refines keys map store) (happart : Apart keys) (hkey : key ∈ keys) (value : Bytes) :
    (set key value store).1 = .ok () ∧ Refines keys (Function.update map key (some value)) (set key value store).2 := by
  obtain ⟨hok, hholds, hstored⟩ := set_spec happart hkey h.holds value
  refine ⟨hok, hholds, fun k hk => ?_, update_others h.others hkey _⟩
  rw [hstored k hk, Function.update_apply, h.stored k hk]
  simp only [eq_comm]

theorem Refines.remove (h : Refines keys map store) (happart : Apart keys) (hkey : key ∈ keys) :
    (remove key store).1 = .ok () ∧ Refines keys (Function.update map key none) (remove key store).2 := by
  obtain ⟨hok, hholds, hstored⟩ := remove_spec happart hkey h.holds
  refine ⟨hok, hholds, fun k hk => ?_, update_others h.others hkey _⟩
  rw [hstored k hk, Function.update_apply, h.stored k hk]
  simp only [eq_comm]

theorem Refines.listed (h : Refines keys map store) (happart : Apart keys) (start : String) :
    ∃ listed, store.keysWithPrefix start = .ok listed ∧ listed.Nodup ∧
      ∀ k, k ∈ listed ↔ Text.startsWith k start ∧ map k ≠ none := by
  obtain ⟨listed, hlisted, hnodup, hkeys, hmem⟩ := keysWithPrefix_spec happart h.holds start
  refine ⟨listed, hlisted, hnodup, fun k => ?_⟩
  by_cases hk : k ∈ keys
  · rw [hmem k hk, h.stored k hk]
  · have hnone : map k = none := h.others k hk
    have hnot : k ∉ listed := fun hin => hk (hkeys k hin)
    simp [hnone, hnot]

theorem Refines.reopen (h : Refines keys map store) : Refines keys map (openAt store.directory) := by
  obtain ⟨hholds, hstored⟩ := holds_openAt h.holds
  exact ⟨hholds, fun k hk => hstored ▸ h.stored k hk, h.others⟩

/-- A use answers as on the map, and leaves the directory with what it makes of the map. -/
theorem Refines.use (h : Refines keys map store) (happart : Apart keys) {use : Use} (hkeys : ∀ k ∈ use.keys, k ∈ keys) :
    use.IsAnswered map (use.run store).1 ∧ Refines keys (use.effect map) (use.run store).2 := by
  cases use with
  | set key value =>
    obtain ⟨hok, hnext⟩ := h.set happart (hkeys key (List.mem_singleton_self key)) value
    exact ⟨congrArg (Except.map fun _ => Answer.done) hok, hnext⟩
  | get key =>
    have hkey : key ∈ keys := hkeys key (List.mem_singleton_self key)
    have hget : store.get key = .ok (map key) := by rw [get_eq happart hkey h.holds, h.stored key hkey]
    exact ⟨congrArg (Except.map Answer.value) hget, h⟩
  | remove key =>
    obtain ⟨hok, hnext⟩ := h.remove happart (hkeys key (List.mem_singleton_self key))
    exact ⟨congrArg (Except.map fun _ => Answer.done) hok, hnext⟩
  | keysWithPrefix start =>
    obtain ⟨listed, hlisted, hnodup, hmem⟩ := h.listed happart start
    exact ⟨⟨listed, congrArg (Except.map Answer.keys) hlisted, hnodup, hmem⟩, h⟩
  | reopen => exact ⟨rfl, h.reopen⟩

/-! ### All uses -/

theorem Refines.runAll (h : Refines keys map store) (happart : Apart keys) {uses : List Use}
    (hkeys : ∀ k ∈ uses.flatMap Use.keys, k ∈ keys) : Refines keys (effects uses map) (runAll uses store) := by
  induction uses generalizing map store with
  | nil => exact h
  | cons use uses ih =>
    simp only [List.flatMap_cons, List.mem_append] at hkeys
    have hnext := (h.use happart fun k hk => hkeys k (.inl hk)).2
    exact ih hnext fun k hk => hkeys k (.inr hk)

theorem refines_openAt {directory : Directory} (hsorted : (directory.getD []).Sorted)
    (hstray : ∀ entry ∈ directory.getD [], IsStray keys entry.1 entry.2) :
    Refines keys (fun _ => none) (openAt directory) := by
  refine ⟨⟨_, rfl, hsorted, fun entry hentry => .inl (hstray entry hentry)⟩, fun k hk => ?_, fun _ _ => rfl⟩
  rw [stored_eq rfl]
  split
  · next content hfile => exact absurd (hstray _ (KeyMap.mem_of_get? hfile)) (not_isStray_fileName keys k _)
  · rfl

/-- A store is opened on a directory, missing or with strays in it, and used on keys that are apart. Whatever was done
before, a use succeeds, and answers as on the map that the uses before it make of the empty one. -/
theorem answered_run {directory : Directory} (hsorted : (directory.getD []).Sorted) (before : List Use) (use : Use)
    (happart : Apart ((before ++ [use]).flatMap Use.keys))
    (hstray : ∀ entry ∈ directory.getD [], IsStray ((before ++ [use]).flatMap Use.keys) entry.1 entry.2) :
    use.IsAnswered (effects before fun _ => none) (use.run (runAll before (openAt directory))).1 := by
  have hsplit : (before ++ [use]).flatMap Use.keys = before.flatMap Use.keys ++ use.keys := by simp
  have hbefore : ∀ k ∈ before.flatMap Use.keys, k ∈ (before ++ [use]).flatMap Use.keys := fun k hk =>
    hsplit ▸ List.mem_append_left _ hk
  have hrefines := (refines_openAt hsorted hstray).runAll happart hbefore
  exact (hrefines.use happart fun k hk => hsplit ▸ List.mem_append_right _ hk).1

/-- Such as a listing after writes, a second opening and a removal, beside what an unfinished write left behind. -/
theorem answered_run_leftover :
    let directory : Directory := some [(stagingName "etag.a" 0, .file [1, 2])]
    let before : List Use := [.set "etag.a" [1], .reopen, .set "etag.b" [3], .remove "etag.a"]
    let use : Use := .keysWithPrefix "etag."
    let keys := (before ++ [use]).flatMap Use.keys
    (directory.getD []).Sorted ∧ Apart keys ∧ (∀ entry ∈ directory.getD [], IsStray keys entry.1 entry.2) ∧
      use.IsAnswered (effects before fun _ => none) (use.run (runAll before (openAt directory))).1 ∧
      effects before (fun _ => none) "etag.b" = some [3] := by
  intro directory before use keys
  have hsorted : (directory.getD []).Sorted := List.pairwise_singleton _ _
  have happart : Apart keys := ⟨by decide +kernel, by decide +kernel⟩
  have hstray : ∀ entry ∈ directory.getD [], IsStray keys entry.1 entry.2 := by
    intro entry hentry
    obtain rfl := List.mem_singleton.1 hentry
    exact ⟨by decide +kernel, nofun⟩
  exact ⟨hsorted, happart, hstray, answered_run hsorted before use happart hstray, by decide⟩

end Entitle.FileStore
