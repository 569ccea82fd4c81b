import Entitle.Proofs.Client.Knowledge
import Entitle.Proofs.Store.Files

/-!
# Restarts

A client on a directory can be dropped and built anew between any two actions: neither a request nor an answer changes
(`Session.reports_restarts`). On a map a run depends on what its client goes by, and a directory is a map on the keys
that the run uses, as long as no two of them share a digest.
-/

namespace Entitle

open Flight

/-- Builds a client anew on the directory of a store. -/
def Client.reopen (caching : Bool) (limits : Limits) (store : FileStore) : Client FileStore :=
  openOn (FileStore.openAt store.directory) caching limits

namespace Session

/-- Nothing has happened on an empty directory. -/
def onEmpty (caching : Bool) (limits : Limits) (outcomes : List Outcome) : Session FileStore where
  client := .openOn (FileStore.openAt (some [])) caching limits
  outcomes

/-- The storage keys that a run uses. -/
def keysOf (actions : List Action) : List String :=
  Ledger.storageKey :: actions.flatMap Action.keys

variable (caching : Bool) (limits : Limits) (outcomes : List Outcome) {actions : List Action}

theorem knows_onEmpty {keys : List String} (happart : FileStore.Apart keys) (hkey : Ledger.storageKey ∈ keys) :
    (onEmpty caching limits outcomes).Knows keys (FileStore.Holds keys) FileStore.stored caching { outcomes } := by
  refine ⟨⟨_, Idle.openOn _ caching limits outcomes⟩, rfl, ?_, rfl⟩
  exact Client.has_openOn (FileStore.isMapOn happart) hkey (FileStore.holds_openAt_none keys) (fun _ _ _ => rfl) rfl
    caching limits

/-- A run on an empty directory, restarts or not, does what can be done on what its client goes by. -/
theorem reports_onEmpty (happart : FileStore.Apart (keysOf actions)) (htimely : ∀ action ∈ actions, action.IsTimely) :
    (onEmpty caching limits outcomes).reports (Client.reopen caching limits) actions =
      Knowledge.reports caching actions { outcomes } := by
  have hkey : Ledger.storageKey ∈ keysOf actions := List.mem_cons_self
  have hrebuild : ∀ store, FileStore.Holds (keysOf actions) store → ∃ store', FileStore.Holds (keysOf actions) store' ∧
      store'.stored = store.stored ∧ Client.reopen caching limits store = Client.openOn store' caching limits :=
    fun store hvalid => ⟨_, (FileStore.holds_openAt hvalid).1, (FileStore.holds_openAt hvalid).2, rfl⟩
  exact (knows_onEmpty caching limits outcomes happart hkey).reports (FileStore.isMapOn happart) hkey hrebuild
    (fun action haction key hkey => List.mem_cons_of_mem _ (List.mem_flatMap_of_mem haction hkey)) htimely

/-- Restarts change neither a request nor an answer, if the keys of the run have different digests and are short
enough for a file (`FileStore.Apart`). -/
theorem reports_restarts (happart : FileStore.Apart (keysOf actions)) (htimely : ∀ action ∈ actions, action.IsTimely) :
    (onEmpty caching limits outcomes).reports (Client.reopen caching limits) actions =
      (onEmpty caching limits outcomes).reports (Client.reopen caching limits) (actions.filter (!·.isRestart)) := by
  have hsub : ∀ key ∈ keysOf (actions.filter (!·.isRestart)), key ∈ keysOf actions := by
    simp only [keysOf, List.mem_cons, List.mem_flatMap, List.mem_filter]
    rintro key (rfl | ⟨action, ⟨haction, -⟩, hkey⟩)
    · exact .inl rfl
    · exact .inr ⟨action, haction, hkey⟩
  have htimely' : ∀ action ∈ actions.filter (!·.isRestart), action.IsTimely := fun action haction =>
    htimely action (List.mem_of_mem_filter haction)
  rw [reports_onEmpty caching limits outcomes happart htimely,
    reports_onEmpty caching limits outcomes (happart.mono hsub) htimely', Knowledge.reports_filter]

/-- The tag of an entry from before a restart is sent after it. -/
theorem reports_restarts_tag :
    let now : Instant := ⟨1767225600, 0⟩
    let actions : List Action := [.call now (.customerInfo "u" .immediate) 0, .mark "t", .restart,
      .call now (.customerInfo "u" .default) 7, .mark "t", .restart]
    let outcomes : List Outcome := [.ok ⟨⟨200⟩, some "v", Text.utf8 "1"⟩, .ok ⟨⟨304⟩, none, []⟩]
    let run (actions : List Action) : List Report := (onEmpty true {} outcomes).reports (Client.reopen true {}) actions
    FileStore.Apart (keysOf actions) ∧ (∀ action ∈ actions, action.IsTimely) ∧
      run actions = run (actions.filter (!·.isRestart)) ∧
      (run actions).map (fun r => r.sent.map Request.tag?) = [[none], [], [some "v"], []] := by
  intro now actions outcomes run
  have happart : FileStore.Apart (keysOf actions) := ⟨by decide +kernel, by decide +kernel⟩
  have htimely : ∀ action ∈ actions, action.IsTimely := by
    have hnow : now.IsProper := by decide
    simp only [actions, List.forall_mem_cons]
    exact ⟨hnow, trivial, trivial, hnow, trivial, trivial, nofun⟩
  refine ⟨happart, htimely, reports_restarts true {} outcomes happart htimely, ?_⟩
  have hrun : run actions = Knowledge.reports true actions { outcomes } :=
    reports_onEmpty true {} outcomes happart htimely
  rw [hrun]
  decide +kernel

end Session

end Entitle
