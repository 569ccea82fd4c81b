import Entitle.Json.Stored
import Entitle.Store.Basic

/-!
The transactions that the server has acknowledged.

They are stored as one JSON list of identifiers. A write that fails leaves the ledger as it was.
-/

namespace Entitle

/-- The identifiers of acknowledged transactions. -/
structure Ledger where
  ids : KeySet := []
  deriving DecidableEq, Repr

namespace Ledger

variable {σ : Type} [KeyValueStore σ]

/-- The key of the stored list. -/
def storageKey : String := "synced_transactions"

/-- Loads the stored identifiers; a list that cannot be read counts as empty. -/
def openFrom (store : σ) : Ledger × σ :=
  let (result, store) := KeyValueStore.load Json.readTexts storageKey store
  match result with
  | .ok (some ids) => (⟨KeySet.ofTexts ids⟩, store)
  | _ => (⟨[]⟩, store)

/-- The transaction is acknowledged. -/
def isSynced (ledger : Ledger) (id : String) : Bool :=
  ledger.ids.contains id

/-- Adds identifiers to a set, and lists those that were not in it. -/
def addAll : List String → KeySet → KeySet × List String
  | [], ids => (ids, [])
  | id :: rest, ids =>
    if ids.contains id then addAll rest ids
    else
      let (ids, added) := addAll rest (ids.insert id)
      (ids, id :: added)

/-- The JSON of the identifiers. -/
def toJson (ids : KeySet) : Json :=
  .array (ids.map .string)

/-- Records identifiers with one write, and says how many were new; without a new one nothing is written. If the
write fails, those that were new are taken out again. -/
def markAll (ids : List String) (ledger : Ledger) (store : σ) : Except StoreError Nat × Ledger × σ :=
  let (marked, added) := addAll ids ledger.ids
  if added.isEmpty then (.ok 0, ⟨marked⟩, store)
  else
    let (result, store) := KeyValueStore.save storageKey (toJson marked) store
    match result with
    | .ok _ => (.ok added.length, ⟨marked⟩, store)
    | .error e => (.error e, ⟨added.foldl KeySet.erase marked⟩, store)

/-- Records one identifier, and says whether it was new. -/
def mark (id : String) (ledger : Ledger) (store : σ) : Except StoreError Bool × Ledger × σ :=
  let (result, ledger, store) := markAll [id] ledger store
  (result.map (0 < ·), ledger, store)

/-- The items whose transactions are not acknowledged, in order. -/
def filterUnsyncedBy {α : Type} (idOf : α → String) (ledger : Ledger) (items : List α) : List α :=
  items.filter fun item => !ledger.isSynced (idOf item)

/-- The identifiers that are not acknowledged, in order. -/
def filterUnsynced (ledger : Ledger) (ids : List String) : List String :=
  ledger.filterUnsyncedBy id ids

/-- Forgets every identifier. -/
def reset (ledger : Ledger) (store : σ) : Except StoreError Unit × Ledger × σ :=
  let (result, store) := KeyValueStore.remove storageKey store
  match result with
  | .ok _ => (.ok (), ⟨[]⟩, store)
  | .error e => (.error e, ledger, store)

end Ledger

end Entitle
