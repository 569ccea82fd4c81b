import Entitle.Store.Basic

/-!
A store with a list of the operations that fail, and of the calls made to it.

A failing operation leaves the stored values as they were.
-/

namespace Entitle

/-- A store operation by its kind. -/
inductive StoreOperation where
  | get
  | set
  | remove
  | keys
  deriving DecidableEq, Repr

/-- A call of a store operation: its kind, and its key or the start of keys. -/
structure StoreCall where
  operation : StoreOperation
  key : String
  deriving DecidableEq, Repr

/-- A store, the operations that fail on it, and the calls made so far. -/
structure WatchedStore (σ : Type) where
  store : σ
  failing : List StoreOperation := []
  calls : List StoreCall := []

namespace WatchedStore

variable {σ α : Type}

/-- Makes a call, and fails it if its kind fails. -/
def call (operation : StoreOperation) (key : String) (run : σ → Except StoreError α × σ)
    (watched : WatchedStore σ) : Except StoreError α × WatchedStore σ :=
  let watched := { watched with calls := watched.calls ++ [⟨operation, key⟩] }
  if watched.failing.contains operation then (.error (.io key .injected), watched)
  else
    let (result, store) := run watched.store
    (result, { watched with store })

instance [KeyValueStore σ] : KeyValueStore (WatchedStore σ) where
  get key := call .get key (KeyValueStore.get key)
  set key value := call .set key (KeyValueStore.set key value)
  remove key := call .remove key (KeyValueStore.remove key)
  keysWithPrefix start := call .keys start (KeyValueStore.keysWithPrefix start)

end WatchedStore

end Entitle
