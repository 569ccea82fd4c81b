import Entitle.Store.Basic

/-!
A store that lasts as long as its owner. No operation fails.
-/

namespace Entitle

/-- Bytes under keys. -/
structure MemoryStore where
  entries : KeyMap Bytes := []
  deriving DecidableEq, Repr

namespace MemoryStore

instance : KeyValueStore MemoryStore where
  get key store := (.ok (store.entries.get? key), store)
  set key value store := (.ok (), ⟨store.entries.put key value⟩)
  remove key store := (.ok (), ⟨store.entries.erase key⟩)
  keysWithPrefix start store := (.ok (store.entries.keys.filter (Text.startsWith · start)), store)

end MemoryStore

end Entitle
