import Entitle.Cache.Entry
import Entitle.Http.Message
import Entitle.Store.Basic

/-!
Revalidation by opaque tags.

Before an exchange the last known tag of its signature is attached, so that the server may answer that
nothing changed. Afterwards the outcome is settled with the entry: a 304 brings back the stored body as a
200, a success with a tag and a JSON body replaces the entry, and nothing else touches it. Entries are kept
in memory and in the store; what the store fails to do is not reported.
-/

namespace Entitle

/-- The entries in memory, by storage key. -/
structure ConditionalCache where
  entries : KeyMap CacheEntry := []
  deriving DecidableEq, Repr

namespace ConditionalCache

variable {σ : Type} [KeyValueStore σ]

/-- What the storage keys of entries start with. -/
def keyStart : String := "etag."

/-- The storage key of a signature. -/
def storageKey (s : Signature) : String :=
  keyStart ++ s.cacheKey

/-- The entry under a storage key, from memory or from the store; a stored entry that cannot be read counts as
none. -/
def load (key : String) (cache : ConditionalCache) (store : σ) : Option CacheEntry × ConditionalCache × σ :=
  match cache.entries.get? key with
  | some entry => (some entry, cache, store)
  | none =>
    let (result, store) := KeyValueStore.load CacheEntry.read key store
    match result with
    | .ok (some entry) => (some entry, ⟨cache.entries.put key entry⟩, store)
    | _ => (none, cache, store)

/-- Puts an entry into the store and into memory. -/
def save (key : String) (entry : CacheEntry) (cache : ConditionalCache) (store : σ) : ConditionalCache × σ :=
  let (_, store) := KeyValueStore.save key entry.toJson store
  (⟨cache.entries.put key entry⟩, store)

/-- The entry of a signature. -/
def entry? (s : Signature) (cache : ConditionalCache) (store : σ) : Option CacheEntry × ConditionalCache × σ :=
  load (storageKey s) cache store

/-- The tag to send with the next request. -/
def tag? (s : Signature) (cache : ConditionalCache) (store : σ) : Option String × ConditionalCache × σ :=
  let (entry, cache, store) := entry? s cache store
  (entry.map (·.tag), cache, store)

/-- Attaches the known tag to a request. -/
def attach (s : Signature) (request : Request) (cache : ConditionalCache) (store : σ) :
    Request × ConditionalCache × σ :=
  let (tag, cache, store) := tag? s cache store
  match tag with
  | some tag => (request.withHeader tagRequestHeader tag, cache, store)
  | none => (request, cache, store)

/-- Drops the entry of a signature, so that its next request is unconditional. -/
def invalidate (s : Signature) (cache : ConditionalCache) (store : σ) : ConditionalCache × σ :=
  let (_, store) := KeyValueStore.remove (storageKey s) store
  (⟨cache.entries.erase (storageKey s)⟩, store)

/-- Removes keys from the store, one after the other. -/
def removeAll : List String → σ → σ
  | [], store => store
  | key :: keys, store => removeAll keys (KeyValueStore.remove key store).2

/-- Drops every entry. -/
def clear (_cache : ConditionalCache) (store : σ) : ConditionalCache × σ :=
  let (result, store) := KeyValueStore.keysWithPrefix keyStart store
  match result with
  | .ok keys => (⟨[]⟩, removeAll keys store)
  | .error _ => (⟨[]⟩, store)

/-- What the classifier sees of a 304: the stored body as a 200, if there is an entry. -/
def settleNotModified (now : Instant) (s : Signature) (response : Response) (cache : ConditionalCache) (store : σ) :
    Response × ConditionalCache × σ :=
  let (entry, cache, store) := load (storageKey s) cache store
  match entry with
  | some entry =>
    let (cache, store) := save (storageKey s) { entry with lastRefreshed := now } cache store
    (⟨⟨200⟩, some entry.tag, Text.utf8 entry.body⟩, cache, store)
  | none =>
    let (cache, store) := invalidate s cache store
    (response, cache, store)

/-- The entry that a response leaves: of a success with a tag whose body is the text of JSON in outline. -/
def entryOf? (now : Instant) (response : Response) : Option CacheEntry :=
  if response.status.isSuccessful then
    match response.tag, Text.ofUtf8? response.body with
    | some tag, some body => if Json.isOutlined response.body then some ⟨tag, body, now⟩ else none
    | _, _ => none
  else none

/-- Settles an outcome with the entry; the result is what the classifier should see. -/
def record (now : Instant) (s : Signature) (outcome : Outcome) (cache : ConditionalCache) (store : σ) :
    Outcome × ConditionalCache × σ :=
  match outcome with
  | .error e => (.error e, cache, store)
  | .ok response =>
    if response.status.isNotModified then
      let (response, cache, store) := settleNotModified now s response cache store
      (.ok response, cache, store)
    else
      match entryOf? now response with
      | some entry =>
        let (cache, store) := save (storageKey s) entry cache store
        (.ok response, cache, store)
      | none => (.ok response, cache, store)

end ConditionalCache

end Entitle
