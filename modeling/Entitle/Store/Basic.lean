import Entitle.Json.Reader
import Entitle.Json.Writer

/-!
Key-value stores: bytes under text keys.

A store is a state of its own type; every operation can fail. `load` and `save` keep JSON values in one.
-/

namespace Entitle

/-- Why a store cannot reach a value. -/
inductive IoCause where
  /-- The file does not hold an entry. -/
  | corruptEntry
  | notFound
  | isDirectory
  | notDirectory
  | keyTooLong
  /-- A failure that was asked for. -/
  | injected
  deriving DecidableEq, Repr

/-- The cause in words. -/
def IoCause.message : IoCause → String
  | .corruptEntry => "corrupt store entry"
  | .notFound => "No such file or directory (os error 2)"
  | .isDirectory => "Is a directory (os error 21)"
  | .notDirectory => "Not a directory (os error 20)"
  | .keyTooLong => "key too long"
  | .injected => "injected"

/-- A failed store operation. -/
inductive StoreError where
  | io (key : String) (cause : IoCause)
  /-- The stored bytes are not the JSON of a value of the right type. -/
  | unreadable (key : String) (category : Json.Category)
  deriving DecidableEq, Repr

/-- The failure in words; the reason why a value is unreadable is left to its category. -/
def StoreError.message : StoreError → String
  | .io key cause => "i/o failure for key '" ++ key ++ "': " ++ cause.message
  | .unreadable key _ => "failed to encode or decode value for key '" ++ key ++ "'"

/-- The operations of a store. -/
class KeyValueStore (σ : Type) where
  /-- The bytes under a key. -/
  get : String → σ → Except StoreError (Option Bytes) × σ
  /-- Puts bytes under a key. -/
  set : String → Bytes → σ → Except StoreError Unit × σ
  /-- Forgets a key; one that is not there is no failure. -/
  remove : String → σ → Except StoreError Unit × σ
  /-- The keys that start with a text, in no particular order. -/
  keysWithPrefix : String → σ → Except StoreError (List String) × σ

namespace KeyValueStore

variable {σ α : Type} [KeyValueStore σ]

/-- Reads the value under a key. -/
def load (reader : Bytes → Except Json.Fault α) (key : String) (store : σ) :
    Except StoreError (Option α) × σ :=
  let (result, store) := get key store
  let value : Except StoreError (Option α) := match result with
    | .error e => .error e
    | .ok none => .ok none
    | .ok (some bytes) =>
      match reader bytes with
      | .ok value => .ok (some value)
      | .error fault => .error (.unreadable key fault.cause.category)
  (value, store)

/-- Writes a value under a key. -/
def save (key : String) (value : Json) (store : σ) : Except StoreError Unit × σ :=
  set key (Text.utf8 value.render) store

end KeyValueStore

end Entitle
