import Entitle.Text.Utf8

/-!
The bytes of one entry in a file: the key's length in four bytes, the highest first, the key and the value.

An entry carries its key, so keys can be listed and two keys that share a file name can be told apart.
-/

namespace Entitle.Entry

/-- The least length of a key that four bytes cannot hold. -/
def keyLimit : Nat := 4294967296

/-- A length in four bytes. -/
def lengthBytes (n : Nat) : Bytes :=
  [(n / 16777216).toUInt8, (n / 65536).toUInt8, (n / 256).toUInt8, n.toUInt8]

/-- The bytes of an entry; none if the key is too long. -/
def encode? (key : String) (value : Bytes) : Option Bytes :=
  let keyBytes := Text.utf8 key
  if keyBytes.length < keyLimit then some (lengthBytes keyBytes.length ++ (keyBytes ++ value)) else none

/-- The key and the value of an entry; none if the bytes are not one. -/
def decode? : Bytes → Option (String × Bytes)
  | a :: b :: c :: d :: rest =>
    let length := ((a.toNat * 256 + b.toNat) * 256 + c.toNat) * 256 + d.toNat
    if rest.length < length then none
    else (Text.ofUtf8? (rest.take length)).map fun key => (key, rest.drop length)
  | _ => none

end Entitle.Entry
