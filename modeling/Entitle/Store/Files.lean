import Entitle.Store.Basic
import Entitle.Store.Entry
import Entitle.Text.Blake3

/-!
A store in a directory, one file a key.

A file is named for the digest of its key, so no key is too long for a name. Values are written to another
file first and then take their name, so a file never holds half a value. Files of other names do not count.
-/

namespace Entitle

/-- What a name in a directory stands for. -/
inductive Node where
  | file (content : Bytes)
  | directory
  deriving DecidableEq, Repr

/-- A directory's contents by name; none while it does not exist. -/
abbrev Directory := Option (KeyMap Node)

/-- The part of a file name behind its last point, if something stands before the point. -/
def fileExtension? (name : String) : Option String :=
  if name = ".." then none
  else
    let reversed := name.toList.reverse
    let ending := reversed.takeWhile (· ≠ '.')
    match reversed.drop ending.length with
    | [] => none
    | ['.'] => none
    | _ => some (String.ofList ending.reverse)

/-- A store in a directory. -/
structure FileStore where
  directory : Directory
  /-- The writes so far, which number the files that are written first. -/
  writes : Nat := 0

namespace FileStore

/-- The extension of entries. -/
def entryExtension : String := "entry"

/-- The name of a key's file, without its extension. -/
def stem (key : String) : String :=
  Text.Blake3.hexDigest (Text.utf8 key)

/-- The name of a key's file. -/
def fileName (key : String) : String :=
  stem key ++ "." ++ entryExtension

/-- The name of the file that a write goes to first. -/
def stagingName (key : String) (write : Nat) : String :=
  "." ++ stem key ++ "." ++ toString write ++ ".tmp"

/-- Opens the store, making its directory if there is none. -/
def openAt (directory : Directory) : FileStore :=
  ⟨some (directory.getD []), 0⟩

/-- The value that a file's content gives a key. -/
def valueOf (key : String) (content : Bytes) : Except StoreError (Option Bytes) :=
  match Entry.decode? content with
  | none => .error (.io key .corruptEntry)
  | some (storedKey, value) => .ok (if storedKey = key then some value else none)

/-- Reads a key's file. -/
def get (key : String) (store : FileStore) : Except StoreError (Option Bytes) :=
  match store.directory with
  | none => .ok none
  | some nodes =>
    match nodes.get? (fileName key) with
    | none => .ok none
    | some .directory => .error (.io key .isDirectory)
    | some (.file content) => valueOf key content

/-- Writes a key's file through a staging file; a failed write leaves no staging file. -/
def write (key : String) (value : Bytes) (number : Nat) (directory : Directory) : Except IoCause Directory :=
  match Entry.encode? key value, directory with
  | none, _ => .error .keyTooLong
  | some _, none => .error .notFound
  | some content, some nodes =>
    match nodes.get? (stagingName key number) with
    | some .directory => .error .isDirectory
    | _ =>
      match nodes.get? (fileName key) with
      | some .directory => .error .isDirectory
      | _ => .ok (some ((nodes.erase (stagingName key number)).put (fileName key) (.file content)))

/-- What a failed write leaves of the directory: a staging file of its name is gone. -/
def afterFailedWrite (key : String) (number : Nat) (directory : Directory) : Directory :=
  directory.map fun nodes =>
    match nodes.get? (stagingName key number) with
    | some (.file _) => nodes.erase (stagingName key number)
    | _ => nodes

/-- Puts a value under a key. -/
def set (key : String) (value : Bytes) (store : FileStore) : Except StoreError Unit × FileStore :=
  match write key value store.writes store.directory with
  | .ok directory => (.ok (), ⟨directory, store.writes + 1⟩)
  | .error cause =>
    (.error (.io key cause), ⟨afterFailedWrite key store.writes store.directory, store.writes + 1⟩)

/-- Removes a key's file. -/
def remove (key : String) (store : FileStore) : Except StoreError Unit × FileStore :=
  match store.directory with
  | none => (.ok (), store)
  | some nodes =>
    match nodes.get? (fileName key) with
    | some .directory => (.error (.io key .isDirectory), store)
    | _ => (.ok (), { store with directory := some (nodes.erase (fileName key)) })

/-- The key that a name and its node give a listing: none if it is no entry. -/
def listedKey (start name : String) (node : Node) : Except StoreError (Option String) :=
  if fileExtension? name = some entryExtension then
    match node with
    | .directory => .error (.io start .isDirectory)
    | .file content =>
      match Entry.decode? content with
      | some (key, _) => .ok (if Text.startsWith key start then some key else none)
      | none => .ok none
  else .ok none

/-- The keys of a directory's entries that start with a text. -/
def listedKeys (start : String) : KeyMap Node → Except StoreError (List String)
  | [] => .ok []
  | (name, node) :: rest => do
    let first ← listedKey start name node
    let others ← listedKeys start rest
    return first.toList ++ others

/-- The keys that start with a text. -/
def keysWithPrefix (start : String) (store : FileStore) : Except StoreError (List String) :=
  match store.directory with
  | none => .error (.io start .notFound)
  | some nodes => listedKeys start nodes

instance : KeyValueStore FileStore where
  get key store := (store.get key, store)
  set := set
  remove := remove
  keysWithPrefix start store := (store.keysWithPrefix start, store)

end FileStore

end Entitle
