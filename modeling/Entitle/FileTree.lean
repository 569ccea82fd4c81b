import Entitle.Store.Files

/-!
A tree of files, and what a path leads to in it.

The tree stands for the working directory and for what lies under `/`; of what is above the working directory it
holds nothing. A path is taken part by part, so a part behind a file is told from one that is missing, and `..`
leads up from where the parts before it have led.
-/

namespace Entitle

/-- Why a file cannot be reached. -/
inductive FileFault where
  | notFound
  | notDirectory
  | isDirectory
  | alreadyExists
  | nameTooLong
  /-- The name holds a null character. -/
  | badName
  /-- The file holds no text. -/
  | notText
  /-- Nothing can be found under the name, for any other reason, in words. -/
  | unreachable (message : String)
  /-- Something is there, and there is any other reason, in words. -/
  | other (message : String)
  deriving DecidableEq, Repr

/-- The fault in words. -/
def FileFault.message : FileFault → String
  | .notFound => "No such file or directory (os error 2)"
  | .notDirectory => "Not a directory (os error 20)"
  | .isDirectory => "Is a directory (os error 21)"
  | .alreadyExists => "File exists (os error 17)"
  | .nameTooLong => "File name too long (os error 36)"
  | .badName => "file name contained an unexpected NUL byte"
  | .notText => "stream did not contain valid UTF-8"
  | .unreachable message => message
  | .other message => message

/-- Nothing can be found under the name. -/
def FileFault.isMissing : FileFault → Bool
  | .notFound | .notDirectory | .nameTooLong | .badName | .unreachable _ => true
  | _ => false

/-- Files and directories by path. The parts of a path are separated by one slash; directories on the way to
something need not be listed. -/
abbrev FileTree := KeyMap Node

namespace FileTree

/-- The path of its parts; one that starts at the root has an empty first part. -/
def join (parts : List String) : String :=
  "/".intercalate parts

/-- What lies at a path. -/
def node? (t : FileTree) (parts : List String) : Option Node :=
  match parts with
  | [] => some .directory
  | [""] => some .directory
  | _ =>
    match t.get? (join parts) with
    | some node => some node
    | none =>
      if t.any fun entry => (join parts ++ "/").toList.isPrefixOf entry.1.toList then some .directory else none

/-- The path one level up. The root is above itself; above the working directory nothing is known but that there
are directories. -/
def above (here : List String) : List String :=
  match here.getLast? with
  | none => [".."]
  | some "" => here
  | some ".." => here ++ [".."]
  | some _ => here.dropLast

/-- Goes on from a directory. The result is the path that was reached and what lies there. -/
def walk (t : FileTree) (here : List String) : List String → Except FileFault (List String × Node)
  | [] => .ok (here, .directory)
  | part :: rest =>
    if part = "" || part = "." then walk t here rest
    else if part = ".." then walk t (above here) rest
    else if 255 < part.utf8ByteSize then .error .nameTooLong
    else
      match t.node? (here ++ [part]) with
      | none => .error .notFound
      | some .directory => walk t (here ++ [part]) rest
      | some (.file content) =>
        if rest.isEmpty then .ok (here ++ [part], .file content) else .error .notDirectory

/-- Goes on from a directory, and makes the directories that are missing. -/
def make (t : FileTree) (here : List String) : List String → Except FileFault (List String × FileTree)
  | [] => .ok (here, t)
  | part :: rest =>
    if part = "" || part = "." then make t here rest
    else if part = ".." then make t (above here) rest
    else if 255 < part.utf8ByteSize then .error .nameTooLong
    else
      match t.node? (here ++ [part]) with
      | none => make (KeyMap.put t (join (here ++ [part])) .directory) (here ++ [part]) rest
      | some .directory => make t (here ++ [part]) rest
      | some (.file _) => .error (if rest.all (·.isEmpty) then .alreadyExists else .notDirectory)

/-- Where a path starts, and its parts; a path that cannot name anything is refused. -/
def start (path : String) : Except FileFault (List String × List String) :=
  if path.toList.contains '\x00' then .error .badName
  else if path.isEmpty then .error .notFound
  else if 4096 ≤ path.utf8ByteSize then .error .nameTooLong
  else
    match path.splitOn "/" with
    | "" :: parts => .ok ([""], parts)
    | parts => .ok ([], parts)

/-- What a path leads to. -/
def lookup (t : FileTree) (path : String) : Except FileFault (List String × Node) := do
  let (here, parts) ← start path
  t.walk here parts

/-- The content of the file at a path. -/
def read (t : FileTree) (path : String) : Except FileFault Bytes :=
  match t.lookup path with
  | .ok (_, .file content) => .ok content
  | .ok (_, .directory) => .error .isDirectory
  | .error fault => .error fault

/-- What lies right in a directory. -/
def contents (t : FileTree) (parts : List String) : KeyMap Node :=
  t.filterMap fun (path, node) =>
    let start := join (parts ++ [""])
    if start.toList.isPrefixOf path.toList then
      let name := String.ofList (path.toList.drop start.length)
      if name.toList.contains '/' then none else some (name, node)
    else none

/-- Puts a file or a directory at a path, with the directories on its way; one that cannot be there is left out. -/
def place (t : FileTree) (path : String) (node : Node) : FileTree :=
  match start path with
  | .error _ => t
  | .ok (here, parts) =>
    match node, t.make here (if node = .directory then parts else parts.dropLast) with
    | _, .error _ => t
    | .directory, .ok (_, t) => t
    | .file _, .ok (parent, t) => KeyMap.put t (join (parent ++ parts.getLast?.toList)) node

/-- Makes the directory at a path, if there is none, and gives what lies right in it. -/
def makeDirectory (t : FileTree) (path : String) : Except FileFault (KeyMap Node × FileTree) := do
  let (here, parts) ← start path
  let (parts, t) ← t.make here parts
  return (t.contents parts, t)

/-- Replaces what lies right in the directory at a path, if there is one. -/
def putDirectory (t : FileTree) (path : String) (nodes : KeyMap Node) : FileTree :=
  match t.lookup path with
  | .ok (parts, .directory) =>
    let kept := (t.contents parts).foldl (fun t (name, _) => KeyMap.erase t (join (parts ++ [name]))) t
    nodes.foldl (fun t (name, node) => KeyMap.put t (join (parts ++ [name])) node) kept
  | _ => t

end FileTree

end Entitle
