import Entitle.Toml.Value

/-!
Reading TOML documents.

A document is a list of sections: assignments behind a header. A header opens a table that nothing has
defined yet, or one more table of a list of tables. Tables that lie on the way of a header can still be
opened later; those on the way of a key with points cannot.
-/

namespace Entitle.Toml

/-- What a document under construction holds. -/
inductive Node where
  | value (value : Toml)
  /-- A list of tables, the last one in front. -/
  | tables (last : Node) (earlier : List Node)
  /-- The members of a table, and how it came about: `implicit` when no header has opened it, `ofKey` when a key
  with points made it. -/
  | members (implicit ofKey : Bool) (members : List (String × Node))
  deriving Inhabited

mutual

/-- The value of a node. -/
def Node.finish : Node → Toml
  | .value v => v
  | .tables last earlier => .array (Node.finishAll earlier [last.finish])
  | .members _ _ inner => .table (Node.finishMembers inner)

/-- The values of nodes, the last one in front, before further values. -/
def Node.finishAll : List Node → List Toml → List Toml
  | [], values => values
  | node :: rest, values => Node.finishAll rest (node.finish :: values)

/-- The values of members. -/
def Node.finishMembers : List (String × Node) → List (String × Toml)
  | [] => []
  | (key, node) :: rest => (key, node.finish) :: Node.finishMembers rest

end

/-- A table under construction. -/
structure Table where
  implicit : Bool
  ofKey : Bool
  members : List (String × Node)

/-- The node of a table. -/
def Table.toNode (t : Table) : Node :=
  .members t.implicit t.ofKey t.members

/-- Goes down a path and changes the table at its end; tables that are missing on the way are made. With
`ofKey` the path is that of a key with points, which no table with a header may lie on. -/
def descend (ofKey : Bool) (change : Table → Option Table) : List String → Table → Option Table
  | [], t => change t
  | part :: path, t =>
    let put (node : Node) : Table := { t with members := KeyMap.put t.members part node }
    match KeyMap.get? t.members part with
    | none => (descend ofKey change path ⟨true, ofKey, []⟩).map fun inner => put inner.toNode
    | some (.members implicit inner members) =>
      if ofKey && !implicit then none
      else (descend ofKey change path ⟨implicit, inner, members⟩).map fun inner => put inner.toNode
    | some (.tables (.members implicit inner members) earlier) =>
      (descend ofKey change path ⟨implicit, inner, members⟩).map fun last => put (.tables last.toNode earlier)
    | some _ => none

/-- An assignment: the way to its table, the last part of its key and its value. -/
structure Assignment where
  path : List String
  name : String
  value : Toml

/-- Puts a value into a section. At the end of a way there has to be a table that keys with points made. -/
def Assignment.apply (a : Assignment) (table : Table) : Option Table :=
  descend true
    (fun t =>
      if t.ofKey = a.path.isEmpty || (KeyMap.get? t.members a.name).isSome then none
      else some { t with members := KeyMap.put t.members a.name (.value a.value) })
    a.path table

/-- A header: the way to the parent of its table, and the table's name. -/
structure Header where
  isList : Bool
  path : List String
  name : String

/-- A header and what stands behind it. -/
structure Section where
  header : Header
  assignments : List Assignment

/-- Fills a table with assignments. -/
def fill (assignments : List Assignment) (t : Table) : Option Table :=
  assignments.foldlM (fun t a => a.apply t) t

/-- Adds a section to a document. -/
def Section.apply (s : Section) (root : Table) : Option Table :=
  let new : Table := ⟨false, false, []⟩
  descend false
    (fun parent =>
      let put (node : Node) : Table := { parent with members := KeyMap.put parent.members s.header.name node }
      match KeyMap.get? parent.members s.header.name, s.header.isList with
      | none, false => (fill s.assignments new).map fun t => put t.toNode
      | some (.members true false members), false =>
        (fill s.assignments { new with members }).map fun t => put t.toNode
      | none, true => (fill s.assignments new).map fun t => put (.tables t.toNode [])
      | some (.tables last earlier), true =>
        (fill s.assignments new).map fun t => put (.tables t.toNode (last :: earlier))
      | _, _ => none)
    s.header.path root

/-- The parts of a key before the last, and the last. -/
def splitLast? (path : List String) : Option (List String × String) :=
  path.getLast?.map fun name => (path.dropLast, name)

/-- A header line. -/
def header? (s : List Char) : Option (Header × List Char) :=
  match s with
  | '[' :: '[' :: rest =>
    match key rest with
    | some (path, ']' :: ']' :: rest) => do
      let (path, name) ← splitLast? path
      return (⟨true, path, name⟩, ← afterLine? rest)
    | _ => none
  | '[' :: rest =>
    match key rest with
    | some (path, ']' :: rest) => do
      let (path, name) ← splitLast? path
      return (⟨false, path, name⟩, ← afterLine? rest)
    | _ => none
  | _ => none

/-- A line with an assignment. -/
def assignment? (s : List Char) : Option (Assignment × List Char) :=
  match key s with
  | some (path, '=' :: rest) => do
    let (path, name) ← splitLast? path
    let (value, rest) ← value (skipBlanks rest)
    return (⟨path, name, value⟩, ← afterLine? rest)
  | _ => none

/-- The assignments up to the next header or the end, and the sections from there. Every step takes a character
at least, so the length of the text is fuel enough. -/
def sections? : Nat → List Char → Option (List Assignment × List Section)
  | 0, s => if s.isEmpty then some ([], []) else none
  | fuel + 1, s =>
    match skipBlanks s with
    | [] => some ([], [])
    | '[' :: rest => do
      let (header, rest) ← header? ('[' :: rest)
      let (assignments, sections) ← sections? fuel rest
      return ([], ⟨header, assignments⟩ :: sections)
    | c :: rest =>
      if c = '#' || c = '\n' || c = '\r' then do sections? fuel (← afterLine? (c :: rest))
      else do
        let (assignment, rest) ← assignment? (c :: rest)
        let (assignments, sections) ← sections? fuel rest
        return (assignment :: assignments, sections)

/-- Reads a document; a byte order mark in front does not count. -/
def read (text : String) : Option Toml := do
  let s := match text.toList with
    | '\ufeff' :: rest => rest
    | s => s
  let (assignments, sections) ← sections? s.length s
  let root ← fill assignments ⟨false, false, []⟩
  let root ← sections.foldlM (fun root s => s.apply root) root
  return root.toNode.finish

end Entitle.Toml
