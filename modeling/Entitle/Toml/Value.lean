import Entitle.KeyMap
import Entitle.Toml.Number
import Entitle.Toml.Text

/-!
Reading TOML values.

Arrays can span lines, inline tables cannot. A key with points in it makes the tables on its way; such a table
can take further keys with points, and a table written out as a value cannot.
-/

namespace Entitle.Toml

/-- What a table under construction holds: finished values, and tables that keys with points made. -/
inductive Draft where
  | value (value : Toml)
  | table (members : List (String × Draft))
  deriving Inhabited

mutual

/-- The value of a draft. -/
def Draft.finish : Draft → Toml
  | .value v => v
  | .table members => .table (finishMembers members)

/-- The members of a draft. -/
def Draft.finishMembers : List (String × Draft) → List (String × Toml)
  | [] => []
  | (key, draft) :: rest => (key, draft.finish) :: Draft.finishMembers rest

end

/-- Puts a value under a key with points. A key that is taken, or whose way leads through a finished value, is
refused. -/
def assign (value : Toml) : List String → List (String × Draft) → Option (List (String × Draft))
  | [], _ => none
  | [part], members =>
    if (KeyMap.get? members part).isSome then none else some (KeyMap.put members part (.value value))
  | part :: path, members =>
    match KeyMap.get? members part with
    | none => (assign value path []).map fun inner => KeyMap.put members part (.table inner)
    | some (.table inner) =>
      (assign value path inner).map fun inner => KeyMap.put members part (.table inner)
    | some _ => none

/-- A name for a value. -/
def named? (s : List Char) : Option (Toml × List Char) :=
  let rest := s.dropWhile isWordChar
  match String.ofList (s.takeWhile isWordChar) with
  | "true" => some (.boolean true, rest)
  | "false" => some (.boolean false, rest)
  | "inf" => some (.float, rest)
  | "nan" => some (.float, rest)
  | _ => none

mutual

/-- A value in front, at a depth of nesting. Every step takes a character or opens the next, so twice the length
of the text is fuel enough. -/
def value? (fuel depth : Nat) (s : List Char) : Option (Toml × List Char) :=
  match fuel with
  | 0 => none
  | fuel + 1 =>
    match s with
    | [] => none
    | '[' :: rest =>
      if depth + 1 < depthLimit then
        (items? fuel (depth + 1) (skipGaps false rest)).map fun (items, rest) => (.array items, rest)
      else none
    | '{' :: rest =>
      if depth + 1 < depthLimit then
        match skipBlanks rest with
        | '}' :: rest => some (.table [], rest)
        | rest =>
          (members? fuel (depth + 1) [] rest).map fun (members, rest) =>
            (.table (Draft.finishMembers members), rest)
      else none
    | c :: _ =>
      if c = '"' || c = '\'' then (text? s).map fun (text, rest) => (.string text, rest)
      else if isDigit c || c = '+' || c = '-' then number? s
      else named? s

/-- The rest of an array. -/
def items? (fuel depth : Nat) (s : List Char) : Option (List Toml × List Char) :=
  match fuel with
  | 0 => none
  | fuel + 1 =>
    match s with
    | ']' :: rest => some ([], rest)
    | _ =>
      match value? fuel depth s with
      | none => none
      | some (item, rest) =>
        match skipGaps false rest with
        | ',' :: rest =>
          (items? fuel depth (skipGaps false rest)).map fun (items, rest) => (item :: items, rest)
        | ']' :: rest => some ([item], rest)
        | _ => none

/-- The rest of an inline table, behind the members read so far. -/
def members? (fuel depth : Nat) (members : List (String × Draft)) (s : List Char) :
    Option (List (String × Draft) × List Char) :=
  match fuel with
  | 0 => none
  | fuel + 1 =>
    match key s with
    | some (path, '=' :: rest) =>
      match value? fuel depth (skipBlanks rest) with
      | none => none
      | some (value, rest) =>
        match assign value path members, skipBlanks rest with
        | some members, ',' :: rest => members? fuel depth members rest
        | some members, '}' :: rest => some (members, rest)
        | _, _ => none
    | _ => none

end

/-- A value in front. -/
def value (s : List Char) : Option (Toml × List Char) :=
  value? (2 * s.length + 1) 0 s

end Entitle.Toml
