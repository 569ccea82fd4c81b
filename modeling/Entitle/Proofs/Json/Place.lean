import Entitle.Proofs.Json.Equality

/-!
# Places in a value

A path leads into a value through the fields of records, the items of lists and the entries of maps. `Json.at?` is what
stands at its end, and `Json.editAt` puts something else there.
-/

namespace Entitle

namespace KeyMap
variable {α : Type} {m : KeyMap α} {key k : String} {value : α}

/-- Another value under a key that is there. -/
def modify (m : KeyMap α) (key : String) (f : α → α) : KeyMap α :=
  m.map fun entry => (entry.1, if entry.1 = key then f entry.2 else entry.2)

theorem modify_cons (entry : String × α) (f : α → α) :
    modify (entry :: m) key f = (entry.1, if entry.1 = key then f entry.2 else entry.2) :: modify m key f := rfl

theorem modify_id (m : KeyMap α) (key : String) : modify m key id = m := by
  simp [modify]

theorem get?_modify (f : α → α) (k : String) :
    get? (modify m key f) k = (get? m k).map fun v => if k = key then f v else v := by
  induction m with
  | nil => rfl
  | cons entry rest ih =>
    rw [modify_cons, get?, get?, ih]
    by_cases hk : entry.1 = k
    · simp [hk]
    · simp [hk]

theorem any_eq (m : KeyMap α) (k : String) : (m.any fun entry => entry.1 = k) = (get? m k).isSome := by
  induction m with
  | nil => rfl
  | cons entry rest ih =>
    rw [List.any_cons, get?, ih]
    by_cases hk : entry.1 = k
    · simp [hk]
    · simp [hk]

end KeyMap

namespace Json

/-! ### Places -/

/-- A step from a value to one in it. -/
inductive Step where
  /-- The value of a field of a record with fields of these names. -/
  | field (names : List String) (name : String)
  /-- An item of a list. -/
  | item (index : Nat)
  /-- The value of an entry of a map. -/
  | entry (key : String)

namespace Step

/-- What stands there. A record is an object or a list of its fields in order. -/
def find? : Step → Json → Option Json
  | .field _ name, .object members => lastMember? members name
  | .field names name, .array items => items[names.idxOf name]?
  | .item index, .array items => items[index]?
  | .entry key, .object members => lastMember? members key
  | _, _ => none

/-- The value with what stands there edited. -/
def edit (f : Json → Json) : Step → Json → Json
  | .field _ name, .object members => .object (KeyMap.modify members name f)
  | .field names name, .array items => .array (items.modify (names.idxOf name) f)
  | .item index, .array items => .array (items.modify index f)
  | .entry key, .object members => .object (KeyMap.modify members key f)
  | _, value => value

end Step

/-- Steps from the outside in. -/
abbrev Path := List Step

/-- What stands at the end of a path. -/
def at? : Path → Json → Option Json
  | [], value => some value
  | step :: path, value => (step.find? value).bind (at? path)

theorem at?_singleton (step : Step) (value : Json) : at? [step] value = step.find? value := by
  rw [at?]
  cases step.find? value with
  | none => rfl
  | some inner => rfl

theorem at?_append (path path' : Path) (value : Json) :
    at? (path ++ path') value = (at? path value).bind (at? path') := by
  induction path generalizing value with
  | nil => rfl
  | cons step path ih =>
    rw [List.cons_append, at?, at?]
    cases step.find? value with
    | none => rfl
    | some inner => exact ih inner

/-- The value with what stands at the end of a path edited. -/
def editAt : Path → (Json → Json) → Json → Json
  | [], f => f
  | step :: path, f => step.edit (editAt path f)

/-- An object with one member more, or with another value of a member; nothing else has members. -/
def withMember (key : String) (value : Json) : Json → Json
  | .object members => .object (KeyMap.put members key value)
  | other => other

/-- An object without a member. -/
def withoutMember (key : String) : Json → Json
  | .object members => .object (KeyMap.erase members key)
  | other => other

end Json

end Entitle
