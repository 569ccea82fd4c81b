/-!
Tables: pairs in the order in which their keys came.

Main statements: `get?_put` and `get?_erase` give every look-up after a change, for any list of pairs.
-/

namespace Entitle

/-- Pairs, the oldest first. -/
abbrev Table (κ α : Type) := List (κ × α)

namespace Table

variable {κ α : Type} [DecidableEq κ]

/-- The value under `key`. -/
def get? : Table κ α → κ → Option α
  | [], _ => none
  | (k, v) :: rest, key => if k = key then some v else get? rest key

/-- Stores `value` under `key`, in the place of an older value. -/
def put : Table κ α → κ → α → Table κ α
  | [], key, value => [(key, value)]
  | (k, v) :: rest, key, value =>
    if k = key then (key, value) :: rest else (k, v) :: put rest key value

/-- Forgets `key`. -/
def erase (t : Table κ α) (key : κ) : Table κ α :=
  t.filter (·.1 ≠ key)

/-- The keys, the oldest first. -/
def keys (t : Table κ α) : List κ :=
  t.map Prod.fst

@[simp] theorem get?_nil (key : κ) : get? ([] : Table κ α) key = none := rfl

theorem get?_put (t : Table κ α) (key other : κ) (value : α) :
    get? (put t key value) other = if key = other then some value else get? t other := by
  induction t with
  | nil => simp [put, get?]
  | cons entry rest ih => grind [put, get?]

theorem get?_erase (t : Table κ α) (key other : κ) :
    get? (erase t key) other = if key = other then none else get? t other := by
  induction t with
  | nil => simp [erase, get?]
  | cons entry rest ih => grind [erase, get?]

theorem get?_append (t u : Table κ α) (key : κ) : get? (t ++ u) key = (get? t key).or (get? u key) := by
  induction t with
  | nil => simp
  | cons entry rest ih => grind [get?]

theorem get?_map_const (keys : List κ) (value : α) (key : κ) :
    get? (keys.map (·, value)) key = if key ∈ keys then some value else none := by
  induction keys with
  | nil => simp
  | cons k rest ih => grind [get?]

theorem mem_keys {t : Table κ α} {key : κ} : key ∈ keys t ↔ get? t key ≠ none := by
  induction t with
  | nil => simp [keys]
  | cons entry rest ih => grind [keys, get?]

theorem mem_of_get? {t : Table κ α} {key : κ} {value : α} (h : get? t key = some value) : (key, value) ∈ t := by
  induction t with
  | nil => cases h
  | cons entry rest ih => grind [get?]

theorem get?_of_mem {t : Table κ α} (hn : (keys t).Nodup) {key : κ} {value : α} (h : (key, value) ∈ t) :
    get? t key = some value := by
  induction t with
  | nil => cases h
  | cons entry rest ih => grind [get?, keys]

theorem keys_put {t : Table κ α} {key : κ} (h : key ∉ keys t) (value : α) :
    keys (put t key value) = keys t ++ [key] := by
  induction t with
  | nil => rfl
  | cons entry rest ih => grind [keys, put]

theorem keys_erase (t : Table κ α) (key : κ) : keys (erase t key) = (keys t).filter (· ≠ key) := by
  rw [keys, erase, keys, List.filter_map]
  rfl

end Table

end Entitle
