/-!
Maps and sets with text keys, kept in increasing key order.

Texts are ordered by code point, which is also the order of their UTF-8 bytes. Main statements:
`get?_put` and `get?_erase` give every look-up after a change, for any list of pairs, ordered or not.
-/

namespace Entitle

/-- Pairs in increasing key order. -/
abbrev KeyMap (α : Type) := List (String × α)

namespace KeyMap

variable {α : Type}

/-- The value under `key`. -/
def get? : KeyMap α → String → Option α
  | [], _ => none
  | (k, v) :: rest, key => if k = key then some v else get? rest key

/-- Stores `value` under `key`, in place of an older value. -/
def put : KeyMap α → String → α → KeyMap α
  | [], key, value => [(key, value)]
  | (k, v) :: rest, key, value =>
    if k = key then (key, value) :: rest
    else if key < k then (key, value) :: (k, v) :: rest
    else (k, v) :: put rest key value

/-- Forgets `key`. -/
def erase : KeyMap α → String → KeyMap α
  | [], _ => []
  | (k, v) :: rest, key => if k = key then erase rest key else (k, v) :: erase rest key

/-- The keys in increasing order. -/
def keys (m : KeyMap α) : List String :=
  m.map Prod.fst

/-- The map of a list of pairs; of a repeated key the last value stays. -/
def ofPairs (pairs : List (String × α)) : KeyMap α :=
  pairs.foldl (fun m entry => put m entry.1 entry.2) []

@[simp] theorem get?_nil (key : String) : get? ([] : KeyMap α) key = none := rfl

theorem get?_put (m : KeyMap α) (key other : String) (value : α) :
    get? (put m key value) other = if key = other then some value else get? m other := by
  induction m with
  | nil => simp [put, get?]
  | cons entry rest ih => grind [put, get?]

theorem get?_erase (m : KeyMap α) (key other : String) :
    get? (erase m key) other = if key = other then none else get? m other := by
  induction m with
  | nil => simp [erase, get?]
  | cons entry rest ih => grind [erase, get?]

end KeyMap

/-- Texts in increasing order, each once. -/
abbrev KeySet := List String

namespace KeySet

/-- Adds `key`, unless it is there. -/
def insert : KeySet → String → KeySet
  | [], key => [key]
  | k :: rest, key =>
    if k = key then k :: rest
    else if key < k then key :: k :: rest
    else k :: insert rest key

/-- Takes `key` out. -/
def erase (s : KeySet) (key : String) : KeySet :=
  s.filter (· ≠ key)

/-- The set of a list of texts. -/
def ofTexts (texts : List String) : KeySet :=
  texts.foldl insert []

theorem mem_insert {s : KeySet} {key other : String} :
    other ∈ insert s key ↔ other = key ∨ other ∈ s := by
  induction s with
  | nil => simp [insert]
  | cons k rest ih => grind [insert]

theorem erase_of_not_mem {s : KeySet} {key : String} (h : key ∉ s) : erase s key = s :=
  List.filter_eq_self.2 fun _ hk => decide_eq_true (ne_of_mem_of_not_mem hk h)

/-- A new key is added and taken out again without a trace. -/
theorem erase_insert {s : KeySet} {key : String} (h : key ∉ s) : erase (insert s key) key = s := by
  induction s with
  | nil => simp [erase, insert]
  | cons k rest ih =>
    have hrest := erase_of_not_mem (s := rest) (mt (List.mem_cons_of_mem k) h)
    grind [erase, insert]

end KeySet

end Entitle
