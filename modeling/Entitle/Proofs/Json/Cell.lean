import Entitle.Proofs.Json.Shape

/-!
# Records by their cells

A cell is a component of a record with the field that it is read from. Cells describe a type of records
(`Cell.Describes`) if its fields are theirs, a cell holds what it was set to last, and a record is what its cells hold.
Such records are blind to what the decoder of a cell is blind to, at the cell's place (`Describes.blind`,
`Describes.blind_item`, `Describes.blind_entry`) and to any change of a lenient cell (`Describes.blind_change`); and
what a cell holds is what stands at its place (`Describes.get_decode`), in full if it is a collection
(`Describes.readsAll`, `Describes.readsAllEntries`).
-/

namespace Entitle.Json

/-- A component of a record with the field that it is read from. -/
structure Cell (ρ : Type) where
  Value : Type
  name : String
  required : Bool
  read : Decoder Value
  write : Value → Json
  get : ρ → Value
  set : Value → ρ → ρ
  /-- What stands for a value that cannot be read, if any value can be in its place. -/
  default? : Option Value

namespace Cell
variable {ρ α : Type}

/-- The field that the cell is read from. -/
def field (cell : Cell ρ) : Field ρ :=
  .of cell.name cell.required cell.read cell.set

/-- A change of what the cell holds. -/
def update (cell : Cell ρ) (f : cell.Value → cell.Value) (x : ρ) : ρ :=
  cell.set (f (cell.get x)) x

/-- A lenient list. -/
@[simp]
def list (name : String) (read : Decoder α) (write : α → Json) (get : ρ → List α) (set : List α → ρ → ρ) : Cell ρ :=
  ⟨List α, name, false, .lenient [] (.list read), fun xs => .array (xs.map write), get, set, some []⟩

/-- A lenient map. -/
@[simp]
def map (name : String) (read : Decoder α) (write : α → Json) (get : ρ → KeyMap α) (set : KeyMap α → ρ → ρ) : Cell ρ :=
  ⟨KeyMap α, name, false, .lenient [] (.map read), fun m => .object (m.map fun entry => (entry.1, write entry.2)), get,
    set, some []⟩

/-- The cells make up a type of records: its fields are theirs, each holds what it was set to last, and a record is what
they hold. For cells that are listed the laws are found by evaluation. -/
structure Describes (cells : List (Cell ρ)) (r : Record ρ) (toJson : ρ → Json) : Prop where
  fields : r.fields = cells.map field := by rfl
  names : r.names.Nodup := by decide
  written : ∀ x, toJson x = .object (cells.map fun cell => (cell.name, cell.write (cell.get x))) := by intro; rfl
  get_set : ∀ cell ∈ cells, ∀ v x, cell.get (cell.set v x) = v := by simp
  get_set_of_ne : ∀ cell ∈ cells, ∀ other ∈ cells, cell.name ≠ other.name →
    ∀ v x, other.get (cell.set v x) = other.get x := by simp
  ext : ∀ x y, (∀ cell ∈ cells, cell.get x = cell.get y) → x = y := by rintro ⟨⟩ ⟨⟩; simp
  lenient : ∀ cell ∈ cells, ∀ d ∈ cell.default?,
    cell.required = false ∧ cell.read.Total ∧ cell.get r.blank = d := by simp

namespace Describes
variable {cells : List (Cell ρ)} {r : Record ρ} {toJson : ρ → Json} {cell other : Cell ρ} {edit : Json → Json}
  {payload : Json} {x : ρ} {name : String}

theorem mem_fields (h : Describes cells r toJson) (hcell : cell ∈ cells) : cell.field ∈ r.fields :=
  h.fields ▸ List.mem_map_of_mem hcell

theorem nodup (h : Describes cells r toJson) : (cells.map Cell.name).Nodup := by
  have hnames := h.names
  rwa [Record.names, h.fields, List.map_map] at hnames

theorem eq_of_name (h : Describes cells r toJson) (hcell : cell ∈ cells) (hother : other ∈ cells)
    (hname : cell.name = other.name) : cell = other :=
  List.inj_on_of_nodup_map h.nodup hcell hother hname

theorem set_set (h : Describes cells r toJson) (hcell : cell ∈ cells) (v w : cell.Value) (x : ρ) :
    cell.set v (cell.set w x) = cell.set v x := by
  refine h.ext _ _ fun other hother => ?_
  by_cases hname : cell.name = other.name
  · obtain rfl := h.eq_of_name hcell hother hname
    rw [h.get_set cell hcell, h.get_set cell hcell]
  · simp only [h.get_set_of_ne cell hcell other hother hname]

theorem set_comm (h : Describes cells r toJson) (hcell : cell ∈ cells) (hother : other ∈ cells)
    (hne : cell.name ≠ other.name) (v : cell.Value) (w : other.Value) (x : ρ) :
    cell.set v (other.set w x) = other.set w (cell.set v x) := by
  refine h.ext _ _ fun third hthird => ?_
  by_cases hname : cell.name = third.name
  · obtain rfl := h.eq_of_name hcell hthird hname
    rw [h.get_set cell hcell, h.get_set_of_ne other hother cell hcell hne.symm, h.get_set cell hcell]
  · rw [h.get_set_of_ne cell hcell third hthird hname]
    by_cases hname' : other.name = third.name
    · obtain rfl := h.eq_of_name hother hthird hname'
      rw [h.get_set other hother, h.get_set other hother]
    · simp only [h.get_set_of_ne other hother third hthird hname', h.get_set_of_ne cell hcell third hthird hname]

theorem update_set (h : Describes cells r toJson) (hcell : cell ∈ cells) (f : cell.Value → cell.Value) (v : cell.Value)
    (x : ρ) : cell.update f (cell.set v x) = cell.set (f v) (cell.update f x) := by
  rw [update, update, h.get_set cell hcell, h.set_set hcell, h.set_set hcell]

/-! ### Blindness -/

theorem blind_update (h : Describes cells r toJson) (hcell : cell ∈ cells) (f : cell.Value → cell.Value) :
    ∀ g ∈ r.fields, g.Blind id (cell.update f) := by
  rw [h.fields]
  intro g hg
  obtain ⟨other, hother, rfl⟩ := List.mem_map.1 hg
  by_cases hname : other.name = cell.name
  · obtain rfl := h.eq_of_name hother hcell hname
    exact Field.blind_of (Decoder.blind_id _ f) (h.update_set hother f)
  · refine Field.blind_of (Decoder.blind_id _ id) fun v x => ?_
    rw [update, update, h.get_set_of_ne other hother cell hcell hname, h.set_comm hother hcell hname]
    rfl

/-- What the decoder of a cell is blind to, the record is at the cell's place. -/
theorem blind (h : Describes cells r toJson) (hcell : cell ∈ cells) {f : cell.Value → cell.Value}
    (hread : cell.read.Blind edit f) :
    Decoder.Blind r.decode (editAt [.field r.names cell.name] edit) (cell.update f) :=
  Record.blind_field h.names (h.mem_fields hcell) hread (h.update_set hcell f) (h.blind_update hcell f)

section
variable {read : Decoder α} {write : α → Json} {f : α → α}

theorem blind_item {get : ρ → List α} {set : List α → ρ → ρ} (h : Describes cells r toJson)
    (hcell : list name read write get set ∈ cells) (hread : read.Blind edit f) (index : Nat) :
    Decoder.Blind r.decode (editAt [.field r.names name, .item index] edit)
      fun x => set ((get x).modify index f) x :=
  h.blind hcell (hread.list index).lenient

theorem blind_entry {get : ρ → KeyMap α} {set : KeyMap α → ρ → ρ} (h : Describes cells r toJson)
    (hcell : map name read write get set ∈ cells) (hread : read.Blind edit f) (key : String) :
    Decoder.Blind r.decode (editAt [.field r.names name, .entry key] edit)
      fun x => set (KeyMap.modify (get x) key f) x :=
  h.blind hcell (hread.map key).lenient

end

/-- The record is blind to any change of a lenient cell. -/
theorem blind_change (h : Describes cells r toJson) (hcell : cell ∈ cells) {default : cell.Value}
    (hdefault : default ∈ cell.default?) (change : Record.Change) :
    Decoder.Blind r.decode (change.apply r.names cell.name) (cell.set default) := by
  obtain ⟨hrequired, hread, -⟩ := h.lenient cell hcell default hdefault
  have hfield : Field.of cell.name false cell.read cell.set ∈ r.fields := hrequired ▸ h.mem_fields hcell
  exact Record.blind_change h.names hfield hread (fun v x => h.set_set hcell default v x)
    (h.blind_update hcell fun _ => default) change

/-! ### What a cell holds -/

theorem get_decode (h : Describes cells r toJson) (hcell : cell ∈ cells) (hread : r.decode payload = .ok x) :
    (∃ v, Step.find? (.field r.names cell.name) payload = some v ∧ cell.read v = .ok (cell.get x)) ∨
      Step.find? (.field r.names cell.name) payload = none ∧ cell.required = false ∧ cell.get x = cell.get r.blank := by
  refine Record.get_decode cell.get h.names (h.mem_fields hcell) (h.get_set cell hcell) (fun g hg hne => ?_) hread
  rw [h.fields] at hg
  obtain ⟨other, hother, rfl⟩ := List.mem_map.1 hg
  exact Field.keeps_of (h.get_set_of_ne other hother cell hcell hne)

theorem readsAll {read : Decoder α} {write : α → Json} {get : ρ → List α} {set : List α → ρ → ρ}
    (h : Describes cells r toJson) (hcell : list name read write get set ∈ cells) (hread : r.decode payload = .ok x) :
    read.ReadsAll (Step.find? (.field r.names name) payload) (get x) := by
  rcases h.get_decode hcell hread with ⟨v, hfind, hv⟩ | ⟨-, -, hsame⟩
  · exact hfind ▸ Decoder.readsAll_of_lenient hv
  · exact .inl (hsame.trans (h.lenient _ hcell [] rfl).2.2)

theorem readsAllEntries {read : Decoder α} {write : α → Json} {get : ρ → KeyMap α} {set : KeyMap α → ρ → ρ}
    (h : Describes cells r toJson) (hcell : map name read write get set ∈ cells) (hread : r.decode payload = .ok x) :
    read.ReadsAllEntries (Step.find? (.field r.names name) payload) (get x) := by
  rcases h.get_decode hcell hread with ⟨v, hfind, hv⟩ | ⟨-, -, hsame⟩
  · exact hfind ▸ Decoder.readsAllEntries_of_lenient hv
  · exact .inl (hsame.trans (h.lenient _ hcell [] rfl).2.2)

end Describes
end Cell

end Entitle.Json
