import Entitle.Json.Shape
import Entitle.Proofs.Json.Place
import Mathlib.Data.List.Nodup

/-!
# What decoders make of edits

`Decoder.Blind`: an edit changes neither whether a value is read nor the reason why not, and of what is read nothing but
what a mask covers. Lists, maps, lenient decoders and records pass it on from what they hold, so it holds along a path
(`Blind.list`, `Blind.map`, `Blind.lenient`, `Record.blind_field`). A record is blind to a member that it does not
declare (`Record.decode_withMember`) and to any change of a lenient field (`Record.blind_change`). What a record holds
in a field is what the value of the field is read as (`Record.get_decode`), and a list or a map holds all that stands
there.
-/

namespace Entitle.Json

/-! ### Results under a mask -/

section
variable {ε α β γ δ : Type} {x y : Except ε α} {k l : α → Except ε β} {mask : α → γ} {mask' : β → δ}

theorem map_bind_congr (h : x.map mask = y.map mask) (hk : ∀ a b, mask a = mask b → (k a).map mask' = (l b).map mask') :
    (x >>= k).map mask' = (y >>= l).map mask' := by
  cases x with
  | error e =>
    cases y with
    | error e' => cases h; rfl
    | ok b => cases h
  | ok a =>
    cases y with
    | error e' => cases h
    | ok b => exact hk a b (Except.ok.inj h)

theorem map_bind_same (hk : ∀ a, (k a).map mask' = (l a).map mask') : (x >>= k).map mask' = (x >>= l).map mask' := by
  cases x with
  | error e => rfl
  | ok a => exact hk a

theorem map_eq_ok {b : γ} (h : x.map mask = .ok b) : ∃ a, x = .ok a ∧ mask a = b := by
  cases x with
  | error e => cases h
  | ok a => exact ⟨a, rfl, Except.ok.inj h⟩

end

/-! ### Decoders -/

namespace Decoder
variable {α : Type} {read : Decoder α} {edit : Json → Json} {mask : α → α} {default : α}

/-- The edit changes neither whether a value is read nor why not, and of what is read only what the mask covers. -/
def Blind (read : Decoder α) (edit : Json → Json) (mask : α → α) : Prop :=
  ∀ value, (read (edit value)).map mask = (read value).map mask

/-- Every value is read. -/
def Total (read : Decoder α) : Prop :=
  ∀ value, ∃ result, read value = .ok result

theorem blind_id (read : Decoder α) (mask : α → α) : read.Blind id mask := fun _ => rfl

@[simp] theorem total_lenient (default : α) (read : Decoder α) : (lenient default read).Total := by
  intro value
  unfold lenient
  split
  · exact ⟨_, rfl⟩
  · exact ⟨_, rfl⟩

theorem Blind.lenient (h : read.Blind edit mask) : (lenient default read).Blind edit mask := by
  intro value
  have hread := h value
  unfold Decoder.lenient
  cases hedited : read (edit value) with
  | ok a =>
    obtain ⟨b, hb, hmask⟩ := map_eq_ok (hread.symm.trans (by rw [hedited]; rfl) : (read value).map mask = .ok (mask a))
    rw [hb]
    exact congrArg Except.ok hmask.symm
  | error e =>
    cases hvalue : read value with
    | ok b => rw [hedited, hvalue] at hread; cases hread
    | error e' => rfl

theorem Blind.items (h : read.Blind edit mask) (index : Nat) (values : List Json) :
    (items read (values.modify index edit)).map (·.modify index mask) =
      (items read values).map (·.modify index mask) := by
  induction values generalizing index with
  | nil => rw [List.modify_nil]
  | cons value rest ih =>
    cases index with
    | zero =>
      rw [List.modify_zero_cons]
      refine map_bind_congr (h value) fun a b hmask => map_bind_same fun others => ?_
      show Except.ok ((a :: others).modify 0 mask) = Except.ok ((b :: others).modify 0 mask)
      rw [List.modify_zero_cons, List.modify_zero_cons, hmask]
    | succ index =>
      rw [List.modify_succ_cons]
      refine map_bind_same fun a => map_bind_congr (ih index) fun others others' hmask => ?_
      show Except.ok ((a :: others).modify (index + 1) mask) = Except.ok ((a :: others').modify (index + 1) mask)
      rw [List.modify_succ_cons, List.modify_succ_cons, hmask]

theorem Blind.members (h : read.Blind edit mask) (key : String) (entries : List (String × Json)) :
    (members read (KeyMap.modify entries key edit)).map (KeyMap.modify · key mask) =
      (members read entries).map (KeyMap.modify · key mask) := by
  induction entries with
  | nil => rfl
  | cons entry rest ih =>
    obtain ⟨k, value⟩ := entry
    have hvalue : (read (if k = key then edit value else value)).map (fun a => if k = key then mask a else a) =
        (read value).map fun a => if k = key then mask a else a := by
      by_cases hk : k = key
      · simpa only [hk, if_true] using h value
      · simp only [hk, if_false]
    rw [KeyMap.modify_cons]
    refine map_bind_congr hvalue fun a b hmask => map_bind_congr ih fun others others' hmask' => ?_
    show Except.ok (KeyMap.modify ((k, a) :: others) key mask) = Except.ok (KeyMap.modify ((k, b) :: others') key mask)
    rw [KeyMap.modify_cons, KeyMap.modify_cons, hmask, hmask']

theorem Blind.list (h : read.Blind edit mask) (index : Nat) :
    (list read).Blind (Step.edit edit (.item index)) (·.modify index mask) := by
  intro value
  cases value with
  | array values => exact h.items index values
  | _ => rfl

theorem Blind.map (h : read.Blind edit mask) (key : String) :
    (map read).Blind (Step.edit edit (.entry key)) (KeyMap.modify · key mask) := by
  intro value
  cases value with
  | object entries => exact h.members key entries
  | _ => rfl

/-! A list is read item by item, a map entry by entry. -/

theorem items_eq_ok {values : List Json} {results : List α} (h : items read values = .ok results) :
    values.map read = results.map .ok := by
  induction values generalizing results with
  | nil =>
    obtain rfl : [] = results := Except.ok.inj h
    rfl
  | cons value rest ih =>
    simp only [items] at h
    cases hfirst : read value with
    | error e => rw [hfirst] at h; cases h
    | ok first =>
      rw [hfirst] at h
      cases hothers : items read rest with
      | error e => rw [hothers] at h; cases h
      | ok others =>
        rw [hothers] at h
        obtain rfl : first :: others = results := Except.ok.inj h
        rw [List.map_cons, List.map_cons, hfirst, ih hothers]

theorem members_eq_ok {entries : List (String × Json)} {results : KeyMap α} (h : members read entries = .ok results) :
    entries.map (fun entry => (entry.1, read entry.2)) = results.map fun entry => (entry.1, .ok entry.2) := by
  induction entries generalizing results with
  | nil =>
    obtain rfl : [] = results := Except.ok.inj h
    rfl
  | cons entry rest ih =>
    obtain ⟨key, value⟩ := entry
    simp only [members] at h
    cases hfirst : read value with
    | error e => rw [hfirst] at h; cases h
    | ok first =>
      rw [hfirst] at h
      cases hothers : members read rest with
      | error e => rw [hothers] at h; cases h
      | ok others =>
        rw [hothers] at h
        obtain rfl : (key, first) :: others = results := Except.ok.inj h
        rw [List.map_cons, List.map_cons, hfirst, ih hothers]

/-- The list holds what all items of the value found are read as, or nothing. -/
def ReadsAll (read : Decoder α) (found : Option Json) (results : List α) : Prop :=
  results = [] ∨ ∃ values, found = some (.array values) ∧ values.map read = results.map .ok

/-- The map holds what all entries of the value found are read as, or nothing. -/
def ReadsAllEntries (read : Decoder α) (found : Option Json) (results : KeyMap α) : Prop :=
  results = [] ∨ ∃ entries, found = some (.object entries) ∧
    entries.map (fun entry => (entry.1, read entry.2)) = results.map fun entry => (entry.1, .ok entry.2)

theorem readsAll_of_lenient {value : Json} {results : List α} (h : lenient [] (list read) value = .ok results) :
    ReadsAll read (some value) results := by
  unfold lenient at h
  split at h
  · next xs hread =>
    obtain rfl : xs = results := Except.ok.inj h
    cases value with
    | array values => exact .inr ⟨values, rfl, items_eq_ok hread⟩
    | _ => cases hread
  · exact .inl (Except.ok.inj h).symm

theorem readsAllEntries_of_lenient {value : Json} {results : KeyMap α} (h : lenient [] (map read) value = .ok results) :
    ReadsAllEntries read (some value) results := by
  unfold lenient at h
  split at h
  · next m hread =>
    obtain rfl : m = results := Except.ok.inj h
    cases value with
    | object entries => exact .inr ⟨entries, rfl, members_eq_ok hread⟩
    | _ => cases hread
  · exact .inl (Except.ok.inj h).symm

theorem ReadsAll.getElem? {found : Option Json} {results : List α} (h : ReadsAll read found results) {index : Nat}
    {result : α} (hresult : results[index]? = some result) :
    ∃ value, found.bind (Step.find? (.item index)) = some value ∧ read value = .ok result := by
  rcases h with rfl | ⟨values, rfl, hall⟩
  · cases hresult
  · have hat : (values.map read)[index]? = some (.ok result) := by rw [hall, List.getElem?_map, hresult]; rfl
    rw [List.getElem?_map, Option.map_eq_some_iff] at hat
    obtain ⟨value, hvalue, hread⟩ := hat
    exact ⟨value, hvalue, hread⟩

end Decoder

/-! ### Fields -/

namespace Field
variable {ρ α : Type} {name : String} {required : Bool} {read : Decoder α} {set : α → ρ → ρ} {edit : Json → Json}
  {cover : α → α} {mask : ρ → ρ} {field : Field ρ}

/-- From records that are alike under the mask, the field makes such records of a value and of the edited one. -/
def Blind (field : Field ρ) (edit : Json → Json) (mask : ρ → ρ) : Prop :=
  ∀ value r s, mask r = mask s → (field.store (edit value) r).map mask = (field.store value s).map mask

/-- The field takes every value and changes only what the mask covers. -/
def Absorbs (field : Field ρ) (mask : ρ → ρ) : Prop :=
  ∀ value r, (field.store value r).map mask = .ok (mask r)

/-- The field changes nothing that is looked at. -/
def Keeps {β : Type} (field : Field ρ) (get : ρ → β) : Prop :=
  ∀ value r s, field.store value r = .ok s → get s = get r

theorem blind_of (h : read.Blind edit cover) (hset : ∀ a r, mask (set a r) = set (cover a) (mask r)) :
    (Field.of name required read set).Blind edit mask := by
  intro value r s heq
  show ((read (edit value)).map (set · r)).map mask = ((read value).map (set · s)).map mask
  have hvalue := h value
  cases hedited : read (edit value) with
  | error e =>
    cases hread : read value with
    | error e' => rw [hedited, hread] at hvalue; cases hvalue; rfl
    | ok b => rw [hedited, hread] at hvalue; cases hvalue
  | ok a =>
    cases hread : read value with
    | error e' => rw [hedited, hread] at hvalue; cases hvalue
    | ok b =>
      rw [hedited, hread] at hvalue
      have hcover : cover a = cover b := Except.ok.inj hvalue
      show Except.ok (mask (set a r)) = Except.ok (mask (set b s))
      rw [hset, hset, hcover, heq]

theorem absorbs_of (h : read.Total) (hset : ∀ a r, mask (set a r) = mask r) :
    (Field.of name required read set).Absorbs mask := by
  intro value r
  obtain ⟨a, ha⟩ := h value
  show ((read value).map (set · r)).map mask = _
  rw [ha]
  exact congrArg Except.ok (hset a r)

theorem Absorbs.blind (h : field.Absorbs mask) (edit : Json → Json) : field.Blind edit mask := by
  intro value r s heq
  rw [h, h, heq]

theorem keeps_of {β : Type} {get : ρ → β} (hset : ∀ a r, get (set a r) = get r) :
    (Field.of name required read set).Keeps get := by
  intro value r s h
  obtain ⟨a, -, rfl⟩ := map_eq_ok (h : (read value).map (set · r) = .ok s)
  exact hset a r

end Field

/-! ### Records -/

namespace Record
variable {ρ α : Type} {r : Record ρ} {fields : List (Field ρ)} {members members' : List (String × Json)}
  {name key : String} {edit : Json → Json} {mask : ρ → ρ}

/-- The names of the fields in order. -/
def names (r : Record ρ) : List String :=
  r.fields.map Field.name

theorem idxOf_names (hnames : r.names.Nodup) {index : Nat} {field : Field ρ} (h : r.fields[index]? = some field) :
    r.names.idxOf field.name = index := by
  have hat : r.names[index]? = some field.name := by rw [names, List.getElem?_map, h, Option.map_some]
  obtain ⟨hlt, hname⟩ := List.getElem?_eq_some_iff.1 hat
  rw [← hname]
  exact hnames.idxOf_getElem index hlt

theorem missing?_congr (h : ∀ g ∈ fields, g.required → (KeyMap.get? members g.name).isSome =
    (KeyMap.get? members' g.name).isSome) : missing? fields members = missing? fields members' := by
  induction fields with
  | nil => rfl
  | cons g fields ih =>
    have hhead : (g.required && !members.any fun entry => entry.1 = g.name) =
        (g.required && !members'.any fun entry => entry.1 = g.name) := by
      cases hrequired : g.required with
      | false => rfl
      | true => rw [KeyMap.any_eq, KeyMap.any_eq, h g List.mem_cons_self hrequired]
    have hrest := ih fun g hg => h g (List.mem_cons_of_mem _ hg)
    simp only [missing?] at hrest ⊢
    rw [List.find?_cons, List.find?_cons, hhead, hrest]

theorem decode_object_congr (hstore : (storeMembers r.fields members r.blank).map mask =
      (storeMembers r.fields members' r.blank).map mask)
    (hmissing : missing? r.fields members = missing? r.fields members') :
    (r.decode (.object members)).map mask = (r.decode (.object members')).map mask := by
  refine map_bind_congr hstore fun a b heq => ?_
  rw [hmissing]
  cases missing? r.fields members' with
  | some field => rfl
  | none => exact congrArg Except.ok heq

theorem storeMembers_modify (hself : ∀ g ∈ fields, g.name = name → g.Blind edit mask)
    (hkeeps : ∀ g ∈ fields, g.Blind id mask) (members : List (String × Json)) {a b : ρ} (heq : mask a = mask b) :
    (storeMembers fields (KeyMap.modify members name edit) a).map mask = (storeMembers fields members b).map mask := by
  induction members generalizing a b with
  | nil => exact congrArg Except.ok heq
  | cons member rest ih =>
    obtain ⟨k, value⟩ := member
    rw [KeyMap.modify_cons]
    simp only [storeMembers]
    cases hfound : fields.find? (·.name = k) with
    | none => exact ih heq
    | some g =>
      have hmem := List.mem_of_find?_eq_some hfound
      have hname : g.name = k := by simpa using List.find?_some hfound
      refine map_bind_congr ?_ fun a' b' heq' => ih heq'
      -- only the field of that name meets the edit
      by_cases hk : k = name
      · rw [if_pos hk]
        exact hself g hmem (hname.trans hk) value a b heq
      · rw [if_neg hk]
        exact hkeeps g hmem value a b heq

theorem storeItems_alike {index : Nat} (hkeeps : ∀ g ∈ fields, g.Blind id mask) (items : List Json) {a b : ρ}
    (heq : mask a = mask b) :
    (storeItems r index fields items a).map mask = (storeItems r index fields items b).map mask := by
  induction fields generalizing index items a b with
  | nil =>
    cases items with
    | nil => exact congrArg Except.ok heq
    | cons item rest => rfl
  | cons g fields ih =>
    have hrest : ∀ g ∈ fields, g.Blind id mask := fun g hg => hkeeps g (List.mem_cons_of_mem _ hg)
    cases items with
    | nil =>
      simp only [storeItems]
      split
      · rfl
      · exact ih hrest [] heq
    | cons item rest =>
      exact map_bind_congr (hkeeps g List.mem_cons_self item a b heq) fun a' b' heq' => ih hrest rest heq'

/-- The items from the one at `index` on, of which the one at `place` is edited. -/
theorem storeItems_modify {place index : Nat} (hself : ∀ g, fields[place]? = some g → g.Blind edit mask)
    (hkeeps : ∀ g ∈ fields, g.Blind id mask) (items : List Json) {a b : ρ} (heq : mask a = mask b) :
    (storeItems r index fields (items.modify place edit) a).map mask =
      (storeItems r index fields items b).map mask := by
  induction fields generalizing place index items a b with
  | nil =>
    cases items with
    | nil => rw [List.modify_nil]; exact congrArg Except.ok heq
    | cons item rest =>
      cases place with
      | zero => rfl
      | succ place =>
        rw [List.modify_succ_cons]
        simp only [storeItems, List.length_cons, List.length_modify]
  | cons g fields ih =>
    have hrest : ∀ g ∈ fields, g.Blind id mask := fun g hg => hkeeps g (List.mem_cons_of_mem _ hg)
    cases items with
    | nil =>
      rw [List.modify_nil]
      exact storeItems_alike hkeeps [] heq
    | cons item rest =>
      cases place with
      | zero =>
        rw [List.modify_zero_cons]
        exact map_bind_congr (hself g rfl item a b heq) fun a' b' heq' => storeItems_alike hrest rest heq'
      | succ place =>
        rw [List.modify_succ_cons]
        exact map_bind_congr (hkeeps g List.mem_cons_self item a b heq) fun a' b' heq' =>
          ih (fun g hg => hself g hg) hrest rest heq'

theorem blind_edit (hself : ∀ g ∈ r.fields, g.name = name → g.Blind edit mask)
    (hkeeps : ∀ g ∈ r.fields, g.Blind id mask) :
    Decoder.Blind r.decode (Step.edit edit (.field r.names name)) mask := by
  intro value
  cases value with
  | object members =>
    refine decode_object_congr (storeMembers_modify hself hkeeps members rfl) (missing?_congr fun g _ _ => ?_)
    rw [KeyMap.get?_modify, Option.isSome_map]
  | array items =>
    refine storeItems_modify (fun g hg => ?_) hkeeps items rfl
    have hnamed : ∀ i : Nat, r.names[i]? = r.fields[i]?.map Field.name := fun _ => List.getElem?_map
    have hat : r.names[r.names.idxOf name]? = some g.name := by rw [hnamed, hg, Option.map_some]
    obtain ⟨hlt, hget⟩ := List.getElem?_eq_some_iff.1 hat
    exact hself g (List.mem_of_getElem? hg) (hget.symm.trans (List.getElem_idxOf hlt))
  | _ => rfl

/-- What a decoder of a field is blind to, the record is at that field. -/
theorem blind_field {read : Decoder α} {set : α → ρ → ρ} {required : Bool} {cover : α → α} (hnames : r.names.Nodup)
    (hfield : Field.of name required read set ∈ r.fields) (h : read.Blind edit cover)
    (hset : ∀ a s, mask (set a s) = set (cover a) (mask s)) (hkeeps : ∀ g ∈ r.fields, g.Blind id mask) :
    Decoder.Blind r.decode (Step.edit edit (.field r.names name)) mask := by
  refine blind_edit (fun g hg hname => ?_) hkeeps
  obtain rfl := List.inj_on_of_nodup_map hnames hg hfield hname
  exact Field.blind_of h hset

/-! ### Undeclared members -/

theorem storeMembers_put (hkey : ∀ g ∈ fields, g.name ≠ key) (value : Json) (members : List (String × Json)) (a : ρ) :
    storeMembers fields (KeyMap.put members key value) a = storeMembers fields members a := by
  have hnone : fields.find? (·.name = key) = none := List.find?_eq_none.2 fun g hg => by simpa using hkey g hg
  have hskip : ∀ (v : Json) (rest : List (String × Json)) (b : ρ),
      storeMembers fields ((key, v) :: rest) b = storeMembers fields rest b := fun v rest b => by
    simp only [storeMembers, hnone]
  induction members generalizing a with
  | nil => exact hskip value [] a
  | cons member rest ih =>
    obtain ⟨k, v⟩ := member
    simp only [KeyMap.put]
    split
    · next heq =>
      subst heq
      rw [hskip, hskip]
    · split
      · exact hskip value _ a
      · simp only [storeMembers]
        split
        · exact bind_congr fun b => ih b
        · exact ih a

/-- A member that the record does not declare changes nothing. -/
theorem decode_withMember (hkey : key ∉ r.names) (value payload : Json) :
    r.decode (withMember key value payload) = r.decode payload := by
  have hnot : ∀ g ∈ r.fields, g.name ≠ key := fun g hg heq => hkey (heq ▸ List.mem_map_of_mem hg)
  cases payload with
  | object members =>
    have hmissing : missing? r.fields (KeyMap.put members key value) = missing? r.fields members :=
      missing?_congr fun g hg _ => by rw [KeyMap.get?_put, if_neg (hnot g hg).symm]
    simp only [withMember, decode, storeMembers_put hnot, hmissing]
  | _ => rfl

theorem blind_withMember (hkey : key ∉ r.names) (value : Json) : Decoder.Blind r.decode (withMember key value) id :=
  fun payload => by rw [decode_withMember hkey]

/-! ### Lenient fields -/

theorem storeMembers_erase (hself : ∀ g ∈ fields, g.name = name → g.Absorbs mask)
    (hkeeps : ∀ g ∈ fields, g.Blind id mask) (members : List (String × Json)) {a b : ρ} (heq : mask a = mask b) :
    (storeMembers fields (KeyMap.erase members name) a).map mask = (storeMembers fields members b).map mask := by
  induction members generalizing a b with
  | nil => exact congrArg Except.ok heq
  | cons member rest ih =>
    obtain ⟨k, value⟩ := member
    simp only [KeyMap.erase, storeMembers]
    cases hfound : fields.find? (·.name = k) with
    | none =>
      split
      · exact ih heq
      · simp only [storeMembers, hfound]
        exact ih heq
    | some g =>
      have hmem := List.mem_of_find?_eq_some hfound
      have hname : g.name = k := by simpa using List.find?_some hfound
      split
      · next hk =>
        -- what the field made of the member is under the mask
        obtain ⟨b', hstore, hb'⟩ := map_eq_ok (hself g hmem (hname.trans hk) value b)
        simp only [hstore]
        exact ih (heq.trans hb'.symm)
      · simp only [storeMembers, hfound]
        exact map_bind_congr (hkeeps g hmem value a b heq) fun a' b' heq' => ih heq'

/-- What may happen to a field: another value takes the place of its own, or its member goes. -/
inductive Change where
  | replace (value : Json)
  | delete

/-- The change of a field of a record with fields of these names. -/
def Change.apply (names : List String) (name : String) : Change → Json → Json
  | replace value => Step.edit (fun _ => value) (.field names name)
  | delete => withoutMember name

/-- A record is blind to any change of a field that may be missing and takes every value. -/
theorem blind_change {read : Decoder α} {set : α → ρ → ρ} (hnames : r.names.Nodup)
    (hfield : Field.of name false read set ∈ r.fields) (hread : read.Total) (hset : ∀ a s, mask (set a s) = mask s)
    (hkeeps : ∀ g ∈ r.fields, g.Blind id mask) (change : Change) :
    Decoder.Blind r.decode (change.apply r.names name) mask := by
  have hself : ∀ g ∈ r.fields, g.name = name → g = Field.of name false read set := fun g hg hname =>
    List.inj_on_of_nodup_map hnames hg hfield hname
  have hall : ∀ g ∈ r.fields, g.name = name → g.Absorbs mask := fun g hg hname =>
    hself g hg hname ▸ Field.absorbs_of hread hset
  cases change with
  | replace value => exact blind_edit (fun g hg hg' => (hall g hg hg').blind _) hkeeps
  | delete =>
    intro value
    cases value with
    | object members =>
      refine decode_object_congr (storeMembers_erase hall hkeeps members rfl) (missing?_congr fun g hg hrequired => ?_)
      have hne : name ≠ g.name := fun heq => by
        rw [hself g hg heq.symm] at hrequired
        cases hrequired
      rw [KeyMap.get?_erase, if_neg hne]
    | _ => rfl

/-! ### What a field is read from -/

section
variable {read : Decoder α} {set : α → ρ → ρ} {get : ρ → α} {required : Bool} {x y : ρ}

theorem storeMembers_get (hget : ∀ a s, get (set a s) = a)
    (hfield : ∀ g ∈ fields, g.name = name → g = Field.of name required read set)
    (hkeeps : ∀ g ∈ fields, g.name ≠ name → g.Keeps get) (hmem : Field.of name required read set ∈ fields)
    (h : storeMembers fields members x = .ok y) :
    (∀ v, lastMember? members name = some v → read v = .ok (get y)) ∧
      (lastMember? members name = none → get y = get x) := by
  induction members generalizing x with
  | nil =>
    obtain rfl : x = y := Except.ok.inj h
    exact ⟨nofun, fun _ => rfl⟩
  | cons member rest ih =>
    obtain ⟨k, value⟩ := member
    have hlast : lastMember? ((k, value) :: rest) name =
        (lastMember? rest name).or (if k = name then some value else none) := by
      rw [lastMember?, List.reverse_cons, KeyMap.get?_append, lastMember?]
      simp only [KeyMap.get?]
    rw [hlast]
    simp only [storeMembers] at h
    cases hfound : fields.find? (·.name = k) with
    | none =>
      have hne : k ≠ name := fun heq => by
        simpa [Field.of, heq] using List.find?_eq_none.1 hfound _ hmem
      rw [hfound] at h
      simpa [hne] using ih h
    | some g =>
      have hg := List.mem_of_find?_eq_some hfound
      have hname : g.name = k := by simpa using List.find?_some hfound
      rw [hfound] at h
      cases hstore : g.store value x with
      | error e => simp only [hstore] at h; cases h
      | ok x' =>
        simp only [hstore] at h
        obtain ⟨hsome, hnone⟩ := ih h
        by_cases hk : k = name
        · obtain rfl := hfield g hg (hname.trans hk)
          obtain ⟨a, hread, hset⟩ := map_eq_ok (hstore : (read value).map (set · x) = .ok x')
          have hx' : get x' = a := by rw [← hset, hget]
          constructor
          · intro v hv
            -- a later member of that name stores over this one
            cases hrest : lastMember? rest name with
            | some w =>
              rw [hrest, Option.some_or, Option.some.injEq] at hv
              exact hv ▸ hsome w hrest
            | none =>
              rw [hrest, Option.none_or, if_pos hk, Option.some.injEq] at hv
              rw [← hv, hread, hnone hrest, hx']
          · intro hv
            simp [hk] at hv
        · have hx' := hkeeps g hg (fun heq => hk (hname.symm.trans heq)) value x x' hstore
          rw [← hx']
          simpa [hk] using And.intro hsome hnone

theorem storeItems_keeps {index : Nat} {items : List Json} (hkeeps : ∀ g ∈ fields, g.Keeps get)
    (h : storeItems r index fields items x = .ok y) : get y = get x := by
  induction fields generalizing index items x with
  | nil =>
    cases items with
    | nil => rw [Except.ok.inj h]
    | cons item rest => cases h
  | cons g fields ih =>
    have hrest : ∀ g ∈ fields, g.Keeps get := fun g hg => hkeeps g (List.mem_cons_of_mem _ hg)
    cases items with
    | nil =>
      simp only [storeItems] at h
      split at h
      · cases h
      · exact ih hrest h
    | cons item rest =>
      simp only [storeItems] at h
      cases hstore : g.store item x with
      | error e => rw [hstore] at h; cases h
      | ok x' =>
        rw [hstore] at h
        rw [ih hrest h, hkeeps g List.mem_cons_self item x x' hstore]

theorem storeItems_get {place index : Nat} {items : List Json} (hget : ∀ a s, get (set a s) = a)
    (hfield : fields[place]? = some (Field.of name required read set))
    (hkeeps : ∀ i g, i ≠ place → fields[i]? = some g → g.Keeps get) (h : storeItems r index fields items x = .ok y) :
    (∀ v, items[place]? = some v → read v = .ok (get y)) ∧
      (items[place]? = none → required = false ∧ get y = get x) := by
  induction fields generalizing place index items x with
  | nil => cases hfield
  | cons g fields ih =>
    cases place with
    | zero =>
      obtain rfl : g = Field.of name required read set := Option.some.inj hfield
      have hrest : ∀ g ∈ fields, g.Keeps get := fun g hg => by
        obtain ⟨i, hi⟩ := List.mem_iff_getElem?.1 hg
        exact hkeeps (i + 1) g (Nat.succ_ne_zero i) hi
      cases items with
      | nil =>
        simp only [storeItems] at h
        split at h
        · cases h
        · next hoptional => exact ⟨nofun, fun _ => ⟨Bool.eq_false_iff.2 hoptional, storeItems_keeps hrest h⟩⟩
      | cons item rest =>
        simp only [storeItems] at h
        cases hstore : (Field.of name required read set).store item x with
        | error e => rw [hstore] at h; cases h
        | ok x' =>
          rw [hstore] at h
          obtain ⟨a, hread, hset⟩ := map_eq_ok (hstore : (read item).map (set · x) = .ok x')
          refine ⟨fun v hv => ?_, nofun⟩
          obtain rfl : item = v := Option.some.inj hv
          rw [storeItems_keeps hrest h, ← hset, hget, hread]
    | succ place =>
      have hrest : ∀ i g, i ≠ place → fields[i]? = some g → g.Keeps get := fun i g hi hg =>
        hkeeps (i + 1) g (fun heq => hi (Nat.succ.inj heq)) hg
      have htail : fields[place]? = some (Field.of name required read set) := hfield
      cases items with
      | nil =>
        simp only [storeItems] at h
        split at h
        · cases h
        · obtain ⟨-, hnone⟩ := ih htail hrest h
          exact ⟨nofun, fun _ => hnone rfl⟩
      | cons item rest =>
        simp only [storeItems] at h
        cases hstore : g.store item x with
        | error e => rw [hstore] at h; cases h
        | ok x' =>
          rw [hstore] at h
          rw [← hkeeps 0 g (Nat.succ_ne_zero place).symm rfl item x x' hstore]
          have hlater := ih htail hrest h
          exact hlater

/-- What a record holds in a field is what the field's value is read as; a field that may be missing stays as it was. -/
theorem get_decode {value : Json} (get : ρ → α) (hnames : r.names.Nodup)
    (hmem : Field.of name required read set ∈ r.fields) (hget : ∀ a s, get (set a s) = a)
    (hkeeps : ∀ g ∈ r.fields, g.name ≠ name → g.Keeps get)
    (h : r.decode value = .ok y) :
    (∃ v, Step.find? (.field r.names name) value = some v ∧ read v = .ok (get y)) ∨
      Step.find? (.field r.names name) value = none ∧ required = false ∧ get y = get r.blank := by
  have hfield : ∀ g ∈ r.fields, g.name = name → g = Field.of name required read set := fun g hg hname =>
    List.inj_on_of_nodup_map hnames hg hmem hname
  cases value with
  | object members =>
    simp only [decode] at h
    cases hstore : storeMembers r.fields members r.blank with
    | error e => rw [hstore] at h; cases h
    | ok z =>
      rw [hstore] at h
      have hmissing : missing? r.fields members = none ∧ z = y := by
        cases hm : missing? r.fields members with
        | some g => simp only [hm, bind, Except.bind] at h; cases h
        | none => simp only [hm, bind, Except.bind] at h; exact ⟨rfl, Except.ok.inj h⟩
      obtain ⟨hpresent, rfl⟩ := hmissing
      obtain ⟨hsome, hnone⟩ := storeMembers_get hget hfield hkeeps hmem hstore
      cases hlast : lastMember? members name with
      | some v => exact .inl ⟨v, hlast, hsome v hlast⟩
      | none =>
        refine .inr ⟨hlast, ?_, hnone hlast⟩
        have hgiven := List.find?_eq_none.1 hpresent _ hmem
        have habsent : (members.any fun entry => entry.1 = name) = false := by
          rw [← List.any_reverse, KeyMap.any_eq]
          rw [lastMember?] at hlast
          rw [hlast]
          rfl
        cases hrequired : required with
        | false => rfl
        | true =>
          refine absurd ?_ hgiven
          show (required && !members.any fun entry => entry.1 = name) = true
          rw [hrequired, habsent]
          rfl
  | array items =>
    obtain ⟨place, hplace⟩ := List.mem_iff_getElem?.1 hmem
    have hindex : r.names.idxOf name = place := idxOf_names hnames hplace
    have hothers : ∀ i g, i ≠ place → r.fields[i]? = some g → g.Keeps get := fun i g hi hg =>
      hkeeps g (List.mem_of_getElem? hg) fun heq => hi (by rw [← hindex, ← heq, idxOf_names hnames hg])
    obtain ⟨hsome, hnone⟩ := storeItems_get hget hplace hothers h
    have hfind : Step.find? (.field r.names name) (.array items) = items[place]? := by rw [← hindex]; rfl
    rw [hfind]
    cases hitem : items[place]? with
    | some v => exact .inl ⟨v, rfl, hsome v hitem⟩
    | none => exact .inr ⟨rfl, hnone hitem⟩
  | _ => cases h

end

end Record

end Entitle.Json
