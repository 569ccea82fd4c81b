import Entitle.Proofs.Json.Canonical

/-!
# Equal values

`Json.Same`: two values are one value as JSON goes. The order of members does not count, and of a repeated member only
the last does. Values that are equal have one canonical form, and no others have (`canonical_eq_iff`).
-/

namespace Entitle.Json

/-- The member that counts under a key, the last one. -/
def lastMember? (members : List (String × Json)) (key : String) : Option Json :=
  KeyMap.get? members.reverse key

/-- The values are equal: lists item by item, objects key by key. -/
inductive Same : Json → Json → Prop where
  | null : Same .null .null
  | bool (b : Bool) : Same (.bool b) (.bool b)
  | int (n : Int) : Same (.int n) (.int n)
  | float (x : Float) : Same (.float x) (.float x)
  | string (s : String) : Same (.string s) (.string s)
  | array {items items' : List Json} (length : items.length = items'.length)
      (each : ∀ (i : Nat) v w, items[i]? = some v → items'[i]? = some w → Same v w) :
      Same (.array items) (.array items')
  | object {members members' : List (String × Json)}
      (keys : ∀ key, lastMember? members key = none ↔ lastMember? members' key = none)
      (each : ∀ key v w, lastMember? members key = some v → lastMember? members' key = some w → Same v w) :
      Same (.object members) (.object members')

variable {v w : Json} {items items' : List Json} {members members' : List (String × Json)}

/-- What holds of a value as soon as it holds of all that is in it holds of every value. -/
@[elab_as_elim]
theorem induction {p : Json → Prop} (null : p .null) (bool : ∀ b, p (.bool b)) (int : ∀ n, p (.int n))
    (float : ∀ x, p (.float x)) (string : ∀ s, p (.string s))
    (array : ∀ items, (∀ item ∈ items, p item) → p (.array items))
    (object : ∀ members : List (String × Json), (∀ member ∈ members, p member.2) → p (.object members)) : ∀ v, p v
  | .null => null
  | .bool b => bool b
  | .int n => int n
  | .float x => float x
  | .string s => string s
  | .array items => array items fun item _hitem => induction null bool int float string array object item
  | .object members => object members fun (_key, value) _hmember =>
    induction null bool int float string array object value
termination_by v => sizeOf v
decreasing_by
  · have := List.sizeOf_lt_of_mem _hitem
    rw [Json.array.sizeOf_spec]
    omega
  · have := List.sizeOf_lt_of_mem _hmember
    rw [Prod.mk.sizeOf_spec] at this
    rw [Json.object.sizeOf_spec]
    omega

theorem get?_canonicalMembers (members : List (String × Json)) (key : String) :
    KeyMap.get? (KeyMap.ofPairs (members.map fun member => (member.1, canonical member.2))) key =
      (lastMember? members key).map canonical := by
  rw [KeyMap.get?_ofPairs, ← List.map_reverse, KeyMap.get?_map, lastMember?]

theorem canonical_array_eq_iff :
    canonical (.array items) = canonical (.array items') ↔ items.map canonical = items'.map canonical := by
  rw [canonical_array, canonical_array, array.injEq]

theorem canonical_object_eq_iff :
    canonical (.object members) = canonical (.object members') ↔
      ∀ key, (lastMember? members key).map canonical = (lastMember? members' key).map canonical := by
  rw [canonical_object, canonical_object, object.injEq]
  constructor
  · intro h key
    rw [← get?_canonicalMembers, h, get?_canonicalMembers]
  · intro h
    refine (KeyMap.sorted_ofPairs _).ext (KeyMap.sorted_ofPairs _) fun key => ?_
    rw [get?_canonicalMembers, h, get?_canonicalMembers]

theorem Same.canonical_eq (h : v.Same w) : v.canonical = w.canonical := by
  induction h with
  | @array items items' hlength _ ih =>
    refine canonical_array_eq_iff.2 (List.ext_getElem (by simpa using hlength) fun i hi hi' => ?_)
    rw [List.length_map] at hi hi'
    rw [List.getElem_map, List.getElem_map]
    exact ih i _ _ (List.getElem?_eq_getElem hi) (List.getElem?_eq_getElem hi')
  | @object members members' hkeys _ ih =>
    refine canonical_object_eq_iff.2 fun key => ?_
    cases hlast : lastMember? members key with
    | none => rw [(hkeys key).1 hlast]
    | some v =>
      obtain ⟨w, hlast'⟩ : ∃ w, lastMember? members' key = some w :=
        Option.ne_none_iff_exists'.1 fun hnone => by rw [(hkeys key).2 hnone] at hlast; cases hlast
      rw [hlast', Option.map_some, Option.map_some, ih key v w hlast hlast']
  | _ => rfl

theorem ctorIdx_eq (h : v.canonical = w.canonical) : v.ctorIdx = w.ctorIdx := by
  have hkind : ∀ v : Json, v.canonical.ctorIdx = v.ctorIdx := by
    intro v
    cases v <;> rfl
  rw [← hkind v, h, hkind w]

theorem Same.of_canonical_eq (h : v.canonical = w.canonical) : v.Same w := by
  induction v using Json.induction generalizing w with
  | array items ih =>
    have hkind := ctorIdx_eq h
    cases w with
    | array items' =>
      have hitems := canonical_array_eq_iff.1 h
      refine .array (by simpa using congrArg List.length hitems) fun i v w hv hw => ?_
      have heq : some v.canonical = some w.canonical := by
        rw [← Option.map_some, ← hv, ← List.getElem?_map, hitems, List.getElem?_map, hw, Option.map_some]
      exact ih v (List.mem_of_getElem? hv) (Option.some.inj heq)
    | _ => cases hkind
  | object members ih =>
    have hkind := ctorIdx_eq h
    cases w with
    | object members' =>
      have hmembers := canonical_object_eq_iff.1 h
      refine .object (fun key => ?_) fun key v w hv hw => ?_
      · rw [← Option.map_eq_none_iff, hmembers, Option.map_eq_none_iff]
      · have heq := hmembers key
        rw [hv, hw, Option.map_some, Option.map_some] at heq
        have hmem : (key, v) ∈ members := List.mem_reverse.1 (KeyMap.mem_of_get? hv)
        exact ih _ hmem (Option.some.inj heq)
    | _ => cases hkind
  | null | bool | int | float | string =>
    have hkind := ctorIdx_eq h
    cases w <;> cases hkind
    cases h
    constructor

/-- Canonical form is that of the equal values and of no others. -/
theorem canonical_eq_iff : v.canonical = w.canonical ↔ v.Same w :=
  ⟨Same.of_canonical_eq, Same.canonical_eq⟩

theorem Same.refl (v : Json) : v.Same v :=
  canonical_eq_iff.1 rfl

/-- Members that are not repeated may stand in any order. -/
theorem Same.of_perm (hnodup : (KeyMap.keys members).Nodup) (hperm : members.Perm members') :
    Same (.object members) (.object members') := by
  have hlast : ∀ key, lastMember? members key = lastMember? members' key := by
    intro key
    have hnodup' : (KeyMap.keys members').Nodup := (hperm.map Prod.fst).nodup_iff.1 hnodup
    rw [lastMember?, lastMember?, KeyMap.get?_reverse hnodup, KeyMap.get?_reverse hnodup']
    exact KeyMap.get?_perm hnodup hperm key
  refine .object (fun key => by rw [hlast]) fun key v w hv hw => ?_
  rw [hlast, hw] at hv
  cases hv
  exact Same.refl v

end Entitle.Json
