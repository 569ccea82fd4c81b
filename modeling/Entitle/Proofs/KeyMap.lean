import Entitle.KeyMap
import Mathlib.Data.String.Basic

/-!
# Maps in key order

`KeyMap.Sorted`: the keys stand in increasing order, each once. Putting and erasing keep it, and a sorted map is known
by its look-ups (`Sorted.ext`).
-/

namespace Entitle.KeyMap

variable {α β : Type} {m m' : KeyMap α} {key k : String} {value : α} {entry : String × α}

/-! ### Entries and keys -/

theorem mem_keys : key ∈ keys m ↔ get? m key ≠ none := by
  induction m with
  | nil => simp [keys]
  | cons entry rest ih => grind [keys, get?]

theorem mem_of_get? (h : get? m key = some value) : (key, value) ∈ m := by
  induction m with
  | nil => cases h
  | cons entry rest ih => grind [get?]

theorem get?_ne_none_of_mem (h : (key, value) ∈ m) : get? m key ≠ none :=
  mem_keys.1 (List.mem_map_of_mem h)

theorem get?_eq_none (h : key ∉ keys m) : get? m key = none :=
  not_not.1 (mt mem_keys.2 h)

theorem mem_put (h : entry ∈ put m key value) : entry = (key, value) ∨ entry ∈ m := by
  induction m with
  | nil => exact .inl (List.mem_singleton.1 h)
  | cons first rest ih => grind [put]

theorem mem_erase (h : entry ∈ erase m key) : entry ∈ m := by
  induction m with
  | nil => cases h
  | cons first rest ih => grind [erase]

theorem mem_keys_put (h : k ∈ keys (put m key value)) : k = key ∨ k ∈ keys m := by
  obtain ⟨entry, hentry, rfl⟩ := List.mem_map.1 h
  rcases mem_put hentry with rfl | hold
  · exact .inl rfl
  · exact .inr (List.mem_map_of_mem hold)

theorem mem_keys_erase (h : k ∈ keys (erase m key)) : k ∈ keys m := by
  obtain ⟨entry, hentry, rfl⟩ := List.mem_map.1 h
  exact List.mem_map_of_mem (mem_erase hentry)

/-! ### Order -/

/-- In increasing key order, each key once. -/
def Sorted (m : KeyMap α) : Prop :=
  m.keys.Pairwise (· < ·)

theorem sorted_cons :
    Sorted (entry :: m) ↔ (∀ k ∈ keys m, entry.1 < k) ∧ Sorted m :=
  List.pairwise_cons

theorem sorted_nil : Sorted ([] : KeyMap α) := List.Pairwise.nil

namespace Sorted

theorem nodup (h : Sorted m) : (keys m).Nodup :=
  h.imp fun hlt => ne_of_lt hlt

theorem put (h : Sorted m) (key : String) (value : α) : Sorted (put m key value) := by
  induction m with
  | nil => exact List.pairwise_singleton _ _
  | cons entry rest ih =>
    obtain ⟨hfirst, hrest⟩ := sorted_cons.1 h
    simp only [KeyMap.put]
    split
    · next heq => exact sorted_cons.2 ⟨fun k hk => heq ▸ hfirst k hk, hrest⟩
    · next hne =>
      split
      · next hlt =>
        refine sorted_cons.2 ⟨fun k hk => ?_, h⟩
        rcases List.mem_cons.1 hk with rfl | hk
        · exact hlt
        · exact lt_trans hlt (hfirst k hk)
      · next hnlt =>
        refine sorted_cons.2 ⟨fun k hk => ?_, ih hrest⟩
        rcases mem_keys_put hk with rfl | hk
        · exact lt_of_le_of_ne (not_lt.1 hnlt) hne
        · exact hfirst k hk

theorem erase (h : Sorted m) (key : String) : Sorted (erase m key) := by
  induction m with
  | nil => exact sorted_nil
  | cons entry rest ih =>
    obtain ⟨hfirst, hrest⟩ := sorted_cons.1 h
    simp only [KeyMap.erase]
    split
    · exact ih hrest
    · exact sorted_cons.2 ⟨fun k hk => hfirst k (mem_keys_erase hk), ih hrest⟩

end Sorted

/-! ### Look-ups -/

theorem get?_append (m m' : KeyMap α) (k : String) : get? (m ++ m') k = (get? m k).or (get? m' k) := by
  induction m with
  | nil => rfl
  | cons entry rest ih =>
    simp only [List.cons_append, get?]
    split
    · rfl
    · exact ih

theorem get?_map (f : α → β) (m : KeyMap α) (k : String) :
    get? (m.map fun entry => (entry.1, f entry.2)) k = (get? m k).map f := by
  induction m with
  | nil => rfl
  | cons entry rest ih =>
    simp only [List.map_cons, get?]
    split
    · rfl
    · exact ih

theorem get?_eq_some_iff (h : (keys m).Nodup) : get? m key = some value ↔ (key, value) ∈ m := by
  refine ⟨mem_of_get?, fun hmem => ?_⟩
  induction m with
  | nil => cases hmem
  | cons entry rest ih =>
    obtain ⟨hfirst, hrest⟩ := List.nodup_cons.1 h
    rcases List.mem_cons.1 hmem with rfl | hmem
    · simp [get?]
    · have hne : entry.1 ≠ key := fun heq => hfirst (heq ▸ List.mem_map_of_mem hmem)
      simp [get?, hne, ih hrest hmem]

/-- If each key stands once, the order does not count. -/
theorem get?_perm (h : (keys m).Nodup) (hperm : m.Perm m') (k : String) : get? m k = get? m' k := by
  have h' : (keys m').Nodup := (hperm.map Prod.fst).nodup_iff.1 h
  refine Option.ext fun v => ?_
  rw [get?_eq_some_iff h, get?_eq_some_iff h', hperm.mem_iff]

theorem get?_reverse (h : (keys m).Nodup) (k : String) : get? m.reverse k = get? m k :=
  (get?_perm h (List.reverse_perm m).symm k).symm

theorem sorted_ofPairs (pairs : List (String × α)) : Sorted (ofPairs pairs) := by
  suffices ∀ m : KeyMap α, Sorted m → Sorted (pairs.foldl (fun m entry => put m entry.1 entry.2) m) from
    this [] sorted_nil
  induction pairs with
  | nil => exact fun _ h => h
  | cons entry rest ih => exact fun m h => ih _ (h.put entry.1 entry.2)

/-- Of a repeated key the last value stays. -/
theorem get?_ofPairs (pairs : List (String × α)) (k : String) : get? (ofPairs pairs) k = get? pairs.reverse k := by
  suffices ∀ m : KeyMap α, get? (pairs.foldl (fun m entry => put m entry.1 entry.2) m) k =
      (get? pairs.reverse k).or (get? m k) from
    (this []).trans Option.or_none
  induction pairs with
  | nil => exact fun m => rfl
  | cons entry rest ih =>
    intro m
    rw [List.foldl_cons, ih, get?_put, List.reverse_cons, get?_append, Option.or_assoc]
    simp only [get?]
    split <;> rfl

theorem mem_keys_ofPairs {pairs : List (String × α)} :
    key ∈ keys (ofPairs pairs) ↔ ∃ value, (key, value) ∈ pairs := by
  rw [mem_keys, get?_ofPairs, ← mem_keys]
  simp [keys]

theorem mem_ofPairs {pairs : List (String × α)} (h : (keys pairs).Nodup) : entry ∈ ofPairs pairs ↔ entry ∈ pairs := by
  obtain ⟨key, value⟩ := entry
  rw [← get?_eq_some_iff (sorted_ofPairs pairs).nodup, get?_ofPairs, get?_reverse h, get?_eq_some_iff h]

theorem get?_eq_some_first :
    get? m key = some value ↔ ∃ before after, m = before ++ (key, value) :: after ∧ ∀ v, (key, v) ∉ before := by
  constructor
  · intro h
    induction m with
    | nil => cases h
    | cons entry rest ih =>
      obtain ⟨k, v⟩ := entry
      by_cases hk : k = key
      · subst hk
        simp only [get?, if_true, Option.some.injEq] at h
        exact ⟨[], rest, by rw [h, List.nil_append], fun _ => List.not_mem_nil⟩
      · simp only [get?, hk, if_false] at h
        obtain ⟨before, after, rfl, hnone⟩ := ih h
        refine ⟨(k, v) :: before, after, rfl, fun w hmem => ?_⟩
        rcases List.mem_cons.1 hmem with heq | hmem
        · exact hk (Prod.mk.inj heq).1.symm
        · exact hnone w hmem
  · rintro ⟨before, after, rfl, hnone⟩
    have hbefore : get? before key = none := get?_eq_none fun hmem => by
      obtain ⟨⟨k, v⟩, hentry, rfl⟩ := List.mem_map.1 hmem
      exact hnone v hentry
    simp [get?_append, hbefore, get?]

theorem get?_ofPairs_eq_some {pairs : List (String × α)} :
    get? (ofPairs pairs) key = some value ↔
      ∃ before after, pairs = before ++ (key, value) :: after ∧ ∀ v, (key, v) ∉ after := by
  rw [get?_ofPairs, get?_eq_some_first]
  constructor
  · rintro ⟨before, after, heq, hnone⟩
    refine ⟨after.reverse, before.reverse, ?_, fun v hv => hnone v (List.mem_reverse.1 hv)⟩
    rw [← List.reverse_reverse pairs, heq, List.reverse_append, List.reverse_cons, List.append_assoc,
      List.singleton_append]
  · rintro ⟨before, after, rfl, hnone⟩
    refine ⟨after.reverse, before.reverse, ?_, fun v hv => hnone v (List.mem_reverse.1 hv)⟩
    rw [List.reverse_append, List.reverse_cons, List.append_assoc, List.singleton_append]

theorem forall_mem_ofPairs {p : α → Prop} {pairs : List (String × α)} (h : ∀ entry ∈ pairs, p entry.2) :
    ∀ entry ∈ ofPairs pairs, p entry.2 := by
  suffices ∀ m : KeyMap α, (∀ entry ∈ m, p entry.2) →
      ∀ entry ∈ pairs.foldl (fun m entry => put m entry.1 entry.2) m, p entry.2 from this [] nofun
  induction pairs with
  | nil => exact fun _ hm => hm
  | cons entry rest ih =>
    intro m hm
    refine ih (fun e he => h e (List.mem_cons_of_mem entry he)) _ fun e he => ?_
    rcases mem_put he with rfl | hold
    · exact h entry List.mem_cons_self
    · exact hm e hold

namespace Sorted

theorem get?_of_lt (h : Sorted (entry :: m)) (hlt : k < entry.1) :
    get? (entry :: m) k = none := by
  refine get?_eq_none fun hmem => ?_
  rcases List.mem_cons.1 hmem with rfl | hmem
  · exact lt_irrefl _ hlt
  · exact lt_asymm hlt ((sorted_cons.1 h).1 k hmem)

theorem get?_rest (h : Sorted (entry :: m)) : get? m entry.1 = none :=
  get?_eq_none fun hmem => lt_irrefl _ ((sorted_cons.1 h).1 _ hmem)

/-- A map is known by its look-ups. -/
theorem ext (h : Sorted m) (h' : Sorted m') (heq : ∀ k, get? m k = get? m' k) : m = m' := by
  induction m generalizing m' with
  | nil =>
    cases m' with
    | nil => rfl
    | cons entry' rest' => simpa [get?] using heq entry'.1
  | cons entry rest ih =>
    cases m' with
    | nil => simpa [get?] using heq entry.1
    | cons entry' rest' =>
      -- either first key is found in the other map, so neither is below the other
      have hkey : entry.1 = entry'.1 := by
        rcases lt_trichotomy entry.1 entry'.1 with hlt | hsame | hlt
        · simpa [get?] using (heq entry.1).trans (h'.get?_of_lt hlt)
        · exact hsame
        · simpa [get?] using (heq entry'.1).symm.trans (h.get?_of_lt hlt)
      have hvalue : entry.2 = entry'.2 := by simpa [get?, hkey] using heq entry.1
      obtain rfl : entry = entry' := Prod.ext hkey hvalue
      have hrest : rest = rest' := ih (sorted_cons.1 h).2 (sorted_cons.1 h').2 fun k => by
        by_cases hk : entry.1 = k
        · rw [← hk, h.get?_rest, h'.get?_rest]
        · simpa [get?, hk] using heq k
      rw [hrest]

theorem ofPairs_eq (h : Sorted m) : ofPairs m = m :=
  (sorted_ofPairs m).ext h fun k => by rw [get?_ofPairs, get?_reverse h.nodup]

theorem map (h : Sorted m) (f : α → β) : Sorted (m.map fun entry => (entry.1, f entry.2)) := by
  have hkeys : keys (m.map fun entry => (entry.1, f entry.2)) = keys m := by simp [keys]
  unfold Sorted at h ⊢
  rwa [hkeys]

end Sorted

end Entitle.KeyMap
