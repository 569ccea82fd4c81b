import Entitle.Proofs.Json.RoundTrip
import Entitle.Proofs.KeyMap

/-!
# One text for one value

`Json.Exact`: there is no double in the value. The text of such a value tells where it ends, so different values have
different texts (`Exact.eq_of_render`). In canonical form every member is the last of its key (`member?_canonical`).
-/

namespace Entitle.Json

/-- There is no double in the value, at any depth. -/
inductive Exact : Json → Prop where
  | null : Exact .null
  | bool (b : Bool) : Exact (.bool b)
  | int (n : Int) : Exact (.int n)
  | string (s : String) : Exact (.string s)
  | array {items : List Json} (h : ∀ item ∈ items, Exact item) : Exact (.array items)
  | object {members : List (String × Json)} (h : ∀ member ∈ members, Exact member.2) : Exact (.object members)

attribute [simp] Exact.null Exact.bool Exact.int Exact.string

@[simp] theorem exact_array {items : List Json} : Exact (.array items) ↔ ∀ item ∈ items, Exact item :=
  ⟨fun h => by cases h; assumption, .array⟩

@[simp] theorem exact_object {members : List (String × Json)} :
    Exact (.object members) ↔ ∀ member ∈ members, Exact member.2 :=
  ⟨fun h => by cases h; assumption, .object⟩

/-- What is next cannot go on with a number. -/
def Delimited (cs : List Char) : Prop :=
  ∀ c ∈ cs.head?, ¬ c.isDigit

/-- Texts of the two with something behind them are equal only if they are. -/
def Apart {α : Type} (f : α → List Char) (x y : α) : Prop :=
  ∀ r s, Delimited r → Delimited s → f x ++ r = f y ++ s → x = y ∧ r = s

/-! ### Strings and numbers -/

theorem stringChars_cut {s t : String} {r r' : List Char} (h : stringChars s ++ r = stringChars t ++ r') :
    s = t ∧ r = r' := by
  have hread : textValue (Text.bytesOf (stringChars s ++ r)) = .ok (s, Text.bytesOf r) := by
    rw [Text.bytesOf_append, textValue_stringChars]
  rw [h, Text.bytesOf_append, textValue_stringChars] at hread
  obtain rfl : t = s := (Prod.mk.inj (Except.ok.inj hread)).1
  exact ⟨rfl, List.append_cancel_left h⟩

theorem takeWhile_isDigit {digits r : List Char} (h : ∀ c ∈ digits, c.isDigit) (hr : Delimited r) :
    (digits ++ r).takeWhile Char.isDigit = digits := by
  rw [List.takeWhile_append_of_pos h]
  cases r with
  | nil => simp
  | cons c r => simp [hr c rfl]

theorem toDigits_cut {m n : Nat} {r s : List Char} (hr : Delimited r) (hs : Delimited s)
    (h : Nat.toDigits 10 m ++ r = Nat.toDigits 10 n ++ s) : m = n ∧ r = s := by
  have hdigits : ∀ k, ∀ c ∈ Nat.toDigits 10 k, c.isDigit := fun k c hc =>
    Nat.isDigit_of_mem_toDigits (by decide) (by decide) hc
  have hsame : Nat.toDigits 10 m = Nat.toDigits 10 n := by
    rw [← takeWhile_isDigit (hdigits m) hr, h, takeWhile_isDigit (hdigits n) hs]
  have hnat : m = n := by
    rw [← Nat.ofDigitChars_ten_toDigits (n := m), hsame, Nat.ofDigitChars_ten_toDigits]
  subst hnat
  exact ⟨rfl, List.append_cancel_left h⟩

theorem intChars_of_nonneg {n : Int} (h : 0 ≤ n) : intChars n = Nat.toDigits 10 n.natAbs := by
  rw [intChars, if_neg (by omega), List.nil_append]

theorem intChars_of_neg {n : Int} (h : n < 0) : intChars n = '-' :: Nat.toDigits 10 n.natAbs := by
  rw [intChars, if_pos h]
  rfl

theorem toDigits_eq_cons (n : Nat) : ∃ c cs, Nat.toDigits 10 n = c :: cs ∧ c.isDigit := by
  obtain ⟨c, cs, h⟩ := List.exists_cons_of_ne_nil (Nat.toDigits_ne_nil (n := n) (b := 10))
  exact ⟨c, cs, h, Nat.isDigit_of_mem_toDigits (by decide) (by decide) (h ▸ List.mem_cons_self)⟩

theorem intChars_cut {m n : Int} {r s : List Char} (hr : Delimited r) (hs : Delimited s)
    (h : intChars m ++ r = intChars n ++ s) : m = n ∧ r = s := by
  have hsign : ∀ (k : Nat) cs ds, Nat.toDigits 10 k ++ cs ≠ '-' :: ds := fun k cs ds heq => by
    obtain ⟨c, _, hk, hdigit⟩ := toDigits_eq_cons k
    rw [hk] at heq
    rw [(List.cons.inj heq).1] at hdigit
    exact absurd hdigit (by decide)
  rcases lt_or_ge m 0 with hm | hm <;> rcases lt_or_ge n 0 with hn | hn
  · rw [intChars_of_neg hm, intChars_of_neg hn] at h
    obtain ⟨habs, hrest⟩ := toDigits_cut hr hs (List.cons.inj h).2
    exact ⟨by omega, hrest⟩
  · rw [intChars_of_neg hm, intChars_of_nonneg hn] at h
    exact absurd h.symm (hsign _ _ _)
  · rw [intChars_of_nonneg hm, intChars_of_neg hn] at h
    exact absurd h (hsign _ _ _)
  · rw [intChars_of_nonneg hm, intChars_of_nonneg hn] at h
    obtain ⟨habs, hrest⟩ := toDigits_cut hr hs h
    exact ⟨by omega, hrest⟩

/-! ### Lists -/

section
variable {α : Type} {f : α → List Char}

/-- Texts with commas between them. -/
def joined (f : α → List Char) : List α → List Char
  | [] => []
  | x :: rest => f x ++ rest.flatMap fun y => ',' :: f y

theorem itemChars_eq_joined (items : List Json) : itemChars items = joined chars items := by
  cases items with
  | nil => rfl
  | cons item rest => exact itemChars_cons item rest

/-- A member. -/
def memberText (member : String × Json) : List Char :=
  stringChars member.1 ++ ':' :: chars member.2

theorem memberChars_eq_joined (members : List (String × Json)) : memberChars members = joined memberText members := by
  cases members with
  | nil => rfl
  | cons member rest =>
    induction rest generalizing member with
    | nil => simp [memberChars, joined, memberText]
    | cons next rest ih =>
      simp only [memberChars, ih, joined, memberText, List.flatMap_cons, List.append_assoc, List.cons_append]

/-- The end of a list can neither be a comma nor go on with a number, nor begin an item. -/
theorem flatMap_cut {xs ys : List α} {z : Char} {r s : List Char} (hz : z ≠ ',') (hdigit : ¬ z.isDigit)
    (hapart : ∀ x ∈ xs, ∀ y ∈ ys, Apart f x y)
    (h : xs.flatMap (fun x => ',' :: f x) ++ z :: r = ys.flatMap (fun y => ',' :: f y) ++ z :: s) :
    xs = ys ∧ r = s := by
  have hdelimited : ∀ (us : List α) t, Delimited (us.flatMap (fun u => ',' :: f u) ++ z :: t) := fun us t => by
    cases us with
    | nil => simpa [Delimited] using hdigit
    | cons u us => simp [Delimited]
  induction xs generalizing ys with
  | nil =>
    cases ys with
    | nil => exact ⟨rfl, (List.cons.inj h).2⟩
    | cons y ys => exact absurd (List.cons.inj h).1 hz
  | cons x xs ih =>
    cases ys with
    | nil => exact absurd (List.cons.inj h).1.symm hz
    | cons y ys =>
      rw [List.flatMap_cons, List.flatMap_cons, List.cons_append, List.cons_append, List.cons_append, List.cons_append,
        List.append_assoc, List.append_assoc] at h
      obtain ⟨rfl, hrest⟩ := hapart x List.mem_cons_self y List.mem_cons_self _ _ (hdelimited xs r) (hdelimited ys s)
        (List.cons.inj h).2
      have hlater : ∀ u ∈ xs, ∀ v ∈ ys, Apart f u v := fun u hu v hv =>
        hapart u (List.mem_cons_of_mem _ hu) v (List.mem_cons_of_mem _ hv)
      obtain ⟨rfl, hend⟩ := ih hlater hrest
      exact ⟨rfl, hend⟩

theorem joined_cut {xs ys : List α} {z : Char} {r s : List Char} (hz : z ≠ ',') (hdigit : ¬ z.isDigit)
    (hapart : ∀ x ∈ xs, ∀ y ∈ ys, Apart f x y) (hx : ∀ x ∈ xs, ∀ t u, f x ++ t ≠ z :: u)
    (hy : ∀ y ∈ ys, ∀ t u, f y ++ t ≠ z :: u) (h : joined f xs ++ z :: r = joined f ys ++ z :: s) :
    xs = ys ∧ r = s := by
  cases xs with
  | nil =>
    cases ys with
    | nil => exact ⟨rfl, (List.cons.inj h).2⟩
    | cons y ys =>
      rw [joined, joined, List.append_assoc] at h
      exact absurd h.symm (hy y List.mem_cons_self _ _)
  | cons x xs =>
    cases ys with
    | nil =>
      rw [joined, joined, List.append_assoc] at h
      exact absurd h (hx x List.mem_cons_self _ _)
    | cons y ys =>
      -- a comma in front makes all items alike
      refine flatMap_cut hz hdigit hapart ?_
      simpa only [joined, List.flatMap_cons, List.cons_append, List.append_assoc] using congrArg (',' :: ·) h

end

/-! ### Values -/

/-- What kind of value a character begins. -/
def kindOf (c : Char) : Nat :=
  if c = 'n' then 0 else if c = 't' ∨ c = 'f' then 1 else if c = '-' ∨ c.isDigit then 2
  else if c = '"' then 4 else if c = '[' then 5 else if c = '\x7b' then 6 else 7

variable {v w : Json}

theorem kindOf_intChars (n : Int) : ∃ c cs, intChars n = c :: cs ∧ kindOf c = 2 := by
  obtain ⟨c, cs, hcs, hdigit⟩ := toDigits_eq_cons n.natAbs
  rcases lt_or_ge n 0 with hn | hn
  · exact ⟨'-', _, intChars_of_neg hn, rfl⟩
  · refine ⟨c, cs, (intChars_of_nonneg hn).trans hcs, ?_⟩
    have hne : ∀ x : Char, x.isDigit = false → c ≠ x := fun x hx heq => by simp [heq, hx] at hdigit
    simp [kindOf, hdigit, hne 'n' rfl, hne 't' rfl, hne 'f' rfl]

theorem Exact.kindOf_chars (hv : Exact v) : ∃ c cs, v.chars = c :: cs ∧ kindOf c = v.ctorIdx := by
  cases hv with
  | bool b => cases b <;> exact ⟨_, _, rfl, rfl⟩
  | int n => exact kindOf_intChars n
  | _ => exact ⟨_, _, rfl, rfl⟩

theorem Exact.ctorIdx_eq (hv : Exact v) (hw : Exact w) {r s : List Char} (h : v.chars ++ r = w.chars ++ s) :
    v.ctorIdx = w.ctorIdx := by
  obtain ⟨c, cs, hc, hkind⟩ := hv.kindOf_chars
  obtain ⟨d, ds, hd, hkind'⟩ := hw.kindOf_chars
  rw [hc, hd] at h
  rw [← hkind, ← hkind', (List.cons.inj h).1]

theorem Exact.ne_close (hv : Exact v) {z : Char} (hz : kindOf z = 7) (r s : List Char) : v.chars ++ r ≠ z :: s := by
  obtain ⟨c, cs, hc, hkind⟩ := hv.kindOf_chars
  intro h
  rw [hc] at h
  rw [(List.cons.inj h).1, hz] at hkind
  cases hv <;> cases hkind

theorem memberText_apart {x y : String × Json} (h : Apart chars x.2 y.2) : Apart memberText x y := by
  intro r s hr hs heq
  simp only [memberText, List.append_assoc, List.cons_append] at heq
  obtain ⟨hkey, hrest⟩ := stringChars_cut heq
  obtain ⟨hvalue, hend⟩ := h r s hr hs (List.cons.inj hrest).2
  exact ⟨Prod.ext hkey hvalue, hend⟩

/-- The text of a value tells where it ends. -/
theorem Exact.apart (hv : Exact v) (hw : Exact w) : Apart chars v w := by
  induction hv generalizing w with
  | null =>
    intro r s _ _ h
    have hkind := Exact.null.ctorIdx_eq hw h
    cases hw with
    | null => exact ⟨rfl, List.append_cancel_left h⟩
    | _ => cases hkind
  | bool b =>
    intro r s _ _ h
    have hkind := (Exact.bool b).ctorIdx_eq hw h
    cases hw with
    | bool c => cases b <;> cases c <;> simp_all [chars]
    | _ => cases hkind
  | int n =>
    intro r s hr hs h
    have hkind := (Exact.int n).ctorIdx_eq hw h
    cases hw with
    | int m =>
      obtain ⟨rfl, hrest⟩ := intChars_cut hr hs h
      exact ⟨rfl, hrest⟩
    | _ => cases hkind
  | string t =>
    intro r s _ _ h
    have hkind := (Exact.string t).ctorIdx_eq hw h
    cases hw with
    | string u =>
      obtain ⟨rfl, hrest⟩ := stringChars_cut h
      exact ⟨rfl, hrest⟩
    | _ => cases hkind
  | @array items hitems ih =>
    intro r s _ _ h
    have hkind := (Exact.array hitems).ctorIdx_eq hw h
    cases hw with
    | @array items' hitems' =>
      simp only [chars, itemChars_eq_joined, List.cons_append, List.append_assoc, List.nil_append] at h
      obtain ⟨rfl, hrest⟩ := joined_cut (by decide) (by decide) (fun x hx y hy => ih x hx (hitems' y hy))
        (fun x hx => (hitems x hx).ne_close rfl) (fun y hy => (hitems' y hy).ne_close rfl) (List.cons.inj h).2
      exact ⟨rfl, hrest⟩
    | _ => cases hkind
  | @object members hmembers ih =>
    intro r s _ _ h
    have hkind := (Exact.object hmembers).ctorIdx_eq hw h
    cases hw with
    | @object members' hmembers' =>
      simp only [chars, memberChars_eq_joined, List.cons_append, List.append_assoc, List.nil_append] at h
      have hquote : ∀ (x : String × Json) t u, memberText x ++ t ≠ '\x7d' :: u := fun x t u heq =>
        absurd (List.cons.inj heq).1 (by decide)
      obtain ⟨rfl, hrest⟩ := joined_cut (by decide) (by decide)
        (fun x hx y hy => memberText_apart (ih x hx (hmembers' y hy))) (fun x _ => hquote x) (fun y _ => hquote y)
        (List.cons.inj h).2
      exact ⟨rfl, hrest⟩
    | _ => cases hkind

theorem Exact.eq_of_render (hv : Exact v) (hw : Exact w) (h : v.render = w.render) : v = w := by
  have hchars : v.chars ++ [] = w.chars ++ [] := by rw [String.ofList_injective h]
  exact (hv.apart hw [] [] nofun nofun hchars).1

/-! ### Canonical form -/

theorem canonicalItems_eq_map (items : List Json) : canonicalItems items = items.map canonical := by
  induction items with
  | nil => rfl
  | cons item rest ih => rw [canonicalItems, ih, List.map_cons]

theorem canonicalMembers_eq_map (members : List (String × Json)) :
    canonicalMembers members = members.map fun member => (member.1, canonical member.2) := by
  induction members with
  | nil => rfl
  | cons member rest ih => rw [canonicalMembers, ih, List.map_cons]

theorem canonical_array (items : List Json) : canonical (.array items) = .array (items.map canonical) := by
  rw [canonical, canonicalItems_eq_map]

theorem canonical_object (members : List (String × Json)) :
    canonical (.object members) =
      .object (KeyMap.ofPairs (members.map fun member => (member.1, canonical member.2))) := by
  rw [canonical, canonicalMembers_eq_map, ofMembers]

theorem Exact.canonical (hv : Exact v) : Exact v.canonical := by
  induction hv with
  | array _ ih =>
    rw [canonical_array]
    refine .array fun item hitem => ?_
    obtain ⟨old, hold, rfl⟩ := List.mem_map.1 hitem
    exact ih old hold
  | object _ ih =>
    rw [canonical_object]
    refine .object (KeyMap.forall_mem_ofPairs fun member hmember => ?_)
    obtain ⟨old, hold, rfl⟩ := List.mem_map.1 hmember
    exact ih old hold
  | null => exact .null
  | bool b => exact .bool b
  | int n => exact .int n
  | string s => exact .string s

theorem member?_canonical {members : List (String × Json)} (h : (KeyMap.keys members).Nodup) (key : String) :
    (Json.canonical (.object members)).member? key = (KeyMap.get? members key).map Json.canonical := by
  have hkeys : KeyMap.keys (members.map fun member => (member.1, Json.canonical member.2)) = KeyMap.keys members := by
    simp [KeyMap.keys]
  rw [canonical_object, member?, KeyMap.get?_ofPairs, KeyMap.get?_reverse (hkeys ▸ h), KeyMap.get?_map]

/-- Objects without repeated keys have one canonical form only if their members have. -/
theorem get?_of_canonical_eq {members members' : List (String × Json)} (h : (KeyMap.keys members).Nodup)
    (h' : (KeyMap.keys members').Nodup)
    (heq : Json.canonical (.object members) = Json.canonical (.object members')) (key : String) :
    (KeyMap.get? members key).map Json.canonical = (KeyMap.get? members' key).map Json.canonical := by
  rw [← member?_canonical h, ← member?_canonical h', heq]

theorem canonical_texts (texts : List String) :
    canonical (.array (texts.map .string)) = .array (texts.map .string) := by
  rw [canonical_array, List.map_map]
  rfl

end Entitle.Json
