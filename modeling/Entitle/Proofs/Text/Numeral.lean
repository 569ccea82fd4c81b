import Entitle.Text.Blank
import Entitle.Text.Numeral
import Mathlib.Data.List.TakeWhile
import Mathlib.Data.String.Basic

/-!
# Whole numbers in texts

Main statements: `int64?_trimmed`. A text is read as a number if and only if it is one in decimal, whatever blanks are
around it, in the range of signed 64-bit numbers. `natural_eq_ok`: so it is with numbers that are not negative, up to
any bound and with no blanks.
-/

namespace Entitle.Text

/-! ### Blanks -/

theorem trimStart_cons {c : Char} {rest : List Char} (h : ¬ isBlank c) : trimStart (c :: rest) = c :: rest :=
  List.dropWhile_cons_of_neg h

theorem trimStart_eq_self {cs : List Char} (h : ∀ c ∈ cs, ¬ isBlank c) : trimStart cs = cs := by
  cases cs with
  | nil => rfl
  | cons c rest => exact trimStart_cons (h c List.mem_cons_self)

theorem trimStart_append {blanks rest : List Char} (h : ∀ c ∈ blanks, isBlank c) :
    trimStart (blanks ++ rest) = trimStart rest :=
  List.dropWhile_append_of_pos h

theorem exists_trimStart (cs : List Char) : ∃ blanks, cs = blanks ++ trimStart cs ∧ ∀ c ∈ blanks, isBlank c :=
  ⟨cs.takeWhile isBlank, List.takeWhile_append_dropWhile.symm, fun _ hc => List.mem_takeWhile_imp hc⟩

theorem exists_trim (cs : List Char) :
    ∃ front back, cs = front ++ trim cs ++ back ∧ ∀ c ∈ front ++ back, isBlank c := by
  obtain ⟨front, hfront, hblank⟩ := exists_trimStart cs
  obtain ⟨back, hback, hblank'⟩ := exists_trimStart (trimStart cs).reverse
  refine ⟨front, back.reverse, ?_, fun c hc => ?_⟩
  · rw [List.append_assoc, trim, ← List.reverse_append, ← hback, List.reverse_reverse]
    exact hfront
  · rcases List.mem_append.1 hc with hc | hc
    · exact hblank c hc
    · exact hblank' c (List.mem_reverse.1 hc)

/-- Blanks around make no difference to what trimming leaves. -/
theorem trim_surrounded {front cs back : List Char} (hblank : ∀ c ∈ front ++ back, isBlank c) :
    trim (front ++ cs ++ back) = trim cs := by
  have hback : ∀ c ∈ back.reverse, isBlank c := fun c hc => hblank c (List.mem_append_right _ (List.mem_reverse.1 hc))
  rw [trim, List.append_assoc, trimStart_append fun c hc => hblank c (List.mem_append_left _ hc), trim]
  by_cases hcs : trimStart cs = []
  · have hnone : trimStart (cs ++ back) = [] := by
      rw [trimStart_append (List.dropWhile_eq_nil_iff.1 hcs)]
      exact List.dropWhile_eq_nil_iff.2 fun c hc => hback c (List.mem_reverse.2 hc)
    rw [hnone, hcs]
  · have hfirst : trimStart (cs ++ back) = trimStart cs ++ back := by
      rw [trimStart, List.dropWhile_append, if_neg (by simpa [trimStart] using hcs), trimStart]
    rw [hfirst, List.reverse_append, trimStart_append hback]

theorem trim_eq_self {cs : List Char} (h : ∀ c ∈ cs, ¬ isBlank c) : trim cs = cs := by
  rw [trim, trimStart_eq_self h, trimStart_eq_self fun c hc => h c (List.mem_reverse.1 hc), List.reverse_reverse]

theorem trim_append {front cs back : List Char} (hblank : ∀ c ∈ front ++ back, isBlank c)
    (hcs : ∀ c ∈ cs, ¬ isBlank c) : trim (front ++ cs ++ back) = cs :=
  (trim_surrounded hblank).trans (trim_eq_self hcs)

namespace Numeral

/-! ### Digits -/

theorem valueFrom_eq_ofDigitChars (digits : List Char) (acc : Nat) :
    valueFrom acc digits = Nat.ofDigitChars 10 digits acc := by
  simp only [valueFrom, Nat.ofDigitChars, digitValue, Nat.mul_comm]
  rfl

theorem valueFrom_lt {digits : List Char} (h : ∀ c ∈ digits, isDigit c) (acc : Nat) :
    valueFrom acc digits < (acc + 1) * 10 ^ digits.length := by
  induction digits generalizing acc with
  | nil => simp [valueFrom]
  | cons c digits ih =>
    have hvalue : digitValue c < 10 := by
      have hc := h c List.mem_cons_self
      simp only [isDigit, Bool.and_eq_true, decide_eq_true_eq] at hc
      have hhigh : c.toNat ≤ 57 := hc.2
      unfold digitValue
      omega
    calc valueFrom acc (c :: digits)
      _ = valueFrom (acc * 10 + digitValue c) digits := rfl
      _ < (acc * 10 + digitValue c + 1) * 10 ^ digits.length := ih (fun d hd => h d (List.mem_cons_of_mem c hd)) _
      _ ≤ (acc + 1) * 10 * 10 ^ digits.length := Nat.mul_le_mul_right _ (by omega)
      _ = (acc + 1) * 10 ^ (c :: digits).length := by
        rw [List.length_cons, Nat.pow_succ, Nat.mul_assoc, Nat.mul_comm 10]

theorem le_valueFrom (acc : Nat) (digits : List Char) : acc ≤ valueFrom acc digits := by
  induction digits generalizing acc with
  | nil => exact Nat.le_refl acc
  | cons c digits ih => exact Nat.le_trans (by omega) (ih (acc * 10 + digitValue c))

theorem isDigit_iff (c : Char) : isDigit c ↔ c.isDigit := by
  simp only [isDigit, Char.isDigit, Bool.and_eq_true, decide_eq_true_eq]
  exact Iff.rfl

theorem not_isBlank_of_isDigit {c : Char} (h : isDigit c) : ¬ isBlank c ∧ c ≠ '-' ∧ c ≠ '+' := by
  have hall : ∀ n < 58, 48 ≤ n → ¬ isBlank (Char.ofNat n) ∧ Char.ofNat n ≠ '-' ∧ Char.ofNat n ≠ '+' := by decide
  simp only [isDigit, Bool.and_eq_true, decide_eq_true_eq] at h
  have hlow : 48 ≤ c.toNat := h.1
  have hhigh : c.toNat ≤ 57 := h.2
  simpa only [Char.ofNat_toNat] using hall c.toNat (by omega) hlow

/-- At least one digit, and nothing else. -/
def IsDigits (digits : List Char) : Prop :=
  digits ≠ [] ∧ ∀ c ∈ digits, c.isDigit

theorem IsDigits.ne_sign {c : Char} {rest : List Char} (h : IsDigits (c :: rest)) : c ≠ '-' ∧ c ≠ '+' :=
  (not_isBlank_of_isDigit ((isDigit_iff c).2 (h.2 c List.mem_cons_self))).2

/-! ### Numbers -/

/-- A number in decimal, a sign in front or none. -/
inductive IsInteger : List Char → Int → Prop where
  | unsigned {digits : List Char} (h : IsDigits digits) : IsInteger digits (Nat.ofDigitChars 10 digits 0)
  | plus {digits : List Char} (h : IsDigits digits) : IsInteger ('+' :: digits) (Nat.ofDigitChars 10 digits 0)
  | minus {digits : List Char} (h : IsDigits digits) : IsInteger ('-' :: digits) (-(Nat.ofDigitChars 10 digits 0 : Int))

/-- The range of signed 64-bit numbers. -/
def IsInt64 (n : Int) : Prop :=
  -9223372036854775808 ≤ n ∧ n ≤ 9223372036854775807

theorem IsInteger.not_isBlank {cs : List Char} {n : Int} (h : IsInteger cs n) : ∀ c ∈ cs, ¬ isBlank c := by
  have hdigits : ∀ {digits}, IsDigits digits → ∀ c ∈ digits, ¬ isBlank c := fun h c hc =>
    (not_isBlank_of_isDigit ((isDigit_iff c).2 (h.2 c hc))).1
  cases h with
  | unsigned h => exact hdigits h
  | plus h | minus h =>
    intro c hc
    rcases List.mem_cons.1 hc with rfl | hc
    · decide
    · exact hdigits h c hc

theorem read_eq_some {digits : List Char} {bound value : Nat} :
    int64?.read digits bound = some value ↔ IsDigits digits ∧ value = Nat.ofDigitChars 10 digits 0 ∧ value ≤ bound := by
  have hdigits : IsDigits digits ↔ ¬ (digits.isEmpty || !digits.all isDigit) = true := by
    simp [IsDigits, ← isDigit_iff]
  rw [int64?.read, hdigits, valueFrom_eq_ofDigitChars]
  split
  · next hnot => simp [hnot]
  · next hall =>
    simp only [hall, Option.ite_none_right_eq_some, Option.some.injEq, Bool.false_eq_true, not_false_eq_true, true_and]
    constructor
    · rintro ⟨hbound, rfl⟩
      exact ⟨rfl, hbound⟩
    · rintro ⟨rfl, hbound⟩
      exact ⟨hbound, rfl⟩

theorem int64?_eq_some {s : String} {n : Int} : int64? s = some n ↔ IsInteger s.toList n ∧ IsInt64 n := by
  have hnegate (r : Option Nat) : (r |>.map fun m => -(m : Int)) = r.map fun m : Nat => -(m : Int) := by
    cases r <;> rfl
  unfold int64?
  split
  · next digits hs =>
    simp only [hnegate, Option.map_eq_some_iff, read_eq_some, hs, IsInt64]
    constructor
    · rintro ⟨value, ⟨hdigits, rfl, hbound⟩, rfl⟩
      exact ⟨.minus hdigits, by omega⟩
    · rintro ⟨hinteger, hrange⟩
      cases hinteger with
      | unsigned h => exact absurd rfl h.ne_sign.1
      | minus h => exact ⟨_, ⟨h, rfl, by omega⟩, rfl⟩
  · next digits hs =>
    simp only [Option.map_eq_some_iff, read_eq_some, hs, IsInt64, Int.ofNat_eq_natCast]
    constructor
    · rintro ⟨value, ⟨hdigits, rfl, hbound⟩, rfl⟩
      exact ⟨.plus hdigits, by omega⟩
    · rintro ⟨hinteger, hrange⟩
      cases hinteger with
      | unsigned h => exact absurd rfl h.ne_sign.2
      | plus h => exact ⟨_, ⟨h, rfl, by omega⟩, rfl⟩
  · next hminus hplus =>
    simp only [Option.map_eq_some_iff, read_eq_some, IsInt64, Int.ofNat_eq_natCast]
    constructor
    · rintro ⟨value, ⟨hdigits, rfl, hbound⟩, rfl⟩
      exact ⟨.unsigned hdigits, by omega⟩
    · rintro ⟨hinteger, hrange⟩
      generalize s.toList = cs at *
      cases hinteger with
      | unsigned h => exact ⟨_, ⟨h, rfl, by omega⟩, rfl⟩
      | plus h => exact absurd rfl (hplus _)
      | minus h => exact absurd rfl (hminus _)

/-- A number in decimal that is not negative, a plus sign in front or none. -/
inductive IsNatural : List Char → Nat → Prop where
  | unsigned {digits : List Char} (h : IsDigits digits) : IsNatural digits (Nat.ofDigitChars 10 digits 0)
  | plus {digits : List Char} (h : IsDigits digits) : IsNatural ('+' :: digits) (Nat.ofDigitChars 10 digits 0)

theorem digitsUpTo_eq_ok {bound acc n : Nat} {digits : List Char} (hacc : acc ≤ bound) :
    digitsUpTo bound acc digits = .ok n ↔
      (∀ c ∈ digits, c.isDigit) ∧ n = Nat.ofDigitChars 10 digits acc ∧ n ≤ bound := by
  rw [← valueFrom_eq_ofDigitChars]
  induction digits generalizing acc with
  | nil =>
    simp only [digitsUpTo, Except.ok.injEq, List.not_mem_nil, false_implies, implies_true, true_and]
    exact ⟨fun h => h ▸ ⟨rfl, hacc⟩, fun h => h.1.symm⟩
  | cons c rest ih =>
    have hvalue : valueFrom acc (c :: rest) = valueFrom (acc * 10 + digitValue c) rest := rfl
    rw [digitsUpTo, hvalue, List.forall_mem_cons, ← isDigit_iff]
    by_cases hc : isDigit c
    · rw [if_pos hc]
      split
      · next hlarge =>
        -- The value only grows, so what is too large here is too large in the end.
        have hgrows := le_valueFrom (acc * 10 + digitValue c) rest
        simp only [reduceCtorEq, false_iff]
        omega
      · next hsmall => rw [ih (Nat.not_lt.1 hsmall), and_iff_right hc]
    · simp [hc]

theorem natural_eq_ok {bound n : Nat} {s : String} : natural bound s = .ok n ↔ IsNatural s.toList n ∧ n ≤ bound := by
  have hread (digits : List Char) (hne : digits ≠ []) : digitsUpTo bound 0 digits = .ok n ↔
      IsDigits digits ∧ n = Nat.ofDigitChars 10 digits 0 ∧ n ≤ bound := by
    rw [digitsUpTo_eq_ok (Nat.zero_le bound), IsDigits, and_iff_right hne]
  unfold natural
  split
  · next hs =>
    rw [hs]
    refine ⟨nofun, fun ⟨h, _⟩ => ?_⟩
    generalize hcs : ([] : List Char) = cs at h
    cases h with
    | unsigned h => exact absurd hcs.symm h.1
    | plus h => cases hcs
  · next hs =>
    rw [hs]
    refine ⟨nofun, fun ⟨h, _⟩ => ?_⟩
    cases h with
    | unsigned h => exact absurd rfl h.ne_sign.2
    | plus h => exact absurd rfl h.1
  · next digits hne hs =>
    rw [hread digits fun h => hne (h ▸ rfl), hs]
    constructor
    · rintro ⟨hdigits, rfl, hbound⟩
      exact ⟨.plus hdigits, hbound⟩
    · rintro ⟨hnatural, hbound⟩
      cases hnatural with
      | unsigned h => exact absurd rfl h.ne_sign.2
      | plus h => exact ⟨h, rfl, hbound⟩
  · next hnil _ hplus =>
    rw [hread _ hnil]
    constructor
    · rintro ⟨hdigits, rfl, hbound⟩
      exact ⟨.unsigned hdigits, hbound⟩
    · rintro ⟨hnatural, hbound⟩
      generalize s.toList = cs at *
      cases hnatural with
      | unsigned h => exact ⟨h, rfl, hbound⟩
      | plus h => exact absurd rfl (hplus _)

/-- A number in decimal, with any blanks around it. -/
def IsPaddedInteger (s : String) (n : Int) : Prop :=
  ∃ front cs back, s.toList = front ++ cs ++ back ∧ (∀ c ∈ front ++ back, isBlank c) ∧ IsInteger cs n

theorem int64?_trimmed {s : String} {n : Int} :
    int64? (trimmed s) = some n ↔ IsPaddedInteger s n ∧ IsInt64 n := by
  rw [int64?_eq_some, trimmed, String.toList_ofList, and_congr_left_iff]
  refine fun _ => ⟨fun hinteger => ?_, ?_⟩
  · obtain ⟨front, back, hs, hblank⟩ := exists_trim s.toList
    exact ⟨front, _, back, hs, hblank, hinteger⟩
  · rintro ⟨front, cs, back, hs, hblank, hinteger⟩
    rwa [hs, trim_append hblank hinteger.not_isBlank]

end Numeral

end Entitle.Text
