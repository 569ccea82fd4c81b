import Entitle.Text.Base64
import Entitle.Text.PercentEncoding
import Entitle.Proofs.Text.Utf8
import Mathlib.Logic.Function.Basic

/-!
# Encodings tell bytes apart

A percent-encoded text stands for one text only (`PercentEncoding.encode_injective`) and is one segment of a path
(`PercentEncoding.isSegment_encode`). Base 64 can be read back (`Base64.decodeBytes_encodeBytes`).
-/

namespace Entitle.Text

/-- If every symbol can be cut off the front, lists of symbols can be told apart. -/
theorem flatMap_injective {α β : Type} {f : α → List β} (hne : ∀ x, f x ≠ [])
    (hcut : ∀ x y r s, f x ++ r = f y ++ s → x = y ∧ r = s) : Function.Injective (List.flatMap f) := by
  intro xs
  induction xs with
  | nil =>
    intro ys h
    cases ys with
    | nil => rfl
    | cons y ys => exact absurd (List.append_eq_nil_iff.1 h.symm).1 (hne y)
  | cons x xs ih =>
    intro ys h
    cases ys with
    | nil => exact absurd (List.append_eq_nil_iff.1 h).1 (hne x)
    | cons y ys =>
      obtain ⟨rfl, hrest⟩ := hcut x y _ _ h
      rw [ih hrest]

namespace PercentEncoding

theorem digit_injective : ∀ m < 16, ∀ n < 16, digit m = digit n → m = n := by decide

theorem toNat_unreserved {b : UInt8} (h : isUnreserved b) :
    (Char.ofNat b.toNat).toNat = b.toNat ∧ b.toNat ≠ 32 ∧ b.toNat ≠ 37 ∧ b.toNat ≠ 47 := by
  simp only [isUnreserved, Bool.or_eq_true, Bool.and_eq_true, decide_eq_true_eq, UInt8.le_iff_toNat_le,
    ← UInt8.toNat_inj, UInt8.reduceToNat] at h
  refine ⟨?_, by omega, by omega, by omega⟩
  rw [Char.ofNat, dif_pos (.inl (by omega))]
  rfl

theorem encodeByte_ne_nil (b : UInt8) : encodeByte b ≠ [] := by
  unfold encodeByte
  split <;> exact List.cons_ne_nil _ _

/-- The byte that a percent sign stands for is not one that stands for itself. -/
theorem encodeByte_cut (b c : UInt8) (r s : List Char) (h : encodeByte b ++ r = encodeByte c ++ s) : b = c ∧ r = s := by
  have hpercent : ∀ x : UInt8, isUnreserved x → Char.ofNat x.toNat ≠ '%' := fun x hx heq => by
    obtain ⟨hchar, -, hne, -⟩ := toNat_unreserved hx
    rw [heq] at hchar
    exact hne hchar.symm
  have hb := b.toNat_lt
  have hc := c.toNat_lt
  unfold encodeByte at h
  split at h <;> split at h
  · next hx hy =>
    obtain ⟨hchar, hrest⟩ := List.cons.inj h
    have hnat : b.toNat = c.toNat := by
      rw [← (toNat_unreserved hx).1, hchar, (toNat_unreserved hy).1]
    exact ⟨UInt8.toNat_inj.1 hnat, hrest⟩
  · next hx _ => exact absurd (List.cons.inj h).1 (hpercent b hx)
  · next _ hy => exact absurd (List.cons.inj h).1.symm (hpercent c hy)
  · obtain ⟨-, h⟩ := List.cons.inj h
    obtain ⟨hhigh, h⟩ := List.cons.inj h
    obtain ⟨hlow, hrest⟩ := List.cons.inj h
    have hhigh := digit_injective _ (by omega) _ (by omega) hhigh
    have hlow := digit_injective _ (by omega) _ (by omega) hlow
    exact ⟨UInt8.toNat_inj.1 (by omega), hrest⟩

theorem encode_injective : Function.Injective encode := fun _ _ h =>
  utf8_injective (flatMap_injective encodeByte_ne_nil encodeByte_cut (String.ofList_injective h))

/-- A character of a path segment: it neither ends the segment nor the path. -/
def IsSegmentChar (c : Char) : Prop :=
  c ≠ '/' ∧ c ≠ ' '

instance (c : Char) : Decidable (IsSegmentChar c) :=
  inferInstanceAs (Decidable (_ ∧ _))

theorem isSegmentChar_digit : ∀ n < 16, IsSegmentChar (digit n) := by decide

theorem isSegmentChar_encodeByte {b : UInt8} {c : Char} (h : c ∈ encodeByte b) : IsSegmentChar c := by
  have hb := b.toNat_lt
  unfold encodeByte at h
  split at h
  · next hx =>
    obtain ⟨hchar, hblank, -, hslash⟩ := toNat_unreserved hx
    rw [List.mem_singleton.1 h]
    refine ⟨fun heq => hslash ?_, fun heq => hblank ?_⟩
    · rw [← hchar, heq]
      rfl
    · rw [← hchar, heq]
      rfl
  · simp only [List.mem_cons, List.not_mem_nil, or_false] at h
    rcases h with rfl | rfl | rfl
    · decide
    · exact isSegmentChar_digit _ (by omega)
    · exact isSegmentChar_digit _ (by omega)

theorem isSegment_encode (s : String) : ∀ c ∈ (encode s).toList, IsSegmentChar c := by
  intro c hc
  rw [encode, String.toList_ofList, encodeBytes, List.mem_flatMap] at hc
  obtain ⟨b, -, hb⟩ := hc
  exact isSegmentChar_encodeByte hb

end PercentEncoding

namespace Base64

/-- The number of a digit; of any other character 64. -/
def value (c : Char) : Nat :=
  ((List.range 64).find? fun n => digit n = c).getD 64

theorem value_digit : ∀ n < 64, value (digit n) = n := by decide +kernel

theorem digit_ne_pad : ∀ n < 64, digit n ≠ '=' := by decide

/-- Bytes from four digits at a time. -/
def decodeBytes : List Char → Bytes
  | d₁ :: d₂ :: d₃ :: d₄ :: rest =>
    let a := (value d₁ * 4 + value d₂ / 16).toUInt8
    let b := (value d₂ % 16 * 16 + value d₃ / 4).toUInt8
    let c := (value d₃ % 4 * 64 + value d₄).toUInt8
    if d₃ = '=' then [a] else if d₄ = '=' then [a, b] else a :: b :: c :: decodeBytes rest
  | _ => []

theorem decodeBytes_encodeBytes (bytes : Bytes) : decodeBytes (encodeBytes bytes) = bytes := by
  have hbyte : ∀ (x : UInt8) (n : Nat), n = x.toNat → n.toUInt8 = x := fun x n h => by rw [h]; simp
  induction bytes using encodeBytes.induct with
  | case1 => rfl
  | case2 a =>
    have ha := a.toNat_lt
    simp only [encodeBytes, decodeBytes, if_true]
    rw [value_digit _ (by omega), value_digit _ (by omega), hbyte a _ (by omega)]
  | case3 a b =>
    have ha := a.toNat_lt
    have hb := b.toNat_lt
    simp only [encodeBytes, decodeBytes, if_true]
    rw [if_neg (digit_ne_pad _ (by omega)), value_digit _ (by omega), value_digit _ (by omega),
      value_digit _ (by omega), hbyte a _ (by omega), hbyte b _ (by omega)]
  | case4 a b c rest ih =>
    have ha := a.toNat_lt
    have hb := b.toNat_lt
    have hc := c.toNat_lt
    simp only [encodeBytes, decodeBytes, ih]
    rw [if_neg (digit_ne_pad _ (by omega)), if_neg (digit_ne_pad _ (by omega)), value_digit _ (by omega),
      value_digit _ (by omega), value_digit _ (by omega), value_digit _ (by omega), hbyte a _ (by omega),
      hbyte b _ (by omega), hbyte c _ (by omega)]

theorem encode_injective : Function.Injective encode := fun _ _ h =>
  Function.LeftInverse.injective decodeBytes_encodeBytes (String.ofList_injective h)

end Base64

end Entitle.Text
