import Entitle.Text.Utf8

/-!
# Where UTF-8 can be cut

`Text.IsUtf8`: the bytes are those of some characters. Main statement: around a whole character both sides
are UTF-8 if all of it is (`isUtf8_around`), since no character begins inside another.
-/

namespace Entitle.Text
open String (utf8EncodeChar)

/-- The UTF-8 bytes of characters. -/
def bytesOf (cs : List Char) : Bytes :=
  cs.flatMap utf8EncodeChar

@[simp] theorem bytesOf_nil : bytesOf [] = [] := rfl

@[simp] theorem bytesOf_cons (c : Char) (cs : List Char) : bytesOf (c :: cs) = utf8EncodeChar c ++ bytesOf cs := rfl

@[simp] theorem bytesOf_append (cs ds : List Char) : bytesOf (cs ++ ds) = bytesOf cs ++ bytesOf ds :=
  List.flatMap_append

theorem utf8_ofList (cs : List Char) : utf8 (String.ofList cs) = bytesOf cs := by
  simp [utf8, bytesOf, List.utf8Encode]

theorem utf8_eq_bytesOf (s : String) : utf8 s = bytesOf s.toList := by
  rw [← utf8_ofList, String.ofList_toList]

theorem utf8_injective : Function.Injective utf8 := fun s t h => by
  have hs : ofUtf8? (utf8 s) = some s := ofUtf8?_utf8 s
  rw [h, ofUtf8?_utf8] at hs
  exact (Option.some.inj hs).symm

/-! ### One character -/

theorem utf8EncodeChar_ascii {c : Char} (h : c.toNat < 128) : utf8EncodeChar c = [c.toNat.toUInt8] := by
  have hle : c.val.toNat ≤ 0x7f := Nat.le_of_lt_succ h
  simp only [utf8EncodeChar, if_pos hle]
  rfl

theorem exists_char_of_ascii {x : UInt8} (hx : x < 0x80) : ∃ c, [x] = utf8EncodeChar c := by
  have hlt : x.toNat < 128 := hx
  have hn : (Char.ofNat x.toNat).toNat = x.toNat := by
    rw [Char.ofNat, dif_pos (.inl (by omega))]
    rfl
  refine ⟨Char.ofNat x.toNat, ?_⟩
  rw [utf8EncodeChar_ascii (by omega), hn]
  simp

theorem le_of_mem_utf8EncodeChar {c : Char} (h : 128 ≤ c.toNat) {b : UInt8} (hb : b ∈ utf8EncodeChar c) :
    128 ≤ b.toNat := by
  have hlt : ¬ c.val.toNat ≤ 0x7f := Nat.not_le.2 h
  simp only [utf8EncodeChar, if_neg hlt] at hb
  split at hb
  · simp only [List.mem_cons, List.not_mem_nil, or_false] at hb
    rcases hb with rfl | rfl <;> simp only [UInt8.toNat_ofNat'] <;> omega
  · split at hb
    · simp only [List.mem_cons, List.not_mem_nil, or_false] at hb
      rcases hb with rfl | rfl | rfl <;> simp only [UInt8.toNat_ofNat'] <;> omega
    · simp only [List.mem_cons, List.not_mem_nil, or_false] at hb
      rcases hb with rfl | rfl | rfl | rfl <;> simp only [UInt8.toNat_ofNat'] <;> omega

theorem utf8EncodeChar_append_inj {c d : Char} {a b : Bytes} (h : utf8EncodeChar c ++ a = utf8EncodeChar d ++ b) :
    c = d ∧ a = b := by
  have hc := ByteArray.utf8DecodeChar?_utf8EncodeChar_append (b := a.toByteArray) (c := c)
  have hd := ByteArray.utf8DecodeChar?_utf8EncodeChar_append (b := b.toByteArray) (c := d)
  rw [← List.toByteArray_append, h, List.toByteArray_append, hd] at hc
  obtain rfl := Option.some.inj hc
  exact ⟨rfl, List.append_cancel_left h⟩

/-- No character begins inside another. -/
theorem not_begins_inside {c d : Char} {a a' b r : Bytes} (ha : a ≠ []) (ha' : a' ≠ [])
    (hd : utf8EncodeChar d = a ++ a') : utf8EncodeChar c ++ b ≠ a' ++ r := by
  obtain ⟨x, xs, hc⟩ := List.exists_cons_of_ne_nil (String.utf8EncodeChar_ne_nil (c := c))
  obtain ⟨y, ys, rfl⟩ := List.exists_cons_of_ne_nil ha'
  have hfirst : x.IsUTF8FirstByte := by
    have := UInt8.isUTF8FirstByte_getElem_zero_utf8EncodeChar (c := c)
    simpa only [hc, List.getElem_cons_zero] using this
  have hinside : ¬ y.IsUTF8FirstByte := by
    have hi : a.length < (utf8EncodeChar d).length := by simp [hd]
    have := @UInt8.isUTF8FirstByte_getElem_utf8EncodeChar d a.length hi
    simpa [hd, ha] using this
  intro h
  rw [hc, List.cons_append, List.cons_append, List.cons.injEq] at h
  exact hinside (h.1 ▸ hfirst)

/-! ### Texts -/

/-- The bytes are the UTF-8 of a text. -/
def IsUtf8 (bytes : Bytes) : Prop :=
  ∃ cs, bytes = bytesOf cs

theorem isUtf8_iff {bytes : Bytes} : IsUtf8 bytes ↔ ∃ s, ofUtf8? bytes = some s := by
  constructor
  · rintro ⟨cs, rfl⟩
    exact ⟨String.ofList cs, ofUtf8?_eq_some_iff.2 (utf8_ofList cs).symm⟩
  · rintro ⟨s, hs⟩
    exact ⟨s.toList, by rw [ofUtf8?_eq_some_iff.1 hs, utf8_eq_bytesOf]⟩

theorem isUtf8_nil : IsUtf8 [] := ⟨[], rfl⟩

theorem isUtf8_char (c : Char) : IsUtf8 (utf8EncodeChar c) := ⟨[c], by simp⟩

theorem IsUtf8.append {a b : Bytes} (ha : IsUtf8 a) (hb : IsUtf8 b) : IsUtf8 (a ++ b) := by
  obtain ⟨cs, rfl⟩ := ha
  obtain ⟨ds, rfl⟩ := hb
  exact ⟨cs ++ ds, (bytesOf_append cs ds).symm⟩

/-- Around a whole character both sides are UTF-8 if all of it is. -/
theorem isUtf8_around {a b : Bytes} {c : Char} : IsUtf8 (a ++ (utf8EncodeChar c ++ b)) ↔ IsUtf8 a ∧ IsUtf8 b := by
  constructor
  · rintro ⟨cs, h⟩
    induction cs generalizing a with
    | nil => simp [String.utf8EncodeChar_ne_nil] at h
    | cons d ds ih =>
      rw [bytesOf_cons] at h
      rcases List.append_eq_append_iff.1 h with ⟨a', hd, hr⟩ | ⟨a', rfl, hr⟩
      · -- the first character of the text reaches at least to where `c` begins
        by_cases ha : a = []
        · subst ha
          obtain ⟨rfl, rfl⟩ := utf8EncodeChar_append_inj h
          exact ⟨isUtf8_nil, ds, rfl⟩
        · by_cases ha' : a' = []
          · subst ha'
            rw [List.append_nil] at hd
            exact ⟨hd ▸ isUtf8_char d, (ih (a := []) hr).2⟩
          · exact absurd hr (not_begins_inside ha ha' hd)
      · obtain ⟨ha, hb⟩ := ih hr.symm
        exact ⟨(isUtf8_char d).append ha, hb⟩
  · rintro ⟨ha, hb⟩
    exact ha.append ((isUtf8_char c).append hb)

theorem isUtf8_around_ascii {a b : Bytes} {x : UInt8} (hx : x < 0x80) : IsUtf8 (a ++ x :: b) ↔ IsUtf8 a ∧ IsUtf8 b := by
  obtain ⟨c, hc⟩ := exists_char_of_ascii hx
  rw [← isUtf8_around (c := c), ← hc]
  rfl

theorem isUtf8_append_ascii {a b : Bytes} (ha : ∀ x ∈ a, x < 0x80) : IsUtf8 (a ++ b) ↔ IsUtf8 b := by
  induction a with
  | nil => rfl
  | cons x rest ih =>
    rw [List.cons_append, ← List.nil_append (x :: _), isUtf8_around_ascii (ha x List.mem_cons_self),
      ih fun y hy => ha y (List.mem_cons_of_mem _ hy)]
    exact and_iff_right isUtf8_nil

end Entitle.Text
