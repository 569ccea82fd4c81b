import Entitle.Json.Stored
import Entitle.Json.Writer
import Entitle.Proofs.Text.Utf8

/-!
# Written values read back

A text read from its own JSON string is itself, whatever characters it has (`textValue_stringChars`), and a list
of texts read from its JSON is that list (`readTexts_render`).
-/

namespace Entitle.Json
open String (utf8EncodeChar)
open Text (bytesOf bytesOf_nil bytesOf_cons bytesOf_append utf8EncodeChar_ascii)

/-! ### Strings -/

/-- A byte that stands for itself in a string. -/
def IsPlain (b : UInt8) : Prop :=
  b ≠ 0x22 ∧ b ≠ 0x5C ∧ ¬ b < 0x20

/-- Behind these bytes of a string, with enough fuel, the string goes on with `content` in front. -/
def Yields (bytes content : Bytes) : Prop :=
  ∀ rest fuel, (bytes ++ rest).length < fuel → ∃ fuel', rest.length < fuel' ∧
    stringBytes fuel (bytes ++ rest) = (stringBytes fuel' rest).map fun (more, r) => (content ++ more, r)

theorem yields_nil : Yields [] [] := fun rest fuel h =>
  ⟨fuel, h, by cases hs : stringBytes fuel rest <;> simp [hs, Except.map]⟩

theorem Yields.append {a b x y : Bytes} (ha : Yields a x) (hb : Yields b y) : Yields (a ++ b) (x ++ y) := by
  intro rest fuel hfuel
  rw [List.append_assoc] at hfuel ⊢
  obtain ⟨fuel₁, hfuel₁, h₁⟩ := ha (b ++ rest) fuel hfuel
  obtain ⟨fuel₂, hfuel₂, h₂⟩ := hb rest fuel₁ hfuel₁
  refine ⟨fuel₂, hfuel₂, ?_⟩
  rw [h₁, h₂]
  cases stringBytes fuel₂ rest <;> simp [Except.map]

theorem yields_plain {b : UInt8} (hb : IsPlain b) : Yields [b] [b] := by
  intro rest fuel hfuel
  obtain ⟨fuel, rfl⟩ : ∃ k, fuel = k + 1 := ⟨fuel - 1, by simp at hfuel; omega⟩
  refine ⟨fuel, by simpa using hfuel, ?_⟩
  simp only [List.cons_append, List.nil_append, stringBytes, hb.1, hb.2.1, hb.2.2, if_false]
  cases stringBytes fuel rest <;> rfl

theorem yields_of_forall_plain {bytes : Bytes} (h : ∀ b ∈ bytes, IsPlain b) : Yields bytes bytes := by
  induction bytes with
  | nil => exact yields_nil
  | cons b rest ih =>
    exact (yields_plain (h b List.mem_cons_self)).append (ih fun x hx => h x (List.mem_cons_of_mem b hx))

theorem yields_escaped {bytes content : Bytes} (h : ∀ rest, escaped (bytes ++ rest) = .ok (content, rest)) :
    Yields (0x5C :: bytes) content := by
  intro rest fuel hfuel
  obtain ⟨fuel, rfl⟩ : ∃ k, fuel = k + 1 := ⟨fuel - 1, by simp at hfuel; omega⟩
  refine ⟨fuel, by simp at hfuel; omega, ?_⟩
  have hquote : (0x5C : UInt8) ≠ 0x22 := by decide
  simp only [List.cons_append, stringBytes, hquote, if_false, if_true, h, bind, Except.bind]
  cases stringBytes fuel rest <;> rfl

theorem yields_simpleEscape {letter c : Char} (hletter : letter.toNat < 128) (hc : c.toNat < 128)
    (h : simpleEscape? letter.toNat.toUInt8 = some c.toNat.toUInt8) :
    Yields (bytesOf ['\\', letter]) (utf8EncodeChar c) := by
  have hbackslash : utf8EncodeChar '\\' = [0x5C] := by decide
  simp only [bytesOf_cons, bytesOf_nil, hbackslash, utf8EncodeChar_ascii hletter, utf8EncodeChar_ascii hc,
    List.cons_append, List.nil_append]
  refine yields_escaped fun rest => ?_
  simp only [List.cons_append, List.nil_append, escaped, h]

theorem hexValue_hexDigit {n : Nat} (h : n < 16) :
    (Text.hexDigit n).toNat < 128 ∧ Text.hexValue? (Char.ofUInt8 (Text.hexDigit n).toNat.toUInt8) = some n := by
  revert n
  decide

theorem yields_control {c : Char} (h : c.toNat < 0x20) :
    Yields (bytesOf ['\\', 'u', '0', '0', Text.hexDigit (c.toNat / 16), Text.hexDigit (c.toNat % 16)])
      (utf8EncodeChar c) := by
  obtain ⟨hhigh, hhigh'⟩ := hexValue_hexDigit (n := c.toNat / 16) (by omega)
  obtain ⟨hlow, hlow'⟩ := hexValue_hexDigit (n := c.toNat % 16) (by omega)
  have hbackslash : utf8EncodeChar '\\' = [0x5C] := by decide
  have hu : utf8EncodeChar 'u' = [0x75] := by decide
  have hzero : utf8EncodeChar '0' = [0x30] := by decide
  have hzero' : Text.hexValue? (Char.ofUInt8 0x30) = some 0 := by decide
  simp only [bytesOf_cons, bytesOf_nil, hbackslash, hu, hzero, utf8EncodeChar_ascii hhigh, utf8EncodeChar_ascii hlow,
    List.cons_append, List.nil_append]
  refine yields_escaped fun rest => ?_
  have hunit : ((0 * 16 + 0) * 16 + c.toNat / 16) * 16 + c.toNat % 16 = c.toNat := by omega
  have hletter : simpleEscape? 0x75 = none := by decide
  have hhex : hexUnit (0x30 :: 0x30 :: (Text.hexDigit (c.toNat / 16)).toNat.toUInt8 ::
      (Text.hexDigit (c.toNat % 16)).toNat.toUInt8 :: rest) = .ok (c.toNat, rest) := by
    simp only [hexUnit, hzero', hhigh', hlow', hunit]
  have hlow : ¬ (0xDC00 ≤ c.toNat ∧ c.toNat ≤ 0xDFFF) := by omega
  have hhigh : ¬ (0xD800 ≤ c.toNat ∧ c.toNat ≤ 0xDBFF) := by omega
  simp only [List.cons_append, List.nil_append, escaped, hletter, if_true, hhex, bind, Except.bind, hlow, hhigh,
    if_false, Char.ofNat_toNat]

theorem yields_unescaped {c : Char} (hquote : c ≠ '"') (hbackslash : c ≠ '\\') (hcontrol : ¬ c.toNat < 0x20) :
    Yields (utf8EncodeChar c) (utf8EncodeChar c) := by
  refine yields_of_forall_plain fun b hb => ?_
  by_cases hascii : c.toNat < 128
  · rw [utf8EncodeChar_ascii hascii, List.mem_singleton] at hb
    have hb : b.toNat = c.toNat := by rw [hb, Nat.toUInt8_eq, UInt8.toNat_ofNat']; omega
    refine ⟨fun h => hquote ?_, fun h => hbackslash ?_, fun h => hcontrol ?_⟩
    · subst h
      exact Char.toNat_inj.1 hb.symm
    · subst h
      exact Char.toNat_inj.1 hb.symm
    · exact hb ▸ h
  · have hb := Text.le_of_mem_utf8EncodeChar (by omega) hb
    refine ⟨?_, ?_, fun h => ?_⟩
    · rintro rfl
      exact absurd hb (by decide)
    · rintro rfl
      exact absurd hb (by decide)
    · have : b.toNat < 0x20 := h
      omega

theorem yields_escapeChar (c : Char) : Yields (bytesOf (escapeChar c)) (utf8EncodeChar c) := by
  have hsimple : ∀ letter, simpleEscape? (Char.toNat letter).toUInt8 = some c.toNat.toUInt8 → letter.toNat < 128 →
      c.toNat < 128 → Yields (bytesOf ['\\', letter]) (utf8EncodeChar c) :=
    fun letter h hletter hc => yields_simpleEscape hletter hc h
  unfold escapeChar
  split
  · next h => subst h; exact hsimple '"' (by decide) (by decide) (by decide)
  · split
    · next h => subst h; exact hsimple '\\' (by decide) (by decide) (by decide)
    · split
      · next h => subst h; exact hsimple 'b' (by decide) (by decide) (by decide)
      · split
        · next h => subst h; exact hsimple 't' (by decide) (by decide) (by decide)
        · split
          · next h => subst h; exact hsimple 'n' (by decide) (by decide) (by decide)
          · split
            · next h => subst h; exact hsimple 'f' (by decide) (by decide) (by decide)
            · split
              · next h => subst h; exact hsimple 'r' (by decide) (by decide) (by decide)
              · split
                · next h => exact yields_control h
                · next hquote hbackslash _ _ _ _ _ hcontrol =>
                  simpa using yields_unescaped hquote hbackslash hcontrol

theorem yields_flatMap (cs : List Char) : Yields (bytesOf (cs.flatMap escapeChar)) (bytesOf cs) := by
  induction cs with
  | nil => exact yields_nil
  | cons c cs ih =>
    rw [List.flatMap_cons, bytesOf_append, bytesOf_cons]
    exact (yields_escapeChar c).append ih

theorem bytesOf_stringChars (s : String) (rest : Bytes) :
    bytesOf (stringChars s) ++ rest = 0x22 :: (bytesOf (s.toList.flatMap escapeChar) ++ 0x22 :: rest) := by
  have hquote : utf8EncodeChar '"' = [0x22] := by decide
  simp [stringChars, hquote]

theorem stringText_flatMap (s : String) (rest : Bytes) :
    stringText (bytesOf (s.toList.flatMap escapeChar) ++ 0x22 :: rest) = .ok (s, rest) := by
  obtain ⟨fuel, hfuel, hread⟩ := yields_flatMap s.toList (0x22 :: rest) _ (Nat.lt_succ_self _)
  obtain ⟨fuel, rfl⟩ : ∃ k, fuel = k + 1 := ⟨fuel - 1, by simp at hfuel; omega⟩
  have hend : stringBytes (fuel + 1) (0x22 :: rest) = .ok ([], rest) := rfl
  simp only [stringText, hread, hend, Except.map, bind, Except.bind, List.append_nil, ← Text.utf8_eq_bytesOf,
    Text.ofUtf8?_utf8]
  rfl

theorem textValue_stringChars (s : String) (rest : Bytes) :
    textValue (bytesOf (stringChars s) ++ rest) = .ok (s, rest) := by
  rw [bytesOf_stringChars]
  exact stringText_flatMap s rest

/-! ### Lists of texts -/

theorem itemChars_cons (item : Json) (items : List Json) :
    itemChars (item :: items) = item.chars ++ items.flatMap fun next => ',' :: next.chars := by
  induction items generalizing item with
  | nil => simp [itemChars]
  | cons next rest ih => rw [itemChars, ih, List.flatMap_cons, List.cons_append]

theorem textItems_flatMap (texts : List String) {more : Bytes} {fuel : Nat} (hfuel : more.length < fuel)
    (hmore : bytesOf (texts.flatMap fun text => ',' :: stringChars text) ++ [0x5D] = more) :
    textItems fuel false more = .ok (texts, []) := by
  obtain ⟨fuel, rfl⟩ : ∃ k, fuel = k + 1 := ⟨fuel - 1, by omega⟩
  induction texts generalizing more fuel with
  | nil =>
    subst hmore
    rfl
  | cons text texts ih =>
    have hcomma : utf8EncodeChar ',' = [0x2C] := by decide
    simp only [List.flatMap_cons, List.cons_append, bytesOf_cons, bytesOf_append, hcomma, List.append_assoc,
      List.nil_append] at hmore
    generalize hlater : bytesOf (texts.flatMap fun text => ',' :: stringChars text) ++ [0x5D] = later at hmore
    subst hmore
    have hnext : nextItem? false (0x2C :: (bytesOf (stringChars text) ++ later)) =
        .ok (some (bytesOf (stringChars text) ++ later)) := by
      rw [bytesOf_stringChars]
      rfl
    simp only [List.length_cons, List.length_append] at hfuel
    obtain ⟨fuel, rfl⟩ : ∃ k, fuel = k + 1 := ⟨fuel - 1, by omega⟩
    have hrest : textItems (fuel + 1) false later = .ok (texts, []) := ih hlater fuel (by omega)
    rw [textItems]
    simp only [hnext, textValue_stringChars, hrest, bind, Except.bind, pure, Except.pure]

/-- A list of texts is read from its own JSON. -/
theorem readTexts_render (texts : List String) :
    readTexts (Text.utf8 (array (texts.map string)).render) = .ok texts := by
  have hopen : utf8EncodeChar '[' = [0x5B] := by decide
  have hclose : utf8EncodeChar ']' = [0x5D] := by decide
  cases texts with
  | nil => rfl
  | cons text texts =>
    have hitems : itemChars ((text :: texts).map string) =
        stringChars text ++ texts.flatMap fun text => ',' :: stringChars text := by
      rw [List.map_cons, itemChars_cons, List.flatMap_map]
      simp only [chars]
    generalize hmore : bytesOf (texts.flatMap fun text => ',' :: stringChars text) ++ [0x5D] = more
    have hbytes : Text.utf8 (array ((text :: texts).map string)).render =
        0x5B :: (bytesOf (stringChars text) ++ more) := by
      rw [render, Text.utf8_ofList, chars, hitems]
      simp [hopen, hclose, ← hmore]
    have hnext : nextItem? true (bytesOf (stringChars text) ++ more) =
        .ok (some (bytesOf (stringChars text) ++ more)) := by
      rw [bytesOf_stringChars]
      rfl
    have hlength : more.length < (bytesOf (stringChars text) ++ more).length := by
      rw [bytesOf_stringChars]
      simp only [List.length_cons, List.length_append]
      omega
    have hrest := textItems_flatMap texts hlength hmore
    have hspace : ∀ bytes, skipSpace (0x5B :: bytes) = 0x5B :: bytes := fun _ => rfl
    rw [hbytes, readTexts, hspace]
    simp only [if_true, textItems, hnext, textValue_stringChars, hrest, bind, Except.bind, pure, Except.pure]
    rfl

end Entitle.Json
