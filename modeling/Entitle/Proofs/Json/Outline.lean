import Entitle.Json.Outline
import Entitle.Json.Reader
import Entitle.Proofs.Text.Utf8
import Mathlib

/-!
# Reader and outline

The reader builds a value, the outline only finds where one ends. Both go through one grammar, and they part at
three things that the outline does not look at: how deep containers stand, how large numbers are, and whether the
halves of surrogate pairs meet (`Cause.isUnseen`). `Agree` says so of one reader and its outline; it is proved
leaf by leaf, carried through the containers by `agree_listItems` and `agree_objectMembers`, and reaches any text in
`isOutlined_of_read` and `isUnseen_of_isOutlined`.
-/

namespace Entitle.Json
open Text (IsUtf8 isUtf8_around isUtf8_around_ascii isUtf8_append_ascii isUtf8_nil)

/-- A fault that the outline of a text does not show. -/
def Cause.isUnseen : Cause → Bool
  | .recursionLimit | .numberOutOfRange | .loneSurrogate | .unexpectedEndOfHexEscape => true
  | _ => false

/-- From `bytes` on a reader and an outline agree: what the reader reads the outline passes, with `continued` telling
how it goes on behind it, and what the reader refuses the outline refuses too, or it cannot see the fault, or
the bytes are no text. -/
inductive Agree {α : Type} (continued : Bytes → Except Fault Bytes → Prop) (bytes : Bytes) :
    Except Fault (α × Bytes) → Except Fault Bytes → Prop where
  | read {value : α} {rest : Bytes} {lax : Except Fault Bytes} (hlax : continued rest lax)
      (hlen : rest.length ≤ bytes.length) (hutf8 : IsUtf8 bytes ↔ IsUtf8 rest) :
      Agree continued bytes (.ok (value, rest)) lax
  | unseen {fault : Fault} {lax : Except Fault Bytes} (h : fault.cause.isUnseen) :
      Agree continued bytes (.error fault) lax
  | refused {fault fault' : Fault} : Agree continued bytes (.error fault) (.error fault')
  | garbled {fault : Fault} {lax : Except Fault Bytes} (h : ¬ IsUtf8 bytes) : Agree continued bytes (.error fault) lax

/-- The outline ends behind what was read. -/
def Ends (rest : Bytes) (lax : Except Fault Bytes) : Prop :=
  lax = .ok rest

/-- The loop goes on behind what was read, inside `frames`. -/
def Loops (frames : List Frame) (rest : Bytes) (lax : Except Fault Bytes) : Prop :=
  ∃ fuel, rest.length < fuel ∧ lax = outline fuel .separator frames rest

namespace Agree
variable {α β : Type} {continued : Bytes → Except Fault Bytes → Prop} {bytes rest : Bytes}
  {strict : Except Fault (α × Bytes)} {lax : Except Fault Bytes}

theorem behind {r : Bytes} (h : Agree continued r strict lax) (hlen : r.length ≤ bytes.length)
    (hutf8 : IsUtf8 bytes ↔ IsUtf8 r) : Agree continued bytes strict lax := by
  cases h with
  | read hlax hlen' hutf8' => exact .read hlax (Nat.le_trans hlen' hlen) (hutf8.trans hutf8')
  | unseen h => exact .unseen h
  | refused => exact .refused
  | garbled h => exact .garbled (mt hutf8.1 h)

theorem behind_ascii {b : UInt8} {r : Bytes} (h : Agree continued r strict lax) (hb : b < 0x80) :
    Agree continued (b :: r) strict lax :=
  h.behind (by simp) (isUtf8_append_ascii (a := [b]) (by simpa using hb))

theorem of_ok {value : α} (h : Agree continued bytes (.ok (value, rest)) lax) :
    continued rest lax ∧ rest.length ≤ bytes.length ∧ (IsUtf8 bytes ↔ IsUtf8 rest) := by
  cases h with
  | read hlax hlen hutf8 => exact ⟨hlax, hlen, hutf8⟩

theorem of_error {fault : Fault} (h : Agree (α := α) continued bytes (.error fault) lax) :
    fault.cause.isUnseen ∨ (∃ fault', lax = .error fault') ∨ ¬ IsUtf8 bytes := by
  cases h with
  | unseen h => exact .inl h
  | refused => exact .inr (.inl ⟨_, rfl⟩)
  | garbled h => exact .inr (.inr h)

theorem bind {f : α × Bytes → Except Fault (β × Bytes)} {g : Bytes → Except Fault Bytes}
    (h : Agree Ends bytes strict lax)
    (hf : ∀ value rest, rest.length ≤ bytes.length → Agree continued rest (f (value, rest)) (g rest)) :
    Agree continued bytes (strict >>= f) (lax >>= g) := by
  cases h with
  | read hlax hlen hutf8 =>
    cases hlax
    exact (hf _ _ hlen).behind hlen hutf8
  | unseen h => exact .unseen h
  | refused => exact .refused
  | garbled h => exact .garbled h

theorem map (f : α → β) (h : Agree continued bytes strict lax) :
    Agree continued bytes (strict.map fun x => (f x.1, x.2)) lax := by
  cases h with
  | read hlax hlen hutf8 => exact .read hlax hlen hutf8
  | unseen h => exact .unseen h
  | refused => exact .refused
  | garbled h => exact .garbled h

/-- A reader goes on behind an item, and the loop goes on to a separator. -/
theorem bindItem {frames : List Frame} {f : α × Bytes → Except Fault (β × Bytes)}
    (h : Agree (Loops frames) bytes strict lax)
    (hf : ∀ value rest fuel, rest.length ≤ bytes.length → rest.length < fuel →
      Agree continued rest (f (value, rest)) (outline fuel .separator frames rest)) :
    Agree continued bytes (strict >>= f) lax := by
  cases h with
  | read hlax hlen hutf8 =>
    obtain ⟨fuel, hfuel, rfl⟩ := hlax
    exact (hf _ _ fuel hlen hfuel).behind hlen hutf8
  | unseen h => exact .unseen h
  | refused => exact .refused
  | garbled h => exact .garbled h

/-- Behind a leaf the loop looks for a separator. -/
theorem loops (h : Agree Ends bytes strict lax) {fuel : Nat} (hfuel : bytes.length < fuel) (frames : List Frame) :
    Agree (Loops frames) bytes strict (lax >>= outline fuel .separator frames) := by
  cases h with
  | read hlax hlen hutf8 =>
    cases hlax
    exact .read ⟨fuel, Nat.lt_of_le_of_lt hlen hfuel, rfl⟩ hlen hutf8
  | unseen h => exact .unseen h
  | refused => exact .refused
  | garbled h => exact .garbled h

end Agree

/-! ### Blanks, words and digits -/

theorem lt_of_isSpace {b : UInt8} (h : isSpace b) : b < 0x80 := by
  simp only [isSpace, Bool.or_eq_true, decide_eq_true_eq] at h
  rcases h with ((rfl | rfl) | rfl) | rfl <;> decide

theorem lt_of_isDigit {b : UInt8} (h : isDigit b) : b < 0x80 := by
  simp only [isDigit, Bool.and_eq_true, decide_eq_true_eq] at h
  exact UInt8.lt_of_le_of_lt h.2 (by decide)

theorem length_skipSpace_le (bytes : Bytes) : (skipSpace bytes).length ≤ bytes.length :=
  (List.dropWhile_sublist _).length_le

theorem isUtf8_dropWhile {p : UInt8 → Bool} (hp : ∀ b, p b → b < 0x80) (bytes : Bytes) :
    IsUtf8 bytes ↔ IsUtf8 (bytes.dropWhile p) := by
  have h := isUtf8_append_ascii (a := bytes.takeWhile p) (b := bytes.dropWhile p)
    fun b hb => hp b (List.mem_takeWhile_imp hb)
  rwa [List.takeWhile_append_dropWhile] at h

theorem isUtf8_skipSpace (bytes : Bytes) : IsUtf8 bytes ↔ IsUtf8 (skipSpace bytes) :=
  isUtf8_dropWhile (fun _ => lt_of_isSpace) bytes

theorem isUtf8_cons {b : UInt8} {rest : Bytes} (hb : b < 0x80) : IsUtf8 (b :: rest) ↔ IsUtf8 rest :=
  isUtf8_append_ascii (a := [b]) (by simpa using hb)

theorem agree_word {α : Type} (value : α) {letters : Bytes} (hletters : ∀ x ∈ letters, x < 0x80) (bytes : Bytes) :
    Agree Ends bytes ((word letters bytes).map fun rest => (value, rest)) (word letters bytes) := by
  induction letters generalizing bytes with
  | nil => exact .read rfl (Nat.le_refl _) Iff.rfl
  | cons letter letters ih =>
    cases bytes with
    | nil => exact .refused
    | cons b rest =>
      simp only [word]
      split
      · next hb =>
        subst hb
        exact (ih (fun x hx => hletters x (List.mem_cons_of_mem _ hx)) rest).behind_ascii
          (hletters b List.mem_cons_self)
      · exact .refused

/-! ### Numbers -/

theorem agree_wholeDigits_cons (b : UInt8) (rest : Bytes) :
    Agree Ends rest (wholeDigits (b :: rest)) (wholeLax (b :: rest)) := by
  simp only [wholeDigits, wholeLax]
  split
  · cases rest with
    | nil => exact .read rfl (Nat.le_refl _) Iff.rfl
    | cons d rest =>
      simp only
      split
      · exact .refused
      · exact .read rfl (Nat.le_refl _) Iff.rfl
  · split
    · exact .read rfl (List.dropWhile_sublist _).length_le (isUtf8_dropWhile (fun _ => lt_of_isDigit) rest)
    · exact .refused

theorem agree_wholeDigits (bytes : Bytes) : Agree Ends bytes (wholeDigits bytes) (wholeLax bytes) := by
  cases bytes with
  | nil => exact .refused
  | cons b rest =>
    by_cases hb : isDigit b
    · exact (agree_wholeDigits_cons b rest).behind_ascii (lt_of_isDigit hb)
    · have hzero : b ≠ 0x30 := fun h => hb (h ▸ rfl)
      simp only [wholeDigits, wholeLax, hzero, hb, if_false]
      exact .refused

theorem agree_exponentDigits (bytes : Bytes) : Agree Ends bytes (exponentDigits bytes) (digitsLax bytes) := by
  cases bytes with
  | nil => exact .refused
  | cons b rest =>
    simp only [exponentDigits, digitsLax]
    split
    · next hb =>
      exact .read rfl (Nat.le_succ_of_le (List.dropWhile_sublist _).length_le)
        ((isUtf8_cons (lt_of_isDigit hb)).trans (isUtf8_dropWhile (fun _ => lt_of_isDigit) rest))
    · exact .refused

theorem agree_exponentPart (bytes : Bytes) : Agree Ends bytes (exponentPart bytes) (exponentLax bytes) := by
  cases bytes with
  | nil => exact .read rfl (Nat.le_refl _) Iff.rfl
  | cons b rest =>
    simp only [exponentPart, exponentLax]
    split
    · next hb =>
      have hb : b < 0x80 := by rcases hb with rfl | rfl <;> decide
      cases rest with
      | nil => exact .refused
      | cons s after =>
        by_cases hplus : s = 0x2B
        · subst hplus
          exact (((agree_exponentDigits after).map fun ds => some (false, ds)).behind_ascii (by decide)).behind_ascii hb
        · by_cases hminus : s = 0x2D
          · subst hminus
            exact (((agree_exponentDigits after).map fun ds => some (true, ds)).behind_ascii
              (by decide)).behind_ascii hb
          · simp only [hplus, hminus, if_false, or_self]
            exact ((agree_exponentDigits (s :: after)).map fun ds => some (false, ds)).behind_ascii hb
    · exact .read rfl (Nat.le_refl _) Iff.rfl

theorem agree_fraction {α : Type} {f : Option Bytes × Bytes → Except Fault (α × Bytes)}
    (hf : ∀ digits rest, Agree Ends rest (f (digits, rest)) (exponentLax rest)) (bytes : Bytes) :
    Agree Ends bytes (fractionDigits bytes >>= f) (fractionLax bytes) := by
  cases bytes with
  | nil => exact hf none []
  | cons b rest =>
    simp only [fractionDigits, fractionLax]
    split
    · next hb =>
      subst hb
      cases rest with
      | nil => exact .refused
      | cons d rest =>
        by_cases hd : isDigit d
        · simp only [List.takeWhile_cons, List.dropWhile_cons, hd, if_true]
          exact ((hf _ _).behind (Nat.le_succ_of_le (List.dropWhile_sublist _).length_le)
            ((isUtf8_cons (lt_of_isDigit hd)).trans (isUtf8_dropWhile (fun _ => lt_of_isDigit) rest))).behind_ascii
              (by decide)
        · simp only [List.takeWhile_cons, List.dropWhile_cons, hd, if_false, Bool.false_eq_true]
          exact .refused
    · exact hf none (b :: rest)

theorem scaled_error {n : Nat} {e : Int} {sign : Float → Float} {rest : Bytes} {fault : Fault}
    (h : (match Decimal.scaled? n e with
      | some x => Except.ok (sign x)
      | none => failAt .numberOutOfRange rest) = .error fault) : fault.cause = .numberOutOfRange := by
  split at h
  · cases h
  · cases h; rfl

theorem NumberText.double_error {t : NumberText} {rest : Bytes} {fault : Fault} (h : t.double rest = .error fault) :
    fault.cause = .numberOutOfRange := by
  unfold NumberText.double at h
  simp only at h
  split at h
  · exact scaled_error h
  · split at h
    · exact scaled_error h
    · split at h <;> cases h
      rfl

theorem NumberText.toJson_error {t : NumberText} {rest : Bytes} {fault : Fault} (h : t.toJson rest = .error fault) :
    fault.cause = .numberOutOfRange := by
  unfold NumberText.toJson at h
  simp only at h
  split at h
  · cases h
  · cases hd : t.double rest with
    | ok x => rw [hd] at h; cases h
    | error f => rw [hd] at h; cases h; exact double_error hd

/-- The text behind the minus sign of a number. -/
def unsigned (bytes : Bytes) : Bytes :=
  match bytes with
  | b :: rest => if b = 0x2D then rest else bytes
  | [] => []

theorem agree_toJson (t : NumberText) (rest : Bytes) :
    Agree Ends rest (do let value ← t.toJson rest; return (value, rest)) (.ok rest) := by
  cases h : t.toJson rest with
  | ok value => exact .read rfl (Nat.le_refl _) Iff.rfl
  | error fault => exact .unseen (by rw [NumberText.toJson_error h]; rfl)

theorem numberText_eq (bytes : Bytes) : ∃ negative, numberText bytes = (do
    let (whole, rest) ← wholeDigits (unsigned bytes)
    let (fraction, rest) ← fractionDigits rest
    let (exponent, rest) ← exponentPart rest
    return (⟨negative, whole, fraction, exponent⟩, rest)) := by
  cases bytes with
  | nil => exact ⟨false, rfl⟩
  | cons b rest =>
    by_cases hb : b = 0x2D
    · exact ⟨true, by simp only [numberText, unsigned, hb, if_true]⟩
    · exact ⟨false, by simp only [numberText, unsigned, hb, if_false]⟩

theorem agree_number {s t : Bytes}
    (hwhole : Agree Ends s (wholeDigits (unsigned t)) (wholeLax (unsigned t))) :
    Agree Ends s
      (do
        let (number, rest) ← numberText t
        let value ← number.toJson rest
        return (value, rest))
      (numberLax (unsigned t)) := by
  obtain ⟨negative, hnumber⟩ := numberText_eq t
  rw [hnumber]
  simp only [bind_assoc, pure_bind, numberLax]
  refine hwhole.bind fun whole rest _ => ?_
  refine agree_fraction (fun fraction rest => ?_) rest
  rw [← bind_pure (exponentLax rest)]
  refine (agree_exponentPart rest).bind fun exponent rest _ => ?_
  exact agree_toJson _ rest

/-! ### Strings -/

theorem lt_of_ofUInt8_le {b : UInt8} {c : Char} (hc : c.toNat < 128) (h : Char.ofUInt8 b ≤ c) : b < 0x80 := by
  have hle : b.toNat ≤ c.toNat := by simpa [Char.ofUInt8] using UInt32.le_iff_toNat_le.1 h
  exact UInt8.lt_iff_toNat_lt.2 (Nat.lt_of_le_of_lt hle hc)

theorem lt_of_hexValue? {b : UInt8} {n : Nat} (h : Text.hexValue? (Char.ofUInt8 b) = some n) : b < 0x80 := by
  simp only [Text.hexValue?] at h
  split_ifs at h with h9 hf hF
  · exact lt_of_ofUInt8_le (by decide) h9.2
  · exact lt_of_ofUInt8_le (by decide) hf.2
  · exact lt_of_ofUInt8_le (by decide) hF.2

theorem hexUnit_ok {bytes rest : Bytes} {unit : Nat} (h : hexUnit bytes = .ok (unit, rest)) :
    rest.length ≤ bytes.length ∧ (IsUtf8 bytes ↔ IsUtf8 rest) := by
  match bytes with
  | [] | [_] | [_, _] | [_, _, _] => cases h
  | a :: b :: c :: d :: more =>
    simp only [hexUnit] at h
    split at h
    · next ha hb hc hd =>
      cases h
      refine ⟨by simp only [List.length_cons]; omega, ?_⟩
      rw [isUtf8_cons (lt_of_hexValue? ha), isUtf8_cons (lt_of_hexValue? hb), isUtf8_cons (lt_of_hexValue? hc),
        isUtf8_cons (lt_of_hexValue? hd)]
    · cases h

theorem simpleEscape?_eq_some {b out : UInt8} (h : simpleEscape? b = some out) : b < 0x80 ∧ out < 0x80 := by
  simp only [simpleEscape?] at h
  split_ifs at h with hsame hb hf hn hr ht
  · cases h
    rcases hsame with rfl | rfl | rfl <;> decide
  all_goals cases h; subst_vars; decide

/-- The outline of a string goes on behind an escape. -/
def Continues (rest : Bytes) (lax : Except Fault Bytes) : Prop :=
  ∃ fuel, rest.length < fuel ∧ lax = stringLax fuel rest

/-- The second half of a surrogate pair: to the outline it is an escape like any other. -/
theorem agree_surrogatePair (first : Nat) {fuel : Nat} {bytes : Bytes} (hfuel : bytes.length < fuel) :
    Agree Continues bytes (surrogatePair first bytes) (stringLax fuel bytes) := by
  obtain ⟨fuel, rfl⟩ : ∃ k, fuel = k + 1 := ⟨fuel - 1, by omega⟩
  match bytes with
  | [] => exact .refused
  | a :: rest =>
    by_cases ha : a = 0x5C
    · subst ha
      match rest with
      | [] => exact .refused
      | b :: rest =>
        by_cases hb : b = 0x75
        · subst hb
          have hlax : stringLax (fuel + 1) (0x5C :: 0x75 :: rest) =
              ((hexUnit rest).map Prod.snd >>= stringLax fuel) := rfl
          have hstrict : surrogatePair first (0x5C :: 0x75 :: rest) = (hexUnit rest >>= fun x =>
              if 0xDC00 ≤ x.1 ∧ x.1 ≤ 0xDFFF then
                .ok (String.utf8EncodeChar
                  (Char.ofNat (0x10000 + (first - 0xD800) * 0x400 + (x.1 - 0xDC00))), x.2)
              else failAt .loneSurrogate x.2) := rfl
          rw [hlax, hstrict]
          cases hu : hexUnit rest with
          | error fault => exact .refused
          | ok x =>
            obtain ⟨hlen, hutf8⟩ := hexUnit_ok hu
            simp only [List.length_cons] at hfuel
            show Agree _ _ (if _ then _ else _) _
            split
            · exact .read ⟨fuel, by omega, rfl⟩ (by simp only [List.length_cons]; omega)
                (by rw [isUtf8_cons (by decide), isUtf8_cons (by decide), hutf8])
            · exact .unseen rfl
        · have hstrict : surrogatePair first (0x5C :: b :: rest) = failAt .unexpectedEndOfHexEscape rest := by
            simp [surrogatePair, expectInPair, hb, failAt, bind, Except.bind]
          rw [hstrict]
          exact .unseen rfl
    · have hstrict : surrogatePair first (a :: rest) = failAt .unexpectedEndOfHexEscape rest := by
        simp [surrogatePair, expectInPair, ha, failAt, bind, Except.bind]
      rw [hstrict]
      exact .unseen rfl

theorem agree_escaped {fuel : Nat} {bytes : Bytes} (hfuel : bytes.length < fuel) :
    Agree Continues bytes (escaped bytes) (escapedLax bytes >>= stringLax fuel) := by
  cases bytes with
  | nil => exact .refused
  | cons b rest =>
    simp only [escaped, escapedLax]
    simp only [List.length_cons] at hfuel
    cases hs : simpleEscape? b with
    | some out =>
      exact .read ⟨fuel, by omega, rfl⟩ (Nat.le_succ _) (isUtf8_cons (simpleEscape?_eq_some hs).1)
    | none =>
      simp only [Option.isSome_none, Bool.false_eq_true, if_false]
      split
      · next hb =>
        subst hb
        cases hu : hexUnit rest with
        | error fault => exact .refused
        | ok x =>
          obtain ⟨hlen, hutf8⟩ := hexUnit_ok hu
          have hpair : Agree Continues x.2 (surrogatePair x.1 x.2) (stringLax fuel x.2) :=
            agree_surrogatePair x.1 (by omega)
          refine Agree.behind_ascii (r := rest) (Agree.behind (r := x.2) ?_ hlen hutf8) (by decide)
          show Agree _ _ (if _ then _ else if _ then _ else _) (stringLax fuel x.2)
          split
          · exact .unseen rfl
          · split
            · exact hpair
            · exact .read ⟨fuel, by omega, rfl⟩ (Nat.le_refl _) Iff.rfl
      · exact .refused

theorem bind_eq_ok {α β : Type} {x : Except Fault α} {f : α → Except Fault β} {b : β} :
    x >>= f = .ok b ↔ ∃ a, x = .ok a ∧ f a = .ok b := by
  constructor
  · intro h
    cases x with
    | ok a => exact ⟨a, rfl, h⟩
    | error fault => cases h
  · rintro ⟨a, rfl, h⟩
    exact h

theorem escaped_char {bytes out rest : Bytes} (h : escaped bytes = .ok (out, rest)) :
    ∃ c, out = String.utf8EncodeChar c := by
  cases bytes with
  | nil => cases h
  | cons b more =>
    simp only [escaped] at h
    cases hs : simpleEscape? b with
    | some x =>
      rw [hs] at h
      cases h
      exact Text.exists_char_of_ascii (simpleEscape?_eq_some hs).2
    | none =>
      rw [hs] at h
      simp only at h
      split at h
      · obtain ⟨⟨unit, after⟩, -, h⟩ := bind_eq_ok.1 h
        simp only at h
        split at h
        · cases h
        · split at h
          · -- both halves of a pair
            obtain ⟨_, -, h⟩ := bind_eq_ok.1 h
            obtain ⟨_, -, h⟩ := bind_eq_ok.1 h
            obtain ⟨⟨second, after⟩, -, h⟩ := bind_eq_ok.1 h
            dsimp only at h
            generalize Char.ofNat (0x10000 + (unit - 0xD800) * 0x400 + (second - 0xDC00)) = c at h
            split_ifs at h
            · cases h
              exact ⟨c, rfl⟩
            · cases h
          · cases h
            exact ⟨_, rfl⟩
      · cases h

/-- A string that is read ends where its outline does, and its content is UTF-8 exactly if its text is; `p` is the
part of a character that was read before. -/
theorem stringBytes_ok {n m : Nat} {bytes content rest : Bytes} (h : stringBytes n bytes = .ok (content, rest))
    (hm : bytes.length < m) :
    stringLax m bytes = .ok rest ∧ rest.length ≤ bytes.length ∧
      ∀ p, IsUtf8 (p ++ bytes) ↔ IsUtf8 (p ++ content) ∧ IsUtf8 rest := by
  induction n generalizing m bytes content rest with
  | zero => cases h
  | succ n ih =>
    obtain ⟨m, rfl⟩ : ∃ k, m = k + 1 := ⟨m - 1, by omega⟩
    cases bytes with
    | nil => cases h
    | cons b more =>
      simp only [List.length_cons, Nat.add_lt_add_iff_right] at hm
      simp only [stringBytes, stringLax] at h ⊢
      split_ifs at h ⊢ with hquote hslash hlow
      · cases h
        subst hquote
        exact ⟨rfl, Nat.le_succ _, fun p => by rw [isUtf8_around_ascii (by decide), List.append_nil]⟩
      · obtain ⟨⟨out, after⟩, hescape, h⟩ := bind_eq_ok.1 h
        obtain ⟨⟨content', rest'⟩, hmore, h⟩ := bind_eq_ok.1 h
        cases h
        dsimp only at hmore ⊢
        obtain ⟨c, rfl⟩ := escaped_char hescape
        subst hslash
        have hagree := agree_escaped hm
        rw [hescape] at hagree
        obtain ⟨⟨k, hk, hlax⟩, hlen, hutf8⟩ := hagree.of_ok
        obtain ⟨hstring, hlen', hcontent⟩ := ih hmore hk
        refine ⟨hlax.trans hstring, by simp only [List.length_cons]; omega, fun p => ?_⟩
        -- the escape is ASCII and stands for a whole character, so text and content can be cut there
        have hafter := hcontent []
        rw [List.nil_append, List.nil_append] at hafter
        rw [isUtf8_around_ascii (by decide), hutf8, hafter, isUtf8_around, and_assoc]
      · cases h
      · obtain ⟨⟨content', rest'⟩, hmore, h⟩ := bind_eq_ok.1 h
        cases h
        obtain ⟨hstring, hlen, hcontent⟩ := ih hmore hm
        refine ⟨hstring, Nat.le_succ_of_le hlen, fun p => ?_⟩
        simpa using hcontent (p ++ [b])

/-- A string that is refused has a fault that the outline does not show, or its outline is refused too. -/
theorem stringBytes_error {n m : Nat} {bytes : Bytes} {fault : Fault} (h : stringBytes n bytes = .error fault)
    (hn : bytes.length < n) (hm : bytes.length < m) (p : Bytes) :
    fault.cause.isUnseen ∨ (∃ fault', stringLax m bytes = .error fault') ∨ ¬ IsUtf8 (p ++ bytes) := by
  induction n generalizing m bytes p with
  | zero => omega
  | succ n ih =>
    obtain ⟨m, rfl⟩ : ∃ k, m = k + 1 := ⟨m - 1, by omega⟩
    cases bytes with
    | nil => exact .inr (.inl ⟨_, rfl⟩)
    | cons b more =>
      simp only [List.length_cons, Nat.add_lt_add_iff_right] at hn hm
      simp only [stringBytes, stringLax] at h ⊢
      split_ifs at h ⊢ with hquote hslash hlow
      · subst hslash
        have hagree := agree_escaped hm
        cases hescape : escaped more with
        | error fault' =>
          rw [hescape] at h hagree
          cases h
          rcases hagree.of_error with hunseen | hrefused | hgarbled
          · exact .inl hunseen
          · exact .inr (.inl hrefused)
          · exact .inr (.inr fun hp => hgarbled ((isUtf8_around_ascii (by decide)).1 hp).2)
        | ok x =>
          obtain ⟨out, after⟩ := x
          rw [hescape] at h hagree
          obtain ⟨⟨k, hk, hlax⟩, hlen, hutf8⟩ := hagree.of_ok
          cases hmore : stringBytes n after with
          | ok x => simp only [bind, Except.bind, hmore] at h; cases h
          | error fault' =>
            simp only [bind, Except.bind, hmore] at h
            cases h
            rw [hlax, isUtf8_around_ascii (by decide), hutf8]
            rcases ih hmore (by omega) hk [] with hunseen | hrefused | hgarbled
            · exact .inl hunseen
            · exact .inr (.inl hrefused)
            · exact .inr (.inr fun hp => hgarbled hp.2)
      · exact .inr (.inl ⟨_, rfl⟩)
      · -- the byte may be a part of a character, so it goes to those that were read before
        cases hmore : stringBytes n more with
        | ok x => rw [hmore] at h; cases h
        | error fault' =>
          rw [hmore] at h
          cases h
          simpa using ih hmore hn hm (p ++ [b])

theorem agree_string (bytes : Bytes) : Agree Ends bytes (stringText bytes) (skipString bytes) := by
  unfold stringText
  cases h : stringBytes (bytes.length + 1) bytes with
  | error fault =>
    show Agree _ _ (.error fault) _
    rcases stringBytes_error h (Nat.lt_succ_self _) (Nat.lt_succ_self _) [] with hunseen | ⟨fault', hlax⟩ | hgarbled
    · exact .unseen hunseen
    · rw [skipString, hlax]
      exact .refused
    · exact .garbled hgarbled
  | ok x =>
    obtain ⟨content, rest⟩ := x
    obtain ⟨hlax, hlen, hcontent⟩ := stringBytes_ok h (Nat.lt_succ_self _)
    replace hcontent := hcontent []
    rw [List.nil_append, List.nil_append] at hcontent
    simp only [bind, Except.bind]
    cases hs : Text.ofUtf8? content with
    | some s =>
      have hvalid : IsUtf8 content := Text.isUtf8_iff.2 ⟨s, hs⟩
      exact .read hlax hlen (hcontent.trans (and_iff_right hvalid))
    | none =>
      refine .garbled fun hbytes => ?_
      obtain ⟨s, hs'⟩ := Text.isUtf8_iff.1 (hcontent.1 hbytes).1
      rw [hs] at hs'
      cases hs'

/-! ### Containers -/

theorem Agree.behind_space {α : Type} {continued : Bytes → Except Fault Bytes → Prop} {bytes : Bytes}
    {strict : Except Fault (α × Bytes)} {lax : Except Fault Bytes} (h : Agree continued (skipSpace bytes) strict lax) :
    Agree continued bytes strict lax :=
  h.behind (length_skipSpace_le bytes) (isUtf8_skipSpace bytes)

theorem outline_skipSpace {fuel : Nat} (hfuel : 0 < fuel) (frames : List Frame) (bytes : Bytes) :
    outline fuel .value frames (skipSpace bytes) = outline fuel .value frames bytes := by
  obtain ⟨fuel, rfl⟩ : ∃ k, fuel = k + 1 := ⟨fuel - 1, by omega⟩
  have hskip : skipSpace (skipSpace bytes) = skipSpace bytes := List.dropWhile_idempotent _ _
  simp only [outline, hskip]

/-- The reader of an item and the loop agree, inside whatever is open. -/
def AgreesOnItems (item : Bytes → Except Fault (Json × Bytes)) : Prop :=
  ∀ fuel frames bytes, bytes.length < fuel → Agree (Loops frames) bytes (item bytes) (outline fuel .value frames bytes)

variable {item : Bytes → Except Fault (Json × Bytes)}

theorem agree_listItems (hitem : AgreesOnItems item) (frames : List Frame) {n fuel : Nat} {bytes : Bytes}
    (hn : bytes.length ≤ n) (hfuel : bytes.length < fuel) :
    Agree (Loops frames) bytes (listItems item n bytes) (outline fuel .value (.list :: frames) bytes) := by
  induction n generalizing fuel bytes with
  | zero =>
    obtain rfl := List.length_eq_zero_iff.1 (Nat.le_zero.1 hn)
    obtain ⟨fuel, rfl⟩ : ∃ k, fuel = k + 1 := ⟨fuel - 1, by omega⟩
    exact .refused
  | succ n ih =>
    refine (hitem fuel (.list :: frames) bytes hfuel).bindItem fun value rest k hrest hk => .behind_space ?_
    obtain ⟨k, rfl⟩ : ∃ j, k = j + 1 := ⟨k - 1, by omega⟩
    have hspace := length_skipSpace_le rest
    simp only [outline]
    cases hskip : skipSpace rest with
    | nil => exact .refused
    | cons b rest' =>
      rw [hskip, List.length_cons] at hspace
      simp only
      by_cases hend : b = 0x5D
      · subst hend
        exact .read ⟨k, by omega, rfl⟩ (Nat.le_succ _) (isUtf8_cons (by decide))
      by_cases hcomma : b = 0x2C
      · subst hcomma
        refine .behind_ascii (.behind_space ?_) (by decide)
        have hspace' := length_skipSpace_le rest'
        simp only [if_true, show ((0x2C : UInt8) = 0x5D) = False by decide, if_false]
        rw [← outline_skipSpace (by omega)]
        cases hskip' : skipSpace rest' with
        | nil =>
          obtain ⟨k, rfl⟩ : ∃ j, k = j + 1 := ⟨k - 1, by omega⟩
          exact .refused
        | cons c more =>
          rw [hskip'] at hspace'
          by_cases hc : c = 0x5D
          · obtain ⟨k, rfl⟩ : ∃ j, k = j + 1 := ⟨k - 1, by omega⟩
            subst hc
            exact .refused
          · simp only [hc, if_false]
            exact (ih (by omega) (by omega)).map (value :: ·)
      · simp only [hend, hcomma, if_false]
        exact .refused

theorem keyLax_skipSpace (bytes : Bytes) : keyLax (skipSpace bytes) = keyLax bytes := by
  have hskip : skipSpace (skipSpace bytes) = skipSpace bytes := List.dropWhile_idempotent _ _
  simp only [keyLax, hskip]

theorem keyLax_quote (bytes : Bytes) : keyLax (0x22 :: bytes) = (skipString bytes >>= fun rest =>
    match skipSpace rest with
    | [] => failPeek .eofObject []
    | c :: more => if c = 0x3A then .ok more else failPeek .expectedColon (c :: more)) :=
  rfl

/-- From behind a key's opening quote on; the loop reads the key from its quote on. -/
theorem agree_member (hitem : AgreesOnItems item) (frames : List Frame) {fuel : Nat} {bytes : Bytes}
    (hfuel : bytes.length < fuel) :
    Agree (Loops (.object :: frames)) bytes (memberWith item bytes)
      (keyLax (0x22 :: bytes) >>= outline fuel .value (.object :: frames)) := by
  rw [keyLax_quote, bind_assoc]
  refine (agree_string bytes).bind fun key rest hrest => .behind_space ?_
  have hspace := length_skipSpace_le rest
  simp only
  cases hskip : skipSpace rest with
  | nil => exact .refused
  | cons c more =>
    rw [hskip, List.length_cons] at hspace
    simp only
    by_cases hcolon : c = 0x3A
    · subst hcolon
      refine .behind_ascii ?_ (by decide)
      exact (hitem fuel (.object :: frames) more (by omega)).map (key, ·)
    · simp only [hcolon, if_false]
      exact .refused

theorem agree_objectMembers (hitem : AgreesOnItems item) (frames : List Frame) {n fuel : Nat} {bytes : Bytes}
    (hn : bytes.length < n) (hfuel : bytes.length < fuel) :
    Agree (Loops frames) bytes (objectMembers item n bytes)
      (keyLax (0x22 :: bytes) >>= outline fuel .value (.object :: frames)) := by
  induction n generalizing fuel bytes with
  | zero => omega
  | succ n ih =>
    refine (agree_member hitem frames hfuel).bindItem fun member rest k hrest hk => .behind_space ?_
    obtain ⟨k, rfl⟩ : ∃ j, k = j + 1 := ⟨k - 1, by omega⟩
    have hspace := length_skipSpace_le rest
    simp only [outline]
    cases hskip : skipSpace rest with
    | nil => exact .refused
    | cons b rest' =>
      rw [hskip, List.length_cons] at hspace
      simp only
      by_cases hend : b = 0x7D
      · subst hend
        exact .read ⟨k, by omega, rfl⟩ (Nat.le_succ _) (isUtf8_cons (by decide))
      by_cases hcomma : b = 0x2C
      · subst hcomma
        refine .behind_ascii (.behind_space ?_) (by decide)
        have hspace' := length_skipSpace_le rest'
        simp only [if_true, show ((0x2C : UInt8) = 0x7D) = False by decide, if_false]
        rw [← keyLax_skipSpace rest']
        cases hskip' : skipSpace rest' with
        | nil => exact .refused
        | cons c more =>
          rw [hskip', List.length_cons] at hspace'
          by_cases hc : c = 0x22
          · subst hc
            exact .behind_ascii ((ih (by omega) (by omega)).map (member :: ·)) (by decide)
          · have hlax : keyLax (c :: more) = failPeek .keyMustBeString (c :: more) := by
              rw [← hskip', keyLax_skipSpace, keyLax, hskip']
              simp only [hc, if_false]
            rw [hlax]
            simp only [hc, if_false]
            split <;> exact .refused
      · simp only [hend, hcomma, if_false]
        exact .refused

theorem agree_valueWith {list object : Bytes → Except Fault (Json × Bytes)}
    (hlist : ∀ fuel frames rest, rest.length < fuel → Agree (Loops frames) rest (list (0x5B :: rest))
      (match skipSpace rest with
        | [] => failPeek .eofList []
        | c :: more =>
          if c = 0x5D then outline fuel .separator frames more else outline fuel .value (.list :: frames) (c :: more)))
    (hobject : ∀ fuel frames rest, rest.length < fuel → Agree (Loops frames) rest (object (0x7B :: rest))
      (match skipSpace rest with
        | [] => failPeek .eofObject []
        | c :: more =>
          if c = 0x7D then outline fuel .separator frames more
          else keyLax (c :: more) >>= outline fuel .value (.object :: frames))) :
    AgreesOnItems (valueWith list object) := by
  intro fuel frames bytes hfuel
  refine .behind_space ?_
  have hspace := length_skipSpace_le bytes
  obtain ⟨fuel, rfl⟩ : ∃ k, fuel = k + 1 := ⟨fuel - 1, by omega⟩
  simp only [valueWith, outline]
  cases hskip : skipSpace bytes with
  | nil => exact .refused
  | cons b rest =>
    rw [hskip, List.length_cons] at hspace
    have hrest : rest.length < fuel := by omega
    simp only
    by_cases hnull : b = 0x6E
    · subst hnull
      refine .behind_ascii (r := rest) ?_ (by decide)
      exact (agree_word Json.null (by simp) rest).loops hrest frames
    by_cases htrue : b = 0x74
    · subst htrue
      refine .behind_ascii (r := rest) ?_ (by decide)
      exact (agree_word (Json.bool true) (by simp) rest).loops hrest frames
    by_cases hfalse : b = 0x66
    · subst hfalse
      refine .behind_ascii (r := rest) ?_ (by decide)
      exact (agree_word (Json.bool false) (by simp) rest).loops hrest frames
    by_cases hquote : b = 0x22
    · subst hquote
      exact (((agree_string rest).map Json.string).loops hrest frames).behind_ascii (by decide)
    by_cases hbracket : b = 0x5B
    · subst hbracket
      exact (hlist fuel frames rest hrest).behind_ascii (by decide)
    by_cases hbrace : b = 0x7B
    · subst hbrace
      exact (hobject fuel frames rest hrest).behind_ascii (by decide)
    by_cases hminus : b = 0x2D
    · subst hminus
      exact ((agree_number (t := 0x2D :: rest) (agree_wholeDigits rest)).loops hrest frames).behind_ascii (by decide)
    by_cases hdigit : isDigit b
    · have hunsigned : unsigned (b :: rest) = b :: rest := if_neg hminus
      have hagree := agree_number (s := rest) (t := b :: rest)
        (by rw [hunsigned]; exact agree_wholeDigits_cons b rest)
      rw [hunsigned] at hagree
      simp only [hnull, htrue, hfalse, hquote, hbracket, hbrace, hminus, hdigit, if_true, if_false, or_true]
      exact (hagree.loops hrest frames).behind_ascii (lt_of_isDigit hdigit)
    · simp only [hnull, htrue, hfalse, hquote, hbracket, hbrace, hminus, hdigit, if_false]
      exact .refused

theorem agree_value (depth : Nat) : AgreesOnItems (value depth) := by
  induction depth with
  | zero => exact agree_valueWith (fun _ _ _ _ => .unseen rfl) (fun _ _ _ _ => .unseen rfl)
  | succ depth ih =>
    refine agree_valueWith (fun fuel frames rest hfuel => ?_) (fun fuel frames rest hfuel => ?_)
    · refine .behind_space ?_
      have hspace := length_skipSpace_le rest
      simp only [listWith, List.drop_succ_cons, List.drop_zero]
      cases hskip : skipSpace rest with
      | nil => exact .refused
      | cons c more =>
        rw [hskip, List.length_cons] at hspace
        simp only
        by_cases hend : c = 0x5D
        · subst hend
          exact .read ⟨fuel, by omega, rfl⟩ (Nat.le_succ _) (isUtf8_cons (by decide))
        · simp only [hend, if_false]
          exact (agree_listItems ih frames (Nat.le_refl _) (by simp only [List.length_cons]; omega)).map Json.array
    · refine .behind_space ?_
      have hspace := length_skipSpace_le rest
      simp only [objectWith, List.drop_succ_cons, List.drop_zero]
      cases hskip : skipSpace rest with
      | nil => exact .refused
      | cons c more =>
        rw [hskip, List.length_cons] at hspace
        simp only
        by_cases hend : c = 0x7D
        · subst hend
          exact .read ⟨fuel, by omega, rfl⟩ (Nat.le_succ _) (isUtf8_cons (by decide))
        by_cases hkey : c = 0x22
        · subst hkey
          refine .behind_ascii (r := more) ?_ (by decide)
          exact (agree_objectMembers ih frames (Nat.lt_succ_self _) (by omega)).map Json.ofMembers
        · have hlax : keyLax (c :: more) = failPeek .keyMustBeString (c :: more) := by
            rw [← hskip, keyLax_skipSpace, keyLax, hskip]
            simp only [hkey, if_false]
          simp only [hend, hkey, if_false, hlax]
          exact .refused

/-! ### Texts -/

/-- A value on which reader and outline agree, up to the end of the text. -/
theorem agree_text (bytes : Bytes) :
    Agree (Loops []) bytes (value depthLimit bytes) (outline (bytes.length + 2) .value [] bytes) :=
  agree_value depthLimit _ [] bytes (by omega)

theorem isOutlined_of_read {bytes : Bytes} {v : Json} (h : read bytes = .ok v) :
    IsUtf8 bytes ∧ isOutlined bytes := by
  obtain ⟨⟨_, rest⟩, hvalue, h⟩ := bind_eq_ok.1 h
  obtain ⟨_, hend, -⟩ := bind_eq_ok.1 h
  have hagree := agree_text bytes
  rw [hvalue] at hagree
  obtain ⟨⟨fuel, hfuel, hlax⟩, hlen, hutf8⟩ := hagree.of_ok
  obtain ⟨fuel, rfl⟩ : ∃ k, fuel = k + 1 := ⟨fuel - 1, by omega⟩
  have hlast : outline (fuel + 1) .separator [] rest = .ok rest := rfl
  have hspace : skipSpace rest = [] := by
    unfold atEnd at hend
    split at hend
    · assumption
    · cases hend
  constructor
  · rw [hutf8, isUtf8_skipSpace, hspace]
    exact isUtf8_nil
  · unfold isOutlined skipValue
    rw [hlax, hlast]
    exact List.isEmpty_iff.2 hspace

/-- A text whose outline is sound is refused only for a fault that the outline does not show. -/
theorem isUnseen_of_isOutlined {bytes : Bytes} {fault : Fault} (hutf8 : IsUtf8 bytes) (houtline : isOutlined bytes)
    (h : read bytes = .error fault) : fault.cause.isUnseen := by
  have hagree := agree_text bytes
  unfold isOutlined skipValue at houtline
  cases hvalue : value depthLimit bytes with
  | error fault' =>
    rw [hvalue] at hagree
    have : fault' = fault := by
      simp only [read, hvalue, bind, Except.bind] at h
      cases h
      rfl
    subst this
    rcases hagree.of_error with hunseen | ⟨fault', hlax⟩ | hgarbled
    · exact hunseen
    · rw [hlax] at houtline
      cases houtline
    · exact absurd hutf8 hgarbled
  | ok x =>
    obtain ⟨v, rest⟩ := x
    rw [hvalue] at hagree
    obtain ⟨⟨fuel, hfuel, hlax⟩, -, -⟩ := hagree.of_ok
    obtain ⟨fuel, rfl⟩ : ∃ k, fuel = k + 1 := ⟨fuel - 1, by omega⟩
    have hlast : outline (fuel + 1) .separator [] rest = .ok rest := rfl
    rw [hlax, hlast] at houtline
    -- nothing but blanks is left behind the value, so the reader does not refuse the text
    have hspace : skipSpace rest = [] := List.isEmpty_iff.1 houtline
    simp only [read, hvalue, bind, Except.bind, atEnd, hspace] at h
    cases h

end Entitle.Json
