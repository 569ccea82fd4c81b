import Entitle.Timestamp.Reader
import Entitle.Proofs.Text.Numeral
import Entitle.Proofs.Timestamp.Calendar
import Mathlib.Algebra.Group.Nat.Defs

/-!
# A printed instant reads back

Every instant that a clock can show is the one that is read from its text: the date by the calendar, each number by its
digits, and a leap second by its second 60. No other is read from any text (`Instant.parsePersisted?_render_iff`).
-/

namespace Entitle.Instant
open Text (isBlank trimStart trimStart_cons)
open Text.Numeral (isDigit isDigit_iff not_isBlank_of_isDigit valueFrom valueFrom_eq_ofDigitChars)

/-! ### Digits -/

variable {w n : Nat} {rest : List Char}

theorem valueFrom_padded (w n : Nat) : valueFrom 0 (padded w n) = n := by
  rw [valueFrom_eq_ofDigitChars, padded, Nat.ofDigitChars_append, Nat.ofDigitChars_replicate_zero, Nat.mul_zero,
    Nat.ofDigitChars_ten_toDigits]

theorem isDigit_of_mem_padded {c : Char} (h : c ∈ padded w n) : isDigit c := by
  rcases List.mem_append.1 h with h | h
  · rw [List.eq_of_mem_replicate h]
    rfl
  · exact (isDigit_iff c).2 (Nat.isDigit_of_mem_toDigits (by decide) (by decide) h)

theorem length_padded (hn : n < 10 ^ w) (hw : 0 < w) : (padded w n).length = w := by
  have hle := (Nat.length_toDigits_le_iff (by decide) hw).2 hn
  simp only [padded, List.length_append, List.length_replicate]
  omega

theorem le_length_padded (w n : Nat) : w ≤ (padded w n).length := by
  simp only [padded, List.length_append, List.length_replicate]
  omega

/-- No digit is next. -/
def NoDigit (cs : List Char) : Prop :=
  ∀ c ∈ cs.head?, ¬ isDigit c

theorem takeWhile_digits {digits : List Char} (h : ∀ c ∈ digits, isDigit c) (hrest : NoDigit rest) :
    (digits ++ rest).takeWhile isDigit = digits := by
  rw [List.takeWhile_append_of_pos h]
  cases rest with
  | nil => simp
  | cons c cs => rw [List.takeWhile_cons_of_neg (hrest c rfl), List.append_nil]

theorem number?_padded {least most : Nat} (hleast : least ≤ w) (hmost : (padded w n).length ≤ most)
    (hrest : (padded w n).length = most ∨ NoDigit rest) :
    number? least most (padded w n ++ rest) = some (n, rest) := by
  have hdigits : ((padded w n ++ rest).take most).takeWhile isDigit = padded w n := by
    rw [List.take_append, List.take_of_length_le hmost]
    refine takeWhile_digits (fun c => isDigit_of_mem_padded) ?_
    rcases hrest with hfull | hrest
    · simp [hfull, NoDigit]
    · intro c hc
      refine hrest c ?_
      rw [List.head?_take] at hc
      split at hc
      · cases hc
      · exact hc
  have hlength := le_length_padded w n
  simp only [number?, hdigits, if_neg (Nat.not_lt.2 (Nat.le_trans hleast hlength)), valueFrom_padded, List.drop_left]

/-! ### Parts -/

theorem exists_padded (hw : 0 < w) : ∃ c cs, padded w n = c :: cs ∧ isDigit c := by
  have hlength := le_length_padded w n
  cases hdigits : padded w n with
  | nil => rw [hdigits, List.length_nil] at hlength; omega
  | cons c cs => exact ⟨c, cs, rfl, isDigit_of_mem_padded (w := w) (n := n) (by simp [hdigits])⟩

theorem trimStart_padded (hw : 0 < w) : trimStart (padded w n ++ rest) = padded w n ++ rest := by
  obtain ⟨c, cs, hfirst, hdigit⟩ := exists_padded (n := n) hw
  rw [hfirst]
  exact trimStart_cons (not_isBlank_of_isDigit hdigit).1

theorem looseNumber?_padded (hn : n < 100) : looseNumber? (padded 2 n ++ rest) = some (n, rest) := by
  have hlength := length_padded (w := 2) hn (by decide)
  rw [looseNumber?, trimStart_padded (by decide)]
  exact number?_padded (by decide) (Nat.le_of_eq hlength) (.inl hlength)

theorem twoDigits?_padded (hn : n < 100) : twoDigits? (padded 2 n ++ rest) = some (n, rest) := by
  have hlength := length_padded (w := 2) hn (by decide)
  exact number?_padded (by decide) (Nat.le_of_eq hlength) (.inl hlength)

theorem looseYear?_yearChars (year : Int) (hrest : NoDigit rest) :
    looseYear? (yearChars year ++ rest) = some (year, rest) := by
  unfold yearChars
  split
  · next hshort =>
    have hlength := length_padded (w := 4) (n := year.toNat) (by omega) (by decide)
    have hread : number? 1 4 (padded 4 year.toNat ++ rest) = some (year.toNat, rest) :=
      number?_padded (by decide) (Nat.le_of_eq hlength) (.inl hlength)
    obtain ⟨c, cs, hfirst, hdigit⟩ := exists_padded (w := 4) (n := year.toNat) (by decide)
    obtain ⟨-, hminus, hplus⟩ := not_isBlank_of_isDigit hdigit
    unfold looseYear?
    rw [trimStart_padded (by decide)]
    split
    · next h => rw [hfirst, List.cons_append, List.cons.injEq] at h; exact absurd h.1 hminus
    · next h => rw [hfirst, List.cons_append, List.cons.injEq] at h; exact absurd h.1 hplus
    · rw [hread]
      simp only [Option.map_some, Int.toNat_of_nonneg hshort.1]
  · next hlong =>
    have hread : number? 1 (padded 4 year.natAbs ++ rest).length (padded 4 year.natAbs ++ rest) =
        some (year.natAbs, rest) :=
      number?_padded (by decide) (by simp) (.inr hrest)
    split
    · next hnegative =>
      have hyear : -(year.natAbs : Int) = year := by omega
      simp only [List.cons_append, looseYear?, trimStart_cons (c := '-') (by decide), hread, Option.map_some, hyear]
    · next hpositive =>
      have hyear : (year.natAbs : Int) = year := by omega
      simp only [List.cons_append, looseYear?, trimStart_cons (c := '+') (by decide), hread, Option.map_some, hyear]

/-- A date is read from its numbers, whatever may stand in front of the hyphens. -/
theorem looseDate?_chars {g : Gap} (hgap : ∀ cs, g ('-' :: cs) = '-' :: cs) {d : Date} (hmonth : d.month < 100)
    (hday : d.day < 100) :
    looseDate? g (yearChars d.year ++ ('-' :: (padded 2 d.month ++ ('-' :: (padded 2 d.day ++ rest))))) =
      some (d, rest) := by
  have hhyphen : ∀ cs, NoDigit ('-' :: cs) := by
    intro cs c hc
    cases hc
    decide
  simp only [looseDate?, looseYear?_yearChars _ (hhyphen _), Option.bind_eq_bind, Option.bind_some, hgap, char?,
    if_true,
    looseNumber?_padded hmonth, looseNumber?_padded hday]
  rfl

theorem looseClock?_chars {g : Gap} (hgap : ∀ cs, g (':' :: cs) = ':' :: cs) {hour minute second : Nat}
    (hhour : hour < 100) (hminute : minute < 100) (hsecond : second < 100) :
    looseClock? g (padded 2 hour ++ (':' :: (padded 2 minute ++ (':' :: (padded 2 second ++ rest))))) =
      some ((hour, minute, second), rest) := by
  simp only [looseClock?, Option.bind_eq_bind, Option.bind_some, hgap, char?, if_true, looseNumber?_padded hhour,
    looseNumber?_padded hminute, looseNumber?_padded hsecond]
  rfl

theorem fraction?_none {cs : List Char} (hpoint : cs.head? ≠ some '.') : fraction? cs = some (0, cs) := by
  unfold fraction?
  split
  · exact absurd rfl hpoint
  · rfl

/-- The digits of a fraction past the ninth do not count. -/
theorem fraction?_digits {digits : List Char} (hne : digits ≠ []) (hdigits : ∀ c ∈ digits, isDigit c)
    (hrest : NoDigit rest) : fraction? ('.' :: digits ++ rest) =
      some (valueFrom 0 (digits.take 9) * 10 ^ (9 - (digits.take 9).length), rest) := by
  have htaken : (digits ++ rest).takeWhile isDigit = digits := takeWhile_digits hdigits hrest
  have hsome : ¬ digits.isEmpty := by simpa using hne
  simp only [List.cons_append, fraction?, htaken, hsome, List.drop_left]
  rfl

theorem fraction?_padded {digits : Nat} (hdigits : 0 < digits ∧ digits ≤ 9) (hn : n < 10 ^ digits)
    (hrest : NoDigit rest) :
    fraction? ('.' :: padded digits n ++ rest) = some (n * 10 ^ (9 - digits), rest) := by
  have hlength := length_padded hn hdigits.1
  have hne : padded digits n ≠ [] := List.ne_nil_of_length_pos (by omega)
  have hcounted : (padded digits n).take 9 = padded digits n := List.take_of_length_le (by omega)
  rw [fraction?_digits hne (fun _ => isDigit_of_mem_padded) hrest, hcounted, valueFrom_padded, hlength]

theorem fraction?_fractionChars {nanos : Nat} (h : nanos < 1000000000) (hrest : NoDigit rest)
    (hpoint : rest.head? ≠ some '.') : fraction? (fractionChars nanos ++ rest) = some (nanos, rest) := by
  unfold fractionChars
  split
  · next hzero =>
    subst hzero
    exact fraction?_none hpoint
  · split
    · rw [fraction?_padded (by decide) (by omega) hrest]
      congr 2
      omega
    · split
      · rw [fraction?_padded (by decide) (by omega) hrest]
        congr 2
        omega
      · rw [fraction?_padded (by decide) (by omega) hrest]
        congr 2
        omega

/-! ### Instants -/

/-- The moment is one that a clock can show: its year is in range, and only the last second of a minute goes on as a
leap second. -/
def IsProper (t : Instant) : Prop :=
  t.inRange ∧ (t.nanos < 1000000000 ∨ t.nanos < 2000000000 ∧ t.seconds % 60 = 59)

instance (t : Instant) : Decidable t.IsProper :=
  inferInstanceAs (Decidable (_ ∧ _))

/-- The date and time of day of an instant as written. -/
def wall (t : Instant) : WallTime :=
  let second := (t.seconds % 86400).toNat
  let leap := decide (1000000000 ≤ t.nanos)
  ⟨Date.ofDayNumber (t.seconds / 86400), second / 3600, second / 60 % 60, second % 60 + if leap then 1 else 0,
    if leap then t.nanos - 1000000000 else t.nanos⟩

theorem wall_bounds {t : Instant} (h : t.IsProper) :
    t.wall.date.isValid ∧ (t.wall.date.month ≤ 12 ∧ t.wall.date.day ≤ 31) ∧
      (t.wall.hour ≤ 23 ∧ t.wall.minute ≤ 59 ∧ t.wall.second ≤ 60) ∧ t.wall.nanos < 1000000000 := by
  have hvalid : t.wall.date.isValid := Date.isValid_ofDayNumber _
  have hnanos : t.nanos < 2000000000 := by have := h.2; omega
  refine ⟨hvalid, Date.le_of_isValid hvalid, ?_, ?_⟩
  · simp only [wall]
    split <;> omega
  · simp only [wall, decide_eq_true_eq]
    split <;> omega

theorem toInstant?_wall {t : Instant} (h : t.IsProper) : t.wall.toInstant? = some t := by
  obtain ⟨hvalid, -, hclock, -⟩ := wall_bounds h
  have hyear := year_of_inRange h.1
  have hday : t.wall.date.dayNumber = t.seconds / 86400 := Date.dayNumber_ofDayNumber _
  have hexists : (t.wall.date.isValid && t.wall.hour ≤ 23 && t.wall.minute ≤ 59 && t.wall.second ≤ 60
      && leastYear ≤ t.wall.date.year && t.wall.date.year ≤ greatestYear) = true := by
    simp only [Bool.and_eq_true, decide_eq_true_eq]
    exact ⟨⟨⟨⟨⟨hvalid, hclock.1⟩, hclock.2.1⟩, hclock.2.2⟩, hyear.1⟩, hyear.2⟩
  have hhour : t.wall.hour = (t.seconds % 86400).toNat / 3600 := rfl
  have hminute : t.wall.minute = (t.seconds % 86400).toNat / 60 % 60 := rfl
  have hnanos := h.2
  unfold WallTime.toInstant?
  rw [if_pos hexists, hday]
  show _ = some (⟨t.seconds, t.nanos⟩ : Instant)
  by_cases hleap : 1000000000 ≤ t.nanos
  · -- the second of a leap second is 60, and it shares its number with second 59
    have hsecond : t.wall.second = 60 := by
      simp only [wall, hleap, decide_true, if_true]
      omega
    have hrest : t.wall.nanos = t.nanos - 1000000000 := by simp [wall, hleap]
    simp only [hhour, hminute, hsecond, hrest, decide_true, if_true]
    rw [Option.some.injEq, Instant.mk.injEq]
    constructor <;> omega
  · have hsecond : t.wall.second = (t.seconds % 86400).toNat % 60 := by simp [wall, hleap]
    have hordinary : ¬ (t.seconds % 86400).toNat % 60 = 60 := by omega
    have hrest : t.wall.nanos = t.nanos := by simp [wall, hleap]
    simp only [hhour, hminute, hsecond, hrest, hordinary, decide_false, Bool.false_eq_true, if_false, Nat.add_zero]
    rw [Option.some.injEq, Instant.mk.injEq]
    constructor <;> omega

theorem ofLocal?_wall {t : Instant} (h : t.IsProper) : ofLocal? t.wall 0 = some t := by
  simp [ofLocal?, toInstant?_wall h, h.1]

theorem chars_eq (t : Instant) :
    t.chars = yearChars t.wall.date.year ++ ('-' :: (padded 2 t.wall.date.month ++ ('-' :: (padded 2 t.wall.date.day ++
      ('T' :: (padded 2 t.wall.hour ++ (':' :: (padded 2 t.wall.minute ++ (':' :: (padded 2 t.wall.second ++
        (fractionChars t.wall.nanos ++ ['Z']))))))))))) := by
  simp [chars, wall]

/-- An instant that a clock can show is read from its own text. -/
theorem parsePersisted?_render {t : Instant} (h : t.IsProper) : parsePersisted? t.render = some t := by
  obtain ⟨-, ⟨hmonth, hday⟩, ⟨hhour, hminute, hsecond⟩, hnanos⟩ := wall_bounds h
  have hzone : storedZone? ['Z'] = some (0, []) := rfl
  have hhyphen : ∀ cs, trimStart ('-' :: cs) = '-' :: cs := fun _ => trimStart_cons (by decide)
  have hcolon : ∀ cs, trimStart (':' :: cs) = ':' :: cs := fun _ => trimStart_cons (by decide)
  have hfraction : fraction? (fractionChars t.wall.nanos ++ ['Z']) = some (t.wall.nanos, ['Z']) :=
    fraction?_fractionChars hnanos (by intro c hc; cases hc; decide) (by decide)
  rw [parsePersisted?, render, String.toList_ofList, chars_eq]
  simp only [looseDate?_chars hhyphen (Nat.lt_of_le_of_lt hmonth (by decide)) (Nat.lt_of_le_of_lt hday (by decide)),
    looseClock?_chars hcolon (Nat.lt_of_le_of_lt hhour (by decide)) (Nat.lt_of_le_of_lt hminute (by decide))
      (Nat.lt_of_le_of_lt hsecond (by decide)), hfraction, hzone, betweenDateAndTime?, Option.bind_eq_bind,
    Option.bind_some, trimStart_cons (c := 'Z') (by decide)]
  exact ofLocal?_wall h

/-! ### Instants that are read -/

theorem nanos_lt {digits : List Char} (hlength : digits.length ≤ 9) (hdigits : ∀ c ∈ digits, isDigit c) :
    valueFrom 0 digits * 10 ^ (9 - digits.length) < 1000000000 := by
  have hvalue := Text.Numeral.valueFrom_lt hdigits 0
  calc valueFrom 0 digits * 10 ^ (9 - digits.length)
    _ < (0 + 1) * 10 ^ digits.length * 10 ^ (9 - digits.length) :=
      Nat.mul_lt_mul_of_pos_right hvalue (Nat.pow_pos (by decide))
    _ = 10 ^ 9 := by rw [Nat.zero_add, Nat.one_mul, ← Nat.pow_add, Nat.add_sub_cancel' hlength]

theorem fraction?_lt {cs rest : List Char} {nanos : Nat} (h : fraction? cs = some (nanos, rest)) :
    nanos < 1000000000 := by
  unfold fraction? at h
  split at h
  · next cs =>
    simp only at h
    split at h
    · cases h
    · obtain ⟨rfl, -⟩ := Prod.mk.inj (Option.some.inj h)
      have hdigits : ∀ c ∈ (cs.takeWhile isDigit).take 9, isDigit c := fun c hc =>
        List.mem_takeWhile_imp (List.mem_of_mem_take hc)
      exact nanos_lt (List.length_take_le 9 _) hdigits
  · cases h
    decide

theorem signedOffset?_dvd {separate : List Char → Option (List Char)} {cs rest : List Char} {offset : Int}
    (h : signedOffset? separate cs = some (offset, rest)) : (60 : Int) ∣ offset := by
  cases cs with
  | nil => cases h
  | cons c cs =>
    -- the same is read behind either sign
    have hread (negative : Bool) (hbehind : ((twoDigits? cs).bind fun hours => (separate hours.2).bind fun cs =>
        (twoDigits? cs).bind fun minutes =>
          if minutes.1 ≤ 59 then
            let seconds : Int := (hours.1 * 3600 + minutes.1 * 60 : Nat)
            some (if negative then -seconds else seconds, minutes.2)
          else none) = some (offset, rest)) : (60 : Int) ∣ offset := by
      simp only [Option.bind_eq_some_iff] at hbehind
      obtain ⟨hours, -, between, -, minutes, -, hbehind⟩ := hbehind
      split at hbehind
      · obtain ⟨rfl, -⟩ := Prod.mk.inj (Option.some.inj hbehind)
        split <;> omega
      · cases hbehind
    by_cases hplus : c = '+'
    · rw [signedOffset?, if_pos hplus] at h
      exact hread false h
    · rw [signedOffset?, if_neg hplus] at h
      by_cases hminus : c = '-' ∨ c = '\u2212'
      · rw [if_pos hminus] at h
        exact hread true h
      · rw [if_neg hminus] at h
        cases h

theorem storedZone?_dvd {cs rest : List Char} {offset : Int} (h : storedZone? cs = some (offset, rest)) :
    (60 : Int) ∣ offset := by
  have hzone {ds : List Char} (hread : zone? colonsAndBlanks ds = some (offset, rest)) : (60 : Int) ∣ offset := by
    unfold zone? at hread
    split at hread
    · cases hread
      exact Int.dvd_zero 60
    · cases hread
      exact Int.dvd_zero 60
    · exact signedOffset?_dvd hread
  unfold storedZone? at h
  split at h
  · split at h
    · cases h
      exact Int.dvd_zero 60
    · exact hzone h
  · exact hzone h

theorem isProper_of_ofLocal? {w : WallTime} {offset : Int} {t : Instant} (hnanos : w.nanos < 1000000000)
    (hoffset : (60 : Int) ∣ offset) (h : ofLocal? w offset = some t) : t.IsProper := by
  simp only [ofLocal?, Option.bind_eq_bind, Option.bind_eq_some_iff] at h
  obtain ⟨utc, hutc, h⟩ := h
  split at h
  · split at h
    · next hrange =>
      cases h
      refine ⟨hrange, ?_⟩
      unfold WallTime.toInstant? at hutc
      split at hutc
      · cases hutc
        by_cases hleap : w.second = 60
        · refine .inr ?_
          simp only [hleap, decide_true, if_true]
          omega
        · refine .inl ?_
          simp only [hleap, decide_false, Bool.false_eq_true, if_false]
          omega
      · cases hutc
    · cases h
  · cases h

theorem isProper_of_parsePersisted? {raw : String} {t : Instant} (h : parsePersisted? raw = some t) : t.IsProper := by
  simp only [parsePersisted?, Option.bind_eq_bind, Option.bind_eq_some_iff, Prod.exists] at h
  obtain ⟨date, afterDate, -, between, -, hour, minute, second, afterClock, -, nanos, afterFraction, hfraction, offset,
    afterZone, hzone, h⟩ := h
  split at h
  · exact isProper_of_ofLocal? (fraction?_lt hfraction) (storedZone?_dvd hzone) h
  · cases h

theorem parsePersisted?_render_iff {t : Instant} : parsePersisted? t.render = some t ↔ t.IsProper :=
  ⟨isProper_of_parsePersisted?, parsePersisted?_render⟩

end Entitle.Instant
