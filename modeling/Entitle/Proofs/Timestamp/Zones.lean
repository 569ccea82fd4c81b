import Entitle.Proofs.Timestamp.RoundTrip

/-!
# Zones

A server's text of a date and time is read with its zone: without one and with `Z` as the same instant, and with an
offset as that instant earlier by the offset (`Instant.zones_agree`).
-/

namespace Entitle
open Text (isBlank trim_eq_self trim_surrounded)
open Text.Numeral (isDigit not_isBlank_of_isDigit valueFrom)
open Instant (padded NoDigit number?_padded twoDigits?_padded length_padded)

namespace Instant

theorem char?_self (c : Char) (cs : List Char) : char? c (c :: cs) = some cs := if_pos rfl

theorem betweenDateAndTime?_cons (cs : List Char) : betweenDateAndTime? ('T' :: cs) = some cs := rfl

/-- A part that is read hands on its value. As a rewriting rule it goes before the parts that follow it (`↓`), which
are long to rewrite while the value is not known. -/
theorem bind_of_read {α β : Type} {x : Option α} {a : α} {f : α → Option β} (hread : x = some a) : x >>= f = f a := by
  rw [hread]
  rfl

end Instant

/-! ### Dates and times of day -/

namespace WallTime
open Instant (char?_self betweenDateAndTime?_cons bind_of_read)
variable {w : WallTime} {fs zs : List Char}

/-- There is such a time, and its year has four digits. -/
structure IsWritable (w : WallTime) : Prop where
  date : w.date.isValid
  year : 0 ≤ w.date.year ∧ w.date.year ≤ 9999
  hour : w.hour ≤ 23
  minute : w.minute ≤ 59
  second : w.second ≤ 60
  nanos : w.nanos < 1000000000

/-- The characters to the second. -/
def chars (w : WallTime) : List Char :=
  padded 4 w.date.year.toNat ++ ('-' :: (padded 2 w.date.month ++ ('-' :: (padded 2 w.date.day ++
    ('T' :: (padded 2 w.hour ++ (':' :: (padded 2 w.minute ++ (':' :: padded 2 w.second)))))))))

theorem IsWritable.two_digits (h : w.IsWritable) :
    w.date.month < 100 ∧ w.date.day < 100 ∧ w.hour < 100 ∧ w.minute < 100 ∧ w.second < 100 := by
  have := Date.le_of_isValid h.date
  have := h.hour
  have := h.minute
  have := h.second
  omega

/-- The strict form is read up to its zone, which decides. -/
theorem parseStrict?_chars (h : w.IsWritable) (hfraction : Instant.fraction? (fs ++ zs) = some (w.nanos, zs)) :
    Instant.parseStrict? (w.chars ++ (fs ++ zs)) =
      (Instant.zone? (Instant.char? ':') zs).bind fun (offset, rest) =>
        if rest.isEmpty then Instant.ofLocal? w offset else none := by
  obtain ⟨hmonth, hday, hhour, hminute, hsecond⟩ := h.two_digits
  have hyear : w.date.year.toNat < 10 ^ 4 := by have := h.year; omega
  have hdate : (⟨(w.date.year.toNat : Int), w.date.month, w.date.day⟩ : Date) = w.date := by
    rw [Int.toNat_of_nonneg h.year.1]
  have hlength := length_padded hyear (by decide)
  have hfour : ∀ rest, Instant.number? 4 4 (padded 4 w.date.year.toNat ++ rest) = some (w.date.year.toNat, rest) :=
    fun _ => number?_padded (by decide) (Nat.le_of_eq hlength) (.inl hlength)
  rw [Instant.parseStrict?, chars]
  simp only [List.append_assoc, List.cons_append, ↓bind_of_read (hfour _), ↓bind_of_read (char?_self _ _),
    ↓bind_of_read (twoDigits?_padded hmonth), ↓bind_of_read (twoDigits?_padded hday),
    ↓bind_of_read (betweenDateAndTime?_cons _), ↓bind_of_read (twoDigits?_padded hhour),
    ↓bind_of_read (twoDigits?_padded hminute), ↓bind_of_read (twoDigits?_padded hsecond),
    ↓bind_of_read hfraction, hdate]
  rfl

theorem parseZoneless?_chars (h : w.IsWritable) (hfraction : Instant.fraction? fs = some (w.nanos, [])) :
    Instant.parseZoneless? (w.chars ++ fs) = w.toInstant? := by
  obtain ⟨hmonth, hday, hhour, hminute, hsecond⟩ := h.two_digits
  have hyear : Instant.yearChars w.date.year = padded 4 w.date.year.toNat := if_pos h.year
  rw [Instant.parseZoneless?, chars, ← hyear]
  simp only [List.append_assoc, List.cons_append,
    ↓bind_of_read (Instant.looseDate?_chars (g := id) (fun _ => rfl) hmonth hday), ↓bind_of_read (char?_self _ _),
    ↓bind_of_read (Instant.looseClock?_chars (g := id) (fun _ => rfl) hhour hminute hsecond),
    ↓bind_of_read hfraction]
  rfl

theorem wall_mk (day : Int) {clock : Nat} (hclock : clock < 86400) (nanos : Nat) :
    Instant.wall ⟨day * 86400 + clock, nanos⟩ =
      ⟨Date.ofDayNumber day, clock / 3600, clock / 60 % 60, clock % 60 + if 1000000000 ≤ nanos then 1 else 0,
        if 1000000000 ≤ nanos then nanos - 1000000000 else nanos⟩ := by
  have hday : (day * 86400 + clock) / 86400 = day := by omega
  have hsecond : ((day * 86400 + clock) % 86400).toNat = clock := by omega
  simp only [Instant.wall, hday, hsecond, decide_eq_true_eq]

theorem IsWritable.exists_instant (h : w.IsWritable) : ∃ t : Instant, w.toInstant? = some t ∧ t.wall = w := by
  have hexists : (w.date.isValid && w.hour ≤ 23 && w.minute ≤ 59 && w.second ≤ 60
      && Instant.leastYear ≤ w.date.year && w.date.year ≤ Instant.greatestYear) = true := by
    have hleast : Instant.leastYear ≤ w.date.year := Int.le_trans (by decide) h.year.1
    have hgreatest : w.date.year ≤ Instant.greatestYear := Int.le_trans h.year.2 (by decide)
    simp only [Bool.and_eq_true, decide_eq_true_eq]
    exact ⟨⟨⟨⟨⟨h.date, h.hour⟩, h.minute⟩, h.second⟩, hleast⟩, hgreatest⟩
  obtain ⟨date, hour, minute, second, nanos⟩ := w
  obtain ⟨hdate, -, hhour, hminute, hsecond, hnanos⟩ := h
  have hday : Date.ofDayNumber date.dayNumber = date := Date.ofDayNumber_dayNumber hdate
  refine ⟨_, by rw [WallTime.toInstant?, if_pos hexists], ?_⟩
  simp only at hhour hminute hsecond hnanos
  by_cases hleap : second = 60
  · -- it has the number of the second before, and its nanoseconds go on
    simp only [hleap, decide_true, if_true]
    rw [wall_mk _ (by omega), hday, if_pos (by omega), if_pos (by omega), WallTime.mk.injEq]
    exact ⟨rfl, by omega, by omega, by omega, by omega⟩
  · simp only [hleap, decide_false, Bool.false_eq_true, if_false, Nat.add_zero]
    rw [wall_mk _ (by omega), hday, if_neg (by omega), if_neg (by omega), WallTime.mk.injEq]
    exact ⟨rfl, by omega, by omega, by omega, by omega⟩

end WallTime

namespace Instant

/-- An instant some seconds earlier, within the same second. -/
def earlier (t : Instant) (seconds : Int) : Instant :=
  ⟨t.seconds - seconds, t.nanos⟩

theorem earlier_zero (t : Instant) : t.earlier 0 = t := by
  rw [earlier, Int.sub_zero]

/-- In years of four digits, an instant is far from the ends of the range. -/
theorem inRange_earlier {t : Instant} (hyear : 0 ≤ t.wall.date.year ∧ t.wall.date.year ≤ 9999) {seconds : Int}
    (hseconds : seconds.natAbs < 86400) : (t.earlier seconds).inRange := by
  have hfirst : Date.dayNumber ⟨leastYear, 1, 1⟩ = -96465292 := by decide
  have hlast : Date.dayNumber ⟨greatestYear + 1, 1, 1⟩ = 95026237 := by decide
  have hnumber : t.wall.date.dayNumber = t.seconds / 86400 := Date.dayNumber_ofDayNumber _
  have hbounds : t.wall.date.month ≤ 12 ∧ t.wall.date.day ≤ 31 := Date.le_of_isValid (Date.isValid_ofDayNumber _)
  have hday : -1000000 ≤ t.seconds / 86400 ∧ t.seconds / 86400 ≤ 4000000 := by
    rw [← hnumber, Date.dayNumber]
    split <;> omega
  simp only [inRange, earlier, hfirst, hlast, Bool.and_eq_true, decide_eq_true_eq]
  omega

theorem ofLocal?_earlier {w : WallTime} (h : w.IsWritable) {t : Instant} (ht : w.toInstant? = some t) {offset : Int}
    (hoffset : offset.natAbs < 86400) : ofLocal? w offset = some (t.earlier offset) := by
  obtain ⟨t', ht', hwall⟩ := h.exists_instant
  obtain rfl : t' = t := Option.some.inj (ht'.symm.trans ht)
  have hrange := inRange_earlier (hwall ▸ h.year) hoffset
  rw [ofLocal?, ht]
  show (if offset.natAbs < 86400 then
    if (t'.earlier offset).inRange then some (t'.earlier offset) else none else none) = _
  rw [if_pos hoffset, if_pos hrange]

theorem parse?_surrounded {front back : String} (hblank : ∀ c ∈ front.toList ++ back.toList, isBlank c) (raw : String) :
    parse? (front ++ raw ++ back) = parse? raw := by
  simp only [parse?, String.toList_append, trim_surrounded hblank]

end Instant

/-! ### Texts with zones -/

/-- A date and time of day as a text writes it: a year of four digits, two digits for each other part, and any number of
digits of a fraction. -/
structure Written where
  date : Date
  hour : Nat
  minute : Nat
  second : Nat
  fraction : List Char
  isValid_date : date.isValid
  year_bounds : 0 ≤ date.year ∧ date.year ≤ 9999
  hour_le : hour ≤ 23
  minute_le : minute ≤ 59
  second_le : second ≤ 60
  isDigit_fraction : ∀ c ∈ fraction, isDigit c

namespace Written

/-- Its parts; the fraction counts to the nanosecond. -/
def wall (s : Written) : WallTime :=
  ⟨s.date, s.hour, s.minute, s.second, valueFrom 0 (s.fraction.take 9) * 10 ^ (9 - (s.fraction.take 9).length)⟩

/-- A point and the digits of the fraction, or nothing. -/
def fractionChars (s : Written) : List Char :=
  if s.fraction = [] then [] else '.' :: s.fraction

/-- The text. -/
def text (s : Written) : String :=
  String.ofList (s.wall.chars ++ s.fractionChars)

theorem isWritable_wall (s : Written) : s.wall.IsWritable where
  date := s.isValid_date
  year := s.year_bounds
  hour := s.hour_le
  minute := s.minute_le
  second := s.second_le
  nanos := Instant.nanos_lt (List.length_take_le 9 s.fraction) fun c hc =>
    s.isDigit_fraction c (List.mem_of_mem_take hc)

theorem fraction?_fractionChars (s : Written) {zs : List Char} (hzone : NoDigit zs) (hpoint : zs.head? ≠ some '.') :
    Instant.fraction? (s.fractionChars ++ zs) = some (s.wall.nanos, zs) := by
  unfold fractionChars
  split
  · next hnone =>
    have hnanos : s.wall.nanos = 0 := by simp [wall, hnone, valueFrom]
    rw [hnanos]
    exact Instant.fraction?_none hpoint
  · next hsome => exact Instant.fraction?_digits hsome s.isDigit_fraction hzone

end Written

/-- An offset from UTC of less than a day. -/
structure Offset where
  isBehind : Bool
  hours : Nat
  minutes : Nat
  hours_le : hours ≤ 23
  minutes_le : minutes ≤ 59

/-- What may stand behind a date and time. -/
inductive Zone where
  | absent
  | utc
  | offset (o : Offset)

namespace Zone

/-- Its characters. -/
def chars : Zone → List Char
  | absent => []
  | utc => ['Z']
  | offset o => (if o.isBehind then '-' else '+') :: (padded 2 o.hours ++ (':' :: padded 2 o.minutes))

/-- The seconds that it is ahead of UTC. -/
def seconds : Zone → Int
  | absent | utc => 0
  | offset o => if o.isBehind then -(o.hours * 3600 + o.minutes * 60) else o.hours * 3600 + o.minutes * 60

theorem natAbs_seconds_lt (zone : Zone) : zone.seconds.natAbs < 86400 := by
  cases zone with
  | absent | utc => decide
  | offset o =>
    have := o.hours_le
    have := o.minutes_le
    simp only [seconds]
    split <;> omega

theorem head?_chars (zone : Zone) : NoDigit zone.chars ∧ zone.chars.head? ≠ some '.' := by
  cases zone with
  | absent => exact ⟨nofun, nofun⟩
  | utc => exact ⟨by intro c hc; cases hc; decide, by decide⟩
  | offset o =>
    cases hbehind : o.isBehind with
    | true => simp only [chars, hbehind]; exact ⟨by intro c hc; cases hc; decide, by simp⟩
    | false => simp only [chars, hbehind]; exact ⟨by intro c hc; cases hc; decide, by simp⟩

theorem zone?_chars {zone : Zone} (h : zone.chars ≠ []) :
    Instant.zone? (Instant.char? ':') zone.chars = some (zone.seconds, []) := by
  cases zone with
  | absent => exact absurd rfl h
  | utc => rfl
  | offset o =>
    have hhours : ∀ rest, Instant.twoDigits? (padded 2 o.hours ++ rest) = some (o.hours, rest) := fun _ =>
      twoDigits?_padded (Nat.lt_of_le_of_lt o.hours_le (by decide))
    have hminutes : Instant.twoDigits? (padded 2 o.minutes ++ []) = some (o.minutes, []) :=
      twoDigits?_padded (Nat.lt_of_le_of_lt o.minutes_le (by decide))
    rw [List.append_nil] at hminutes
    cases hbehind : o.isBehind with
    | true =>
      simp [chars, hbehind, Instant.zone?, Instant.signedOffset?, hhours, hminutes, Instant.char?, seconds,
        o.minutes_le]
    | false =>
      simp [chars, hbehind, Instant.zone?, Instant.signedOffset?, hhours, hminutes, Instant.char?, seconds,
        o.minutes_le]

/-- The text. -/
def text (zone : Zone) : String :=
  String.ofList zone.chars

end Zone

/-! ### Blanks -/

theorem Instant.not_isBlank_padded {w n : Nat} : ∀ c ∈ padded w n, ¬ isBlank c := fun _ hc =>
  (not_isBlank_of_isDigit (isDigit_of_mem_padded hc)).1

theorem WallTime.not_isBlank_chars (w : WallTime) : ∀ c ∈ w.chars, ¬ isBlank c := by
  have hhyphen : ¬ isBlank '-' := by decide
  have hT : ¬ isBlank 'T' := by decide
  have hcolon : ¬ isBlank ':' := by decide
  simp only [chars, List.forall_mem_append, List.forall_mem_cons]
  exact ⟨Instant.not_isBlank_padded, hhyphen, Instant.not_isBlank_padded, hhyphen, Instant.not_isBlank_padded, hT,
    Instant.not_isBlank_padded, hcolon, Instant.not_isBlank_padded, hcolon, Instant.not_isBlank_padded⟩

theorem Written.not_isBlank_fractionChars (s : Written) : ∀ c ∈ s.fractionChars, ¬ isBlank c := by
  have hdigits : ∀ c ∈ s.fraction, ¬ isBlank c := fun c hc => (not_isBlank_of_isDigit (s.isDigit_fraction c hc)).1
  unfold fractionChars
  split
  · nofun
  · exact List.forall_mem_cons.2 ⟨by decide, hdigits⟩

theorem Zone.not_isBlank_chars (zone : Zone) : ∀ c ∈ zone.chars, ¬ isBlank c := by
  cases zone with
  | absent => nofun
  | utc => exact List.forall_mem_singleton.2 (by decide)
  | offset o =>
    refine List.forall_mem_cons.2 ⟨by split <;> decide, ?_⟩
    simp only [List.forall_mem_append, List.forall_mem_cons]
    exact ⟨Instant.not_isBlank_padded, by decide, Instant.not_isBlank_padded⟩

/-! ### Reading -/

namespace Instant

theorem parse?_ofList {cs : List Char} (h : ∀ c ∈ cs, ¬ isBlank c) :
    parse? (String.ofList cs) =
      ((parseStrict? cs).or <| (parseZoneless? cs).or <| (parseSpaced? cs).or (parseDate? cs)) := by
  rw [parse?, String.toList_ofList, trim_eq_self h]

theorem parse?_text (s : Written) (zone : Zone) {t : Instant} (ht : s.wall.toInstant? = some t) :
    parse? (s.text ++ zone.text) = some (t.earlier zone.seconds) := by
  obtain ⟨hnodigit, hpoint⟩ := zone.head?_chars
  have hfraction := s.fraction?_fractionChars hnodigit hpoint
  have hchars : s.text ++ zone.text = String.ofList (s.wall.chars ++ (s.fractionChars ++ zone.chars)) := by
    rw [Written.text, Zone.text, ← String.ofList_append, List.append_assoc]
  have hstrict := WallTime.parseStrict?_chars s.isWritable_wall hfraction
  have hzoned (hne : zone.chars ≠ []) :
      parseStrict? (s.wall.chars ++ (s.fractionChars ++ zone.chars)) = some (t.earlier zone.seconds) := by
    rw [hstrict, zone.zone?_chars hne]
    exact ofLocal?_earlier s.isWritable_wall ht zone.natAbs_seconds_lt
  rw [hchars, parse?_ofList]
  · cases zone with
    | absent =>
      -- the strict form asks for a zone, so the next form is tried
      have hzoneless : parseZoneless? (s.wall.chars ++ (s.fractionChars ++ Zone.absent.chars)) = some t :=
        (WallTime.parseZoneless?_chars s.isWritable_wall hfraction).trans ht
      rw [hstrict, hzoneless]
      show some t = some (t.earlier 0)
      rw [earlier_zero]
    | utc =>
      rw [hzoned (List.cons_ne_nil _ _)]
      rfl
    | offset o =>
      rw [hzoned (List.cons_ne_nil _ _)]
      rfl
  · simp only [List.forall_mem_append]
    exact ⟨s.wall.not_isBlank_chars, s.not_isBlank_fractionChars, zone.not_isBlank_chars⟩

/-- A date and time is read with its zone, whatever blanks are around: without a zone and with `Z` as the instant that
is written so in UTC, with an offset as the instant that is earlier by the offset, within the same second. -/
theorem zones_agree (s : Written) : ∃ t : Instant, t.wall = s.wall ∧ ∀ (zone : Zone) (front back : String),
    (∀ c ∈ front.toList ++ back.toList, isBlank c) →
      parse? (front ++ (s.text ++ zone.text) ++ back) = some ⟨t.seconds - zone.seconds, t.nanos⟩ := by
  obtain ⟨t, ht, hwall⟩ := s.isWritable_wall.exists_instant
  refine ⟨t, hwall, fun zone front back hblank => ?_⟩
  rw [parse?_surrounded hblank]
  exact parse?_text s zone ht

/-- A leap second at the end of a leap year, in a text with more digits than count. -/
def leapSecond : Written where
  date := ⟨2016, 12, 31⟩
  hour := 23
  minute := 59
  second := 60
  fraction := ['5', '0', '0', '0', '0', '0', '0', '0', '0', '7']
  isValid_date := by decide
  year_bounds := by decide
  hour_le := by decide
  minute_le := by decide
  second_le := by decide
  isDigit_fraction := List.all_eq_true.1 (by decide)

theorem zones_agree_leapSecond :
    (∀ c ∈ "\u2003".toList ++ "\n".toList, isBlank c) ∧
    ∃ t : Instant, t.wall = ⟨⟨2016, 12, 31⟩, 23, 59, 60, 500000000⟩ ∧
      parse? "2016-12-31T23:59:60.5000000007" = some t ∧
      parse? "\u20032016-12-31T23:59:60.5000000007-05:30\n" = some ⟨t.seconds + 19800, t.nanos⟩ := by
  obtain ⟨t, hwall, hread⟩ := zones_agree leapSecond
  have hblank : ∀ c ∈ "\u2003".toList ++ "\n".toList, isBlank c := List.all_eq_true.1 (by decide)
  refine ⟨hblank, t, hwall, ?_, ?_⟩
  · have htext : "" ++ (leapSecond.text ++ Zone.absent.text) ++ "" = "2016-12-31T23:59:60.5000000007" := by decide
    have habsent := hread .absent "" "" nofun
    rw [htext] at habsent
    exact habsent.trans (congrArg some (t.earlier_zero))
  · have htext : "\u2003" ++ (leapSecond.text ++ (Zone.offset ⟨true, 5, 30, by decide, by decide⟩).text) ++ "\n" =
        "\u20032016-12-31T23:59:60.5000000007-05:30\n" := by decide
    have hbehind := hread (.offset ⟨true, 5, 30, by decide, by decide⟩) "\u2003" "\n" hblank
    rw [htext] at hbehind
    exact hbehind

/-! ### Printed instants -/

/-- The year of the moment has four digits, and only the last second of a minute goes on as a leap second. -/
structure IsPrintable (t : Instant) : Prop where
  year : 0 ≤ t.wall.date.year ∧ t.wall.date.year ≤ 9999
  nanos : t.nanos < 1000000000 ∨ t.nanos < 2000000000 ∧ t.seconds % 60 = 59

theorem IsPrintable.isProper {t : Instant} (h : t.IsPrintable) : t.IsProper := by
  have hrange := inRange_earlier h.year (by decide : (0 : Int).natAbs < 86400)
  rw [earlier_zero] at hrange
  exact ⟨hrange, h.nanos⟩

theorem IsPrintable.isWritable_wall {t : Instant} (h : t.IsPrintable) : t.wall.IsWritable := by
  obtain ⟨hdate, -, ⟨hhour, hminute, hsecond⟩, hnanos⟩ := wall_bounds h.isProper
  exact ⟨hdate, h.year, hhour, hminute, hsecond, hnanos⟩

theorem not_isBlank_fractionChars (nanos : Nat) : ∀ c ∈ fractionChars nanos, ¬ isBlank c := by
  have hpoint : ∀ width n, ∀ c ∈ '.' :: padded width n, ¬ isBlank c := fun width n =>
    List.forall_mem_cons.2 ⟨by decide, not_isBlank_padded⟩
  unfold fractionChars
  split
  · nofun
  · split
    · exact hpoint 3 _
    · split
      · exact hpoint 6 _
      · exact hpoint 9 _

/-- A server's reader gives a printed instant back. -/
theorem parse?_render {t : Instant} (h : t.IsPrintable) : parse? t.render = some t := by
  have hw := h.isWritable_wall
  have hfraction : fraction? (fractionChars t.wall.nanos ++ ['Z']) = some (t.wall.nanos, ['Z']) :=
    fraction?_fractionChars hw.nanos (by intro c hc; cases hc; decide) (by decide)
  have hyear : yearChars t.wall.date.year = padded 4 t.wall.date.year.toNat := if_pos h.year
  have hchars : t.chars = t.wall.chars ++ (fractionChars t.wall.nanos ++ ['Z']) := by
    simp only [chars_eq, WallTime.chars, hyear, List.append_assoc, List.cons_append]
  rw [render, hchars, parse?_ofList, WallTime.parseStrict?_chars hw hfraction]
  · show (ofLocal? t.wall 0).or _ = some t
    rw [ofLocal?_wall h.isProper, Option.some_or]
  · simp only [List.forall_mem_append, List.forall_mem_singleton]
    exact ⟨t.wall.not_isBlank_chars, not_isBlank_fractionChars _, by decide⟩

end Instant

end Entitle
