import Entitle.Timestamp.Basic
import Mathlib.Tactic.ByContra

/-!
# Days and dates

The date of a day exists, and its day is that day (`Date.isValid_ofDayNumber`, `Date.dayNumber_ofDayNumber`). The day of
a date is that of no other date (`Date.ofDayNumber_dayNumber`). Years that begin in March put the leap day last, so a
day's place in its era gives the year by division, and the place in the year the month. An instant in range has a year
in range (`Instant.year_of_inRange`).
-/

namespace Entitle

namespace Date

theorem daysIn_le (year : Int) (month : Nat) : daysIn year month ≤ 31 := by
  unfold daysIn
  split <;> split <;> omega

theorem le_of_isValid {d : Date} (h : d.isValid) : d.month ≤ 12 ∧ d.day ≤ 31 := by
  have hdays := daysIn_le d.year d.month
  simp only [isValid, Bool.and_eq_true, decide_eq_true_eq] at h
  omega

/-! ### Years of an era -/

/-- The days of an era before a year of it. -/
def daysBefore (yearOfEra : Int) : Int :=
  365 * yearOfEra + yearOfEra / 4 - yearOfEra / 100

/-- The year of a day of an era. -/
def yearOf (dayOfEra : Int) : Int :=
  (dayOfEra - dayOfEra / 1460 + dayOfEra / 36524 - dayOfEra / 146096) / 365

/-- The day of its year of a day of an era. -/
def dayOf (dayOfEra : Int) : Int :=
  dayOfEra - daysBefore (yearOf dayOfEra)

variable {d : Int}

theorem yearOf_bounds (h : 0 ≤ d ∧ d < 146097) : 0 ≤ yearOf d ∧ yearOf d ≤ 399 := by
  unfold yearOf
  omega

/-- A day and its year are in the same century of the era, but for the last day, which is in none. By centuries what
remains is linear. -/
theorem centuries (h : 0 ≤ d ∧ d < 146097) :
    (∃ c, (c = 0 ∨ c = 1 ∨ c = 2 ∨ c = 3) ∧ d / 36524 = c ∧ d / 146096 = 0 ∧ yearOf d / 100 = c) ∨
      d = 146096 ∧ yearOf d = 399 := by
  by_cases hlast : d = 146096
  · exact .inr ⟨hlast, by rw [hlast]; decide⟩
  · have hcentury : d / 36524 = 0 ∨ d / 36524 = 1 ∨ d / 36524 = 2 ∨ d / 36524 = 3 := by omega
    have hnone : d / 146096 = 0 := by omega
    refine .inl ⟨_, hcentury, rfl, hnone, ?_⟩
    unfold yearOf
    rw [hnone]
    rcases hcentury with hc | hc | hc | hc <;> rw [hc] <;> omega

theorem dayOf_nonneg (h : 0 ≤ d ∧ d < 146097) : 0 ≤ dayOf d := by
  have hdef : yearOf d = (d - d / 1460 + d / 36524 - d / 146096) / 365 := rfl
  unfold dayOf daysBefore
  rcases centuries h with ⟨c, hc, hcentury, hnone, hyear⟩ | ⟨rfl, hyear⟩
  · rw [hcentury, hnone] at hdef
    rw [hyear]
    rcases hc with rfl | rfl | rfl | rfl <;> omega
  · rw [hyear]
    decide

/-- A day is the 366th of its year only in a year before whose end a leap day stands. -/
theorem dayOf_le (h : 0 ≤ d ∧ d < 146097) :
    dayOf d ≤ 364 ∨ dayOf d = 365 ∧ yearOf d % 4 = 3 ∧ (yearOf d % 100 ≠ 99 ∨ yearOf d = 399) := by
  have hdef : yearOf d = (d - d / 1460 + d / 36524 - d / 146096) / 365 := rfl
  unfold dayOf daysBefore
  rcases centuries h with ⟨c, hc, hcentury, hnone, hyear⟩ | ⟨rfl, hyear⟩
  · rw [hcentury, hnone] at hdef
    rw [hyear]
    rcases hc with rfl | rfl | rfl | rfl <;> omega
  · rw [hyear]
    decide

/-! ### Months from March on -/

/-- The date of a day by its era, the year of the era and the day of that year. -/
def ofParts (era yearOfEra dayOfYear : Int) : Date :=
  let monthFromMarch := (5 * dayOfYear + 2) / 153
  let month := if monthFromMarch < 10 then monthFromMarch + 3 else monthFromMarch - 9
  ⟨yearOfEra + era * 400 + (if month ≤ 2 then 1 else 0), month.toNat,
    (dayOfYear - (153 * monthFromMarch + 2) / 5 + 1).toNat⟩

theorem ofDayNumber_eq (n : Int) :
    ofDayNumber n = ofParts ((n + 719468) / 146097) (yearOf ((n + 719468) % 146097)) (dayOf ((n + 719468) % 146097)) :=
  rfl

variable {era year day : Int}

/-- What the parts of the date say of the parts that it was made from. Before the 306th day it is not yet January. -/
theorem ofParts_parts (hday : 0 ≤ day ∧ day ≤ 365) :
    let date := ofParts era year day
    let monthFromMarch := (5 * day + 2) / 153
    ((date.month : Int) + 9) % 12 = monthFromMarch ∧
      (1 ≤ date.month ∧ date.month ≤ 12 ∧ (date.month ≤ 2 ↔ 306 ≤ day)) ∧
      (date.day : Int) = day - (153 * monthFromMarch + 2) / 5 + 1 ∧
      date.year = if date.month ≤ 2 then year + era * 400 + 1 else year + era * 400 := by
  intro date monthFromMarch
  have hmonth : 0 ≤ monthFromMarch ∧ monthFromMarch ≤ 11 := by omega
  have hdate : date.day = (day - (153 * monthFromMarch + 2) / 5 + 1).toNat := rfl
  have hfirst : (153 * monthFromMarch + 2) / 5 ≤ day := by omega
  by_cases hsameYear : monthFromMarch < 10
  · have hm : date.month = (monthFromMarch + 3).toNat := by
      simp only [date, ofParts, monthFromMarch, hsameYear, if_true]
    have hy : date.year = year + era * 400 + 0 := by
      have hlate : ¬ monthFromMarch + 3 ≤ 2 := by omega
      simp only [date, ofParts, monthFromMarch, hsameYear, if_true]
      rw [if_neg hlate]
    rw [if_neg (by omega)]
    omega
  · have hm : date.month = (monthFromMarch - 9).toNat := by
      simp only [date, ofParts, monthFromMarch, hsameYear, if_false]
    have hy : date.year = year + era * 400 + 1 := by
      have hearly : monthFromMarch - 9 ≤ 2 := by omega
      simp only [date, ofParts, monthFromMarch, hsameYear, if_false]
      rw [if_pos hearly]
    rw [if_pos (by omega)]
    omega

theorem dayNumber_ofParts (hyear : 0 ≤ year ∧ year ≤ 399) (hday : 0 ≤ day ∧ day ≤ 365) :
    (ofParts era year day).dayNumber = era * 146097 + (daysBefore year + day) - 719468 := by
  obtain ⟨hmonth, -, hdate, hy⟩ := @ofParts_parts era year day hday
  have hstart : (if (ofParts era year day).month ≤ 2 then (ofParts era year day).year - 1
      else (ofParts era year day).year) = year + era * 400 := by
    rw [hy]
    split <;> omega
  simp only [dayNumber, hstart, hmonth, hdate, daysBefore]
  omega

/-- The date is one if the last day of a long year is in a year before whose end a leap day stands. -/
theorem isValid_ofParts
    (hday : 0 ≤ day ∧ (day ≤ 364 ∨ day = 365 ∧ year % 4 = 3 ∧ (year % 100 ≠ 99 ∨ year = 399))) :
    (ofParts era year day).isValid := by
  obtain ⟨hmonth, hrange, hdate, hy⟩ := @ofParts_parts era year day (by omega)
  have hlast : (ofParts era year day).day ≤ daysIn (ofParts era year day).year (ofParts era year day).month := by
    unfold daysIn
    split
    · next hfebruary =>
      rw [if_pos (by omega)] at hy
      have hleap : ¬ isLeap (ofParts era year day).year → day ≤ 364 := by
        simp only [isLeap, hy, Bool.and_eq_true, Bool.or_eq_true, decide_eq_true_eq]
        omega
      split
      · omega
      · next hshort => have := hleap hshort; omega
    · split <;> omega
  simp only [isValid, Bool.and_eq_true, decide_eq_true_eq]
  omega

/-! ### The date of a day -/

theorem isValid_ofDayNumber (n : Int) : (ofDayNumber n).isValid := by
  have hera : 0 ≤ (n + 719468) % 146097 ∧ (n + 719468) % 146097 < 146097 := by omega
  rw [ofDayNumber_eq]
  exact isValid_ofParts ⟨dayOf_nonneg hera, dayOf_le hera⟩

theorem dayNumber_ofDayNumber (n : Int) : (ofDayNumber n).dayNumber = n := by
  have hera : 0 ≤ (n + 719468) % 146097 ∧ (n + 719468) % 146097 < 146097 := by omega
  have hday := dayOf_le hera
  rw [ofDayNumber_eq, dayNumber_ofParts (yearOf_bounds hera) ⟨dayOf_nonneg hera, by omega⟩, dayOf]
  omega

/-! ### The day of a date -/

theorem monthFromMarch_eq {d : Date} (h : d.isValid) :
    let month : Int := (d.month + 9) % 12
    let day := (153 * month + 2) / 5 + d.day - 1
    (5 * day + 2) / 153 = month ∧ 0 ≤ day ∧ (day ≤ 364 ∨ day = 365 ∧ isLeap d.year ∧ d.month = 2) := by
  simp only [isValid, Bool.and_eq_true, decide_eq_true_eq] at h
  obtain ⟨⟨⟨hfirst, hlast⟩, hday⟩, hdays⟩ := h
  unfold daysIn at hdays
  split at hdays
  · next hfebruary =>
    split at hdays
    · next hleap => simp only [hfebruary, hleap, and_self, and_true]; omega
    · simp only [hfebruary]; omega
  · have hlength : d.day ≤ 30 ∨ d.day = 31 ∧ (d.month = 1 ∨ d.month = 3 ∨ d.month = 5 ∨ d.month = 7 ∨ d.month = 8 ∨
        d.month = 10 ∨ d.month = 12) := by
      split at hdays <;> omega
    rcases hlength with hshort | ⟨hlong, h | h | h | h | h | h | h⟩
    · -- no month from March on is shorter than 30 days but the last
      have hmonth : 0 ≤ ((d.month : Int) + 9) % 12 ∧ ((d.month : Int) + 9) % 12 ≤ 10 := by omega
      generalize ((d.month : Int) + 9) % 12 = month at hmonth
      omega
    all_goals
      rw [h, hlong]
      exact ⟨by decide, by decide, .inl (by decide)⟩

theorem exists_ofParts {d : Date} (h : d.isValid) : ∃ era year day : Int, (0 ≤ year ∧ year ≤ 399) ∧
    (0 ≤ day ∧ (day ≤ 364 ∨ day = 365 ∧ year % 4 = 3 ∧ (year % 100 ≠ 99 ∨ year = 399))) ∧ ofParts era year day = d := by
  obtain ⟨hmonth, hday, hlast⟩ := monthFromMarch_eq h
  simp only [isValid, Bool.and_eq_true, decide_eq_true_eq] at h
  refine ⟨(if d.month ≤ 2 then d.year - 1 else d.year) / 400, (if d.month ≤ 2 then d.year - 1 else d.year) % 400,
    (153 * ((d.month + 9) % 12) + 2) / 5 + d.day - 1, by omega, ⟨hday, ?_⟩, ?_⟩
  · rcases hlast with hlast | ⟨hlast, hleap, hfebruary⟩
    · exact .inl hlast
    · simp only [isLeap, Bool.and_eq_true, Bool.or_eq_true, decide_eq_true_eq] at hleap
      rw [if_pos (by omega)]
      omega
  · unfold ofParts
    simp only [hmonth]
    rcases d with ⟨year, month, day⟩
    simp only at *
    rw [Date.mk.injEq]
    have hm : ((month : Int) + 9) % 12 = if month ≤ 2 then (month : Int) + 9 else month - 3 := by split <;> omega
    rw [hm]
    split
    · refine ⟨?_, ?_, ?_⟩
      · split <;> split <;> omega
      · split <;> omega
      · omega
    · refine ⟨?_, ?_, ?_⟩
      · split <;> split <;> omega
      · split <;> omega
      · omega

theorem daysBefore_lt {year' : Int} (hlt : year < year') (hyear : year' ≤ 399)
    (hday : day ≤ 364 ∨ day = 365 ∧ year % 4 = 3 ∧ (year % 100 ≠ 99 ∨ year = 399)) :
    daysBefore year + day < daysBefore year' := by
  unfold daysBefore
  omega

theorem yearOf_daysBefore_add (hyear : 0 ≤ year ∧ year ≤ 399)
    (hday : 0 ≤ day ∧ (day ≤ 364 ∨ day = 365 ∧ year % 4 = 3 ∧ (year % 100 ≠ 99 ∨ year = 399))) :
    (0 ≤ daysBefore year + day ∧ daysBefore year + day < 146097) ∧ yearOf (daysBefore year + day) = year := by
  have hera : 0 ≤ daysBefore year + day ∧ daysBefore year + day < 146097 := by
    unfold daysBefore
    omega
  refine ⟨hera, ?_⟩
  obtain ⟨-, hlast⟩ := yearOf_bounds hera
  have hnonneg := dayOf_nonneg hera
  have hsplit :
      daysBefore (yearOf (daysBefore year + day)) + dayOf (daysBefore year + day) = daysBefore year + day := by
    rw [dayOf]
    omega
  rcases Int.lt_trichotomy (yearOf (daysBefore year + day)) year with hlt | heq | hlt
  · have := daysBefore_lt hlt hyear.2 (dayOf_le hera)
    omega
  · exact heq
  · have := daysBefore_lt hlt hlast hday.2
    omega

theorem ofDayNumber_dayNumber {d : Date} (h : d.isValid) : ofDayNumber d.dayNumber = d := by
  obtain ⟨era, year, day, hyear, hday, rfl⟩ := exists_ofParts h
  obtain ⟨hera, hyearOf⟩ := yearOf_daysBefore_add hyear hday
  have hnumber := @dayNumber_ofParts era year day hyear (by omega)
  have hdiv : ((ofParts era year day).dayNumber + 719468) / 146097 = era := by omega
  have hmod : ((ofParts era year day).dayNumber + 719468) % 146097 = daysBefore year + day := by omega
  rw [ofDayNumber_eq, hdiv, hmod, dayOf, hyearOf]
  congr 1
  omega

end Date

namespace Instant

theorem year_of_inRange {t : Instant} (h : t.inRange) :
    leastYear ≤ (Date.ofDayNumber (t.seconds / 86400)).year ∧
      (Date.ofDayNumber (t.seconds / 86400)).year ≤ greatestYear := by
  have hfirst : Date.dayNumber ⟨leastYear, 1, 1⟩ = -96465292 := by decide
  have hlast : Date.dayNumber ⟨greatestYear + 1, 1, 1⟩ = 95026237 := by decide
  simp only [inRange, hfirst, hlast, Bool.and_eq_true, decide_eq_true_eq] at h
  obtain ⟨n, hn⟩ : ∃ n, t.seconds / 86400 = n := ⟨_, rfl⟩
  have hrange : -96465292 ≤ n ∧ n < 95026237 := by omega
  rw [hn, Date.ofDayNumber_eq]
  have hera : 0 ≤ (n + 719468) % 146097 ∧ (n + 719468) % 146097 < 146097 := by omega
  have hyear := Date.yearOf_bounds hera
  have hday : 0 ≤ Date.dayOf ((n + 719468) % 146097) ∧ Date.dayOf ((n + 719468) % 146097) ≤ 365 := by
    have := Date.dayOf_le hera
    exact ⟨Date.dayOf_nonneg hera, by omega⟩
  have hnumber := Date.dayNumber_ofDayNumber n
  rw [Date.ofDayNumber_eq, Date.dayNumber_ofParts hyear hday, Date.daysBefore] at hnumber
  generalize (n + 719468) / 146097 = era at *
  generalize Date.yearOf ((n + 719468) % 146097) = year at *
  generalize Date.dayOf ((n + 719468) % 146097) = day at *
  obtain ⟨-, ⟨-, -, hjanuary⟩, -, hy⟩ := @Date.ofParts_parts era year day hday
  generalize Date.ofParts era year day = date at *
  simp only [leastYear, greatestYear]
  -- a year out of range lies in the era of the first or of the last day in range
  constructor
  · by_contra hlow
    have hera : era = -656 := by split at hy <;> omega
    have hlast : year ≤ 255 ∨ year = 256 := by split at hy <;> omega
    rcases hlast with hlast | hlast <;> split at hy <;> omega
  · by_contra hhigh
    have hera : era = 655 := by split at hy <;> omega
    have hfirst : year = 142 ∨ 143 ≤ year := by split at hy <;> omega
    rcases hfirst with hfirst | hfirst <;> split at hy <;> omega

end Instant

end Entitle
