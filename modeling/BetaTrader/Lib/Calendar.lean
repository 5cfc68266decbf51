import Mathlib.Algebra.Order.Ring.Int

/-!
# Dates of the Gregorian calendar

Days count from 1970-01-01, months and days of a month from 1.  The year is
taken to begin in March, so that the leap day is its last.
-/

namespace Calendar

structure DateTime where
  year : ℤ
  month : ℤ
  day : ℤ
  hour : ℤ
  minute : ℤ
  second : ℤ
  deriving DecidableEq

def daysFromCivil (year month day : ℤ) : ℤ :=
  let y := if month ≤ 2 then year - 1 else year
  let yearOfEra := y % 400
  let monthFromMarch := if month ≤ 2 then month + 9 else month - 3
  let dayOfYear := (153 * monthFromMarch + 2) / 5 + day - 1
  let dayOfEra := yearOfEra * 365 + yearOfEra / 4 - yearOfEra / 100 + dayOfYear
  y / 400 * 146097 + dayOfEra - 719468

/-- Year, month and day. -/
def civilFromDays (days : ℤ) : ℤ × ℤ × ℤ :=
  let z := days + 719468
  let dayOfEra := z % 146097
  let yearOfEra :=
    (dayOfEra - dayOfEra / 1460 + dayOfEra / 36524 - dayOfEra / 146096) / 365
  let dayOfYear := dayOfEra - (365 * yearOfEra + yearOfEra / 4 - yearOfEra / 100)
  let monthFromMarch := (5 * dayOfYear + 2) / 153
  let day := dayOfYear - (153 * monthFromMarch + 2) / 5 + 1
  let month := if monthFromMarch < 10 then monthFromMarch + 3 else monthFromMarch - 9
  let year := yearOfEra + z / 146097 * 400
  (if month ≤ 2 then year + 1 else year, month, day)

/-- `timegm`: the seconds since the epoch, the fields taken as UTC. -/
def timegm (t : DateTime) : ℤ :=
  daysFromCivil t.year t.month t.day * 86400 + t.hour * 3600 + t.minute * 60 + t.second

/-- `gmtime`. -/
def gmtime (seconds : ℤ) : DateTime :=
  let (year, month, day) := civilFromDays (seconds / 86400)
  let rest := seconds % 86400
  { year := year, month := month, day := day, hour := rest / 3600,
    minute := rest % 3600 / 60, second := rest % 60 }

/-! ## There and back -/

/-- The day of the year that `civilFromDays` computes is one. -/
theorem dayOfYear_bounds {dayOfEra yearOfEra : ℤ} (hfirst : 0 ≤ dayOfEra)
    (hlast : dayOfEra < 146097) (hyear : yearOfEra =
      (dayOfEra - dayOfEra / 1460 + dayOfEra / 36524 - dayOfEra / 146096) / 365) :
    0 ≤ dayOfEra - (365 * yearOfEra + yearOfEra / 4 - yearOfEra / 100) ∧
      dayOfEra - (365 * yearOfEra + yearOfEra / 4 - yearOfEra / 100) ≤ 365 := by
  have hcentury : dayOfEra < 36524 ∨ (36524 ≤ dayOfEra ∧ dayOfEra < 2 * 36524) ∨
      (2 * 36524 ≤ dayOfEra ∧ dayOfEra < 3 * 36524) ∨
      (3 * 36524 ≤ dayOfEra ∧ dayOfEra < 4 * 36524) ∨ dayOfEra = 146096 := by omega
  rcases hcentury with h | h | h | h | rfl
  · have hyears : yearOfEra / 100 = 0 := by omega
    omega
  · have hyears : yearOfEra / 100 = 1 := by omega
    omega
  · have hyears : yearOfEra / 100 = 2 := by omega
    omega
  · have hyears : yearOfEra / 100 = 3 := by omega
    omega
  · subst hyear
    decide

/-- The parts of a date, with what is known about them. -/
theorem civilFromDays_spec (days : ℤ) : ∃ era yearOfEra dayOfYear monthFromMarch : ℤ,
    days + 719468 = era * 146097 +
      (365 * yearOfEra + yearOfEra / 4 - yearOfEra / 100 + dayOfYear) ∧
    (0 ≤ yearOfEra ∧ yearOfEra < 400) ∧ (0 ≤ dayOfYear ∧ dayOfYear ≤ 365) ∧
    monthFromMarch = (5 * dayOfYear + 2) / 153 ∧
    civilFromDays days =
      (yearOfEra + era * 400 + (if monthFromMarch < 10 then 0 else 1),
        (if monthFromMarch < 10 then monthFromMarch + 3 else monthFromMarch - 9),
        dayOfYear - (153 * monthFromMarch + 2) / 5 + 1) := by
  have hfirst : 0 ≤ (days + 719468) % 146097 := by omega
  have hlast : (days + 719468) % 146097 < 146097 := by omega
  obtain ⟨dayOfEra, hday⟩ : ∃ dayOfEra, dayOfEra = (days + 719468) % 146097 := ⟨_, rfl⟩
  rw [← hday] at hfirst hlast
  obtain ⟨yearOfEra, hyear⟩ : ∃ yearOfEra, yearOfEra =
    (dayOfEra - dayOfEra / 1460 + dayOfEra / 36524 - dayOfEra / 146096) / 365 := ⟨_, rfl⟩
  have hbounds := dayOfYear_bounds hfirst hlast hyear
  obtain ⟨dayOfYear, hdayOfYear⟩ : ∃ dayOfYear, dayOfYear =
    dayOfEra - (365 * yearOfEra + yearOfEra / 4 - yearOfEra / 100) := ⟨_, rfl⟩
  rw [← hdayOfYear] at hbounds
  refine ⟨(days + 719468) / 146097, yearOfEra, dayOfYear, (5 * dayOfYear + 2) / 153, by omega,
    by omega, hbounds, rfl, ?_⟩
  simp only [civilFromDays]
  rw [← hday, ← hyear, ← hdayOfYear]
  by_cases hmonth : (5 * dayOfYear + 2) / 153 < 10
  · simp only [if_pos hmonth]
    rw [if_neg (by omega), add_zero]
  · simp only [if_neg hmonth]
    rw [if_pos (by omega)]

theorem daysFromCivil_civilFromDays (days : ℤ) :
    daysFromCivil (civilFromDays days).1 (civilFromDays days).2.1 (civilFromDays days).2.2 =
      days := by
  obtain ⟨era, yearOfEra, dayOfYear, monthFromMarch, hdays, hyear, hday, hmonth, heq⟩ :=
    civilFromDays_spec days
  rw [heq]
  simp only [daysFromCivil]
  by_cases hmarch : monthFromMarch < 10
  · simp only [if_pos hmarch]
    rw [if_neg (by omega), if_neg (by omega)]
    have hera : (yearOfEra + era * 400 + 0) / 400 = era := by omega
    have hyears : (yearOfEra + era * 400 + 0) % 400 = yearOfEra := by omega
    rw [hera, hyears]
    omega
  · simp only [if_neg hmarch]
    rw [if_pos (by omega), if_pos (by omega)]
    have hera : (yearOfEra + era * 400 + 1 - 1) / 400 = era := by omega
    have hyears : (yearOfEra + era * 400 + 1 - 1) % 400 = yearOfEra := by omega
    rw [hera, hyears]
    omega

theorem timegm_gmtime (seconds : ℤ) : timegm (gmtime seconds) = seconds := by
  simp only [timegm, gmtime, daysFromCivil_civilFromDays]
  omega

/-- The fields are those of a date and a time of the day. -/
structure DateTime.Valid (t : DateTime) : Prop where
  month : 1 ≤ t.month ∧ t.month ≤ 12
  day : 1 ≤ t.day ∧ t.day ≤ 31
  hour : 0 ≤ t.hour ∧ t.hour ≤ 23
  minute : 0 ≤ t.minute ∧ t.minute ≤ 59
  second : 0 ≤ t.second ∧ t.second ≤ 59

theorem valid_gmtime (seconds : ℤ) : (gmtime seconds).Valid := by
  obtain ⟨era, yearOfEra, dayOfYear, monthFromMarch, hdays, hyear, hday, hmonth, heq⟩ :=
    civilFromDays_spec (seconds / 86400)
  have hmonth' : 1 ≤ (civilFromDays (seconds / 86400)).2.1 ∧
      (civilFromDays (seconds / 86400)).2.1 ≤ 12 := by
    rw [heq]
    dsimp only
    split_ifs <;> omega
  have hday' : 1 ≤ (civilFromDays (seconds / 86400)).2.2 ∧
      (civilFromDays (seconds / 86400)).2.2 ≤ 31 := by
    rw [heq]
    dsimp only
    omega
  have hrest : 0 ≤ seconds % 86400 ∧ seconds % 86400 < 86400 := by omega
  exact ⟨hmonth', hday', by simp only [gmtime]; omega, by simp only [gmtime]; omega,
    by simp only [gmtime]; omega⟩

/-- The years from 1970 to 9999. -/
theorem year_gmtime {seconds : ℤ} (hfirst : 0 ≤ seconds) (hlast : seconds < 253402300800) :
    1970 ≤ (gmtime seconds).year ∧ (gmtime seconds).year ≤ 9999 := by
  obtain ⟨era, yearOfEra, dayOfYear, monthFromMarch, hdays, hyear, hday, hmonth, heq⟩ :=
    civilFromDays_spec (seconds / 86400)
  have hera : 4 ≤ era ∧ era ≤ 24 := by omega
  have hcentury : yearOfEra / 100 = 0 ∨ yearOfEra / 100 = 1 ∨ yearOfEra / 100 = 2 ∨
      yearOfEra / 100 = 3 := by omega
  have hlower : 1970 ≤ yearOfEra + era * 400 + (if monthFromMarch < 10 then 0 else 1) := by
    rcases (by omega : era = 4 ∨ 5 ≤ era) with rfl | hlate
    · -- 1970 is in the era that began in the year 1600
      have hyears : 369 ≤ yearOfEra := by
        by_contra hearly
        rcases hcentury with h | h | h | h <;> omega
      split_ifs <;> omega
    · split_ifs <;> omega
  have hupper : yearOfEra + era * 400 + (if monthFromMarch < 10 then 0 else 1) ≤ 9999 := by
    split_ifs <;> rcases hcentury with h | h | h | h <;> omega
  simp only [gmtime, heq]
  exact ⟨hlower, hupper⟩

end Calendar
