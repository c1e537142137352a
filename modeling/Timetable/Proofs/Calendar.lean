import Timetable.Instant

/-!
# Dates and day numbers

The number of a date leads back to the day that the date was made of (`Date.toDay_civil`), and the
date of a number to the date, if it is one of the calendar (`Date.civil_toDay`). Sixteen bits hold
the years of `Calendar.Dated` days, on which `Date.ofDay` is therefore the date without any cut, and
a day is told by its date (`Date.ofDay_inj`). Later days have later dates (`Date.before_civil`),
since both the years and the months begin later that are counted from March.
-/

namespace Timetable

namespace Date

open Calendar

/-- The year of an era to which a day of the era belongs. -/
def yearOfEra (day : Int) : Int := (day - day / 1460 + day / 36524 - day / 146096) / 365

/-- The first day of a year of an era. -/
def startOfYear (year : Int) : Int := 365 * year + year / 4 - year / 100

/-- The month, counted from March, to which a day of a year belongs. -/
def monthOfYear (day : Int) : Int := (5 * day + 2) / 153

/-- The first day of a month, counted from March. -/
def startOfMonth (month : Int) : Int := (153 * month + 2) / 5

/-- The date of a day of a month, where months and years begin in March. -/
def fromMarch (era year month day : Int) : Date :=
  let calendarMonth := if month < 10 then month + 3 else month - 9
  let calendarYear := year + era * 400
  ⟨if calendarMonth ≤ 2 then calendarYear + 1 else calendarYear, calendarMonth.toNat, day.toNat⟩

theorem civil_eq (day : Int) :
    let z := day + 719468
    let year := yearOfEra (z % 146097)
    let dayOfYear := z % 146097 - startOfYear year
    civil day = fromMarch (z / 146097) year (monthOfYear dayOfYear)
      (dayOfYear - startOfMonth (monthOfYear dayOfYear) + 1) := rfl

section Era

variable {day : Int} (h₀ : 0 ≤ day) (h₁ : day < 146097)

include h₀ h₁

theorem yearOfEra_bounds : 0 ≤ yearOfEra day ∧ yearOfEra day ≤ 399 := by
  unfold yearOfEra
  omega

/-- A day of an era is one of the days of its year. -/
theorem startOfYear_bounds :
    startOfYear (yearOfEra day) ≤ day ∧ day ≤ startOfYear (yearOfEra day) + 365 := by
  rcases Int.lt_or_eq_of_le (show day ≤ 146096 by omega) with h | rfl
  · have hlast : day / 146096 = 0 := by omega
    simp only [startOfYear, yearOfEra, hlast, Int.sub_zero]
    generalize hyear : (day - day / 1460 + day / 36524) / 365 = year
    -- the leap days are counted right because a year belongs to the century of its days
    have hcentury : year / 100 = day / 36524 := by omega
    rw [hcentury]
    generalize day / 36524 = century at *
    omega
  · -- the last day of an era is the leap day of its last year
    decide

end Era

/-- Later days of an era belong to later years, or to the same. -/
theorem yearOfEra_mono {day day' : Int} (h₀ : 0 ≤ day) (h : day ≤ day') (h₁ : day' < 146097) :
    yearOfEra day ≤ yearOfEra day' := by
  rcases Int.lt_or_eq_of_le (show day' ≤ 146096 by omega) with hlt | rfl
  · have hlast : day / 146096 = 0 := by omega
    have hlast' : day' / 146096 = 0 := by omega
    have hquarters : day - day / 1460 ≤ day' - day' / 1460 := by omega
    have hcenturies : day / 36524 ≤ day' / 36524 := Int.ediv_le_ediv (by decide) h
    rw [yearOfEra, yearOfEra, hlast, hlast']
    exact Int.ediv_le_ediv (by decide) (by omega)
  · exact (yearOfEra_bounds h₀ (by omega)).2

theorem monthOfYear_bounds {day : Int} (h₀ : 0 ≤ day) (h₁ : day ≤ 365) :
    0 ≤ monthOfYear day ∧ monthOfYear day ≤ 11 ∧ startOfMonth (monthOfYear day) ≤ day := by
  unfold startOfMonth monthOfYear
  omega

theorem toDay_fromMarch {era year month day : Int} (hyear : 0 ≤ year) (hyear' : year ≤ 399)
    (hmonth : 0 ≤ month) (hmonth' : month ≤ 11) (hday : 1 ≤ day) :
    (fromMarch era year month day).toDay =
      era * 146097 + startOfYear year + startOfMonth month + day - 719469 := by
  simp only [toDay, fromMarch, startOfYear, startOfMonth]
  rcases Int.lt_or_le month 10 with h | h
  · have hlate : ¬ (month + 3).toNat ≤ 2 := by omega
    have hlate' : ¬ month + 3 ≤ 2 := by omega
    simp only [h, hlate, hlate', if_true, if_false]
    omega
  · -- January and February belong to the year that began in the March before
    have hnext : ¬ month < 10 := by omega
    have hearly : (month - 9).toNat ≤ 2 := by omega
    have hearly' : month - 9 ≤ 2 := by omega
    simp only [hnext, hearly, hearly', if_true, if_false]
    omega

/-- The date of a day has the number of that day. -/
theorem toDay_civil (day : Int) : (civil day).toDay = day := by
  have h₀ : 0 ≤ (day + 719468) % 146097 := by omega
  have h₁ : (day + 719468) % 146097 < 146097 := by omega
  obtain ⟨hyear, hyear'⟩ := yearOfEra_bounds h₀ h₁
  obtain ⟨hstart, hend⟩ := startOfYear_bounds h₀ h₁
  obtain ⟨hmonth, hmonth', hday⟩ := monthOfYear_bounds (Int.sub_nonneg.2 hstart) (by omega)
  rw [civil_eq, toDay_fromMarch hyear hyear' hmonth hmonth' (by omega)]
  omega

/-- A date lies in the era of its day, or in the first days of the year after it. -/
theorem year_civil_bounds (day : Int) :
    (day + 719468) / 146097 * 400 ≤ (civil day).year ∧
      (civil day).year ≤ (day + 719468) / 146097 * 400 + 400 := by
  have h₀ : 0 ≤ (day + 719468) % 146097 := by omega
  have h₁ : (day + 719468) % 146097 < 146097 := by omega
  obtain ⟨hyear, hyear'⟩ := yearOfEra_bounds h₀ h₁
  rw [civil_eq]
  simp only [fromMarch]
  generalize yearOfEra ((day + 719468) % 146097) = year at *
  split <;> omega

/-! ### The order of dates -/

/-- A date comes before another one. -/
def Before (d d' : Date) : Prop :=
  d.year < d'.year ∨ d.year = d'.year ∧
    (d.month < d'.month ∨ d.month = d'.month ∧ d.day < d'.day)

/-- The number of a month, where the months of all years are counted. -/
def monthNumber (d : Date) : Int := d.year * 12 + d.month

theorem monthNumber_fromMarch {era year month day : Int} (h₀ : 0 ≤ month) (h₁ : month ≤ 11) :
    (fromMarch era year month day).monthNumber = (era * 400 + year) * 12 + month + 3 := by
  simp only [monthNumber, fromMarch]
  rcases Int.lt_or_le month 10 with h | h
  · have hlate : ¬ month + 3 ≤ 2 := by omega
    simp only [h, hlate, if_true, if_false]
    omega
  · have hnext : ¬ month < 10 := by omega
    have hearly : month - 9 ≤ 2 := by omega
    simp only [hnext, hearly, if_true, if_false]
    omega

theorem month_fromMarch_bounds {era year month day : Int} (h₀ : 0 ≤ month) (h₁ : month ≤ 11) :
    1 ≤ (fromMarch era year month day).month ∧ (fromMarch era year month day).month ≤ 12 := by
  simp only [fromMarch]
  rcases Int.lt_or_le month 10 with h | h
  · rw [if_pos h]
    omega
  · rw [if_neg (Int.not_lt.2 h)]
    omega

/-- The year of a day, in years that begin in March. -/
def marchYear (day : Int) : Int :=
  (day + 719468) / 146097 * 400 + yearOfEra ((day + 719468) % 146097)

/-- The days of that year that are over. -/
def marchDay (day : Int) : Int :=
  (day + 719468) % 146097 - startOfYear (yearOfEra ((day + 719468) % 146097))

theorem marchDay_bounds (day : Int) : 0 ≤ marchDay day ∧ marchDay day ≤ 365 := by
  have h₀ : 0 ≤ (day + 719468) % 146097 := by omega
  have h₁ : (day + 719468) % 146097 < 146097 := by omega
  obtain ⟨hstart, hend⟩ := startOfYear_bounds h₀ h₁
  unfold marchDay
  omega

theorem march_lt {day day' : Int} (h : day < day') : marchYear day < marchYear day' ∨
    marchYear day = marchYear day' ∧ marchDay day < marchDay day' := by
  have h₀ : 0 ≤ (day + 719468) % 146097 := by omega
  have h₁ : (day + 719468) % 146097 < 146097 := by omega
  have h₀' : 0 ≤ (day' + 719468) % 146097 := by omega
  have h₁' : (day' + 719468) % 146097 < 146097 := by omega
  have hyear := yearOfEra_bounds h₀ h₁
  have hyear' := yearOfEra_bounds h₀' h₁'
  unfold marchYear marchDay
  by_cases hera : (day + 719468) / 146097 = (day' + 719468) / 146097
  · have hmono : yearOfEra ((day + 719468) % 146097) ≤ yearOfEra ((day' + 719468) % 146097) :=
      yearOfEra_mono h₀ (by omega) h₁'
    rcases Int.lt_or_eq_of_le hmono with hlt | heq
    · left
      omega
    · right
      rw [heq]
      omega
  · left
    omega

theorem monthNumber_civil (day : Int) :
    (civil day).monthNumber = marchYear day * 12 + monthOfYear (marchDay day) + 3 := by
  obtain ⟨h₀, h₁⟩ := marchDay_bounds day
  obtain ⟨hmonth, hmonth', -⟩ := monthOfYear_bounds h₀ h₁
  exact monthNumber_fromMarch hmonth hmonth'

theorem day_civil (day : Int) :
    (civil day).day = (marchDay day - startOfMonth (monthOfYear (marchDay day)) + 1).toNat := rfl

/-- Months and days have the numbers of months and days. -/
theorem civil_bounds (day : Int) : 1 ≤ (civil day).month ∧ (civil day).month ≤ 12 ∧
    1 ≤ (civil day).day ∧ (civil day).day ≤ 31 := by
  obtain ⟨h₀, h₁⟩ := marchDay_bounds day
  obtain ⟨hmonth, hmonth', -⟩ := monthOfYear_bounds h₀ h₁
  obtain ⟨hmonths, hmonths'⟩ : 1 ≤ (civil day).month ∧ (civil day).month ≤ 12 :=
    month_fromMarch_bounds hmonth hmonth'
  refine ⟨hmonths, hmonths', ?_⟩
  rw [day_civil]
  unfold startOfMonth monthOfYear
  omega

/-- A later day has a later date. -/
theorem before_civil {day day' : Int} (h : day < day') : (civil day).Before (civil day') := by
  have hmonths : (civil day).monthNumber < (civil day').monthNumber ∨
      (civil day).monthNumber = (civil day').monthNumber ∧ (civil day).day < (civil day').day := by
    obtain ⟨h₀, h₁⟩ := marchDay_bounds day
    obtain ⟨h₀', h₁'⟩ := marchDay_bounds day'
    rw [monthNumber_civil, monthNumber_civil, day_civil, day_civil]
    unfold startOfMonth monthOfYear
    rcases march_lt h with hyear | ⟨hyear, hday⟩
    · left
      omega
    · rw [hyear]
      omega
  obtain ⟨hmonth, hmonth', -⟩ := civil_bounds day
  obtain ⟨hlater, hlater', -⟩ := civil_bounds day'
  unfold monthNumber at hmonths
  unfold Before
  omega

theorem year_civil_mono {day day' : Int} (h : day ≤ day') :
    (civil day).year ≤ (civil day').year := by
  rcases Int.lt_or_eq_of_le h with hlt | rfl
  · rcases before_civil hlt with hyear | ⟨hyear, -⟩
    · exact Int.le_of_lt hyear
    · exact Int.le_of_eq hyear
  · exact Int.le_refl _

/-- The years 1 to 9999 begin and end with these days. -/
theorem year_civil_iff {day : Int} :
    1 ≤ (civil day).year ∧ (civil day).year ≤ 9999 ↔ -719162 ≤ day ∧ day ≤ 2932896 := by
  have hbefore : (civil (-719163)).year = 0 := by decide
  have hfirst : (civil (-719162)).year = 1 := by decide
  have hlast : (civil 2932896).year = 9999 := by decide
  have hafter : (civil 2932897).year = 10000 := by decide
  constructor
  · rintro ⟨h, h'⟩
    constructor
    · refine Int.not_lt.1 fun hlt => ?_
      have hmono := year_civil_mono (show day ≤ -719163 by omega)
      omega
    · refine Int.not_lt.1 fun hlt => ?_
      have hmono := year_civil_mono (show 2932897 ≤ day by omega)
      omega
  · rintro ⟨h, h'⟩
    have hmono := year_civil_mono h
    have hmono' := year_civil_mono h'
    omega

/-! ### Dates that exist -/

/-- The first day of a year is a day of that year. -/
theorem yearOfEra_startOfYear {year : Int} (h₀ : 0 ≤ year) (h₁ : year ≤ 399) :
    yearOfEra (startOfYear year) = year := by
  have hquarters : startOfYear year / 1460 = year / 4 := by
    unfold startOfYear
    omega
  have hcenturies : startOfYear year / 36524 = year / 100 := by
    unfold startOfYear
    omega
  have hlast : startOfYear year / 146096 = 0 := by
    unfold startOfYear
    omega
  rw [yearOfEra, hquarters, hcenturies, hlast]
  unfold startOfYear
  omega

theorem startOfYear_mono {year year' : Int} (h : year ≤ year') :
    startOfYear year ≤ startOfYear year' := by
  unfold startOfYear
  omega

/-- How many days a year of an era has. An era ends with a leap day, which is more than the first
days of its years tell. -/
def lengthOfYear (year : Int) : Int :=
  startOfYear (year + 1) - startOfYear year + (year + 1) / 400

/-- A day of an era lies in its year. -/
theorem lt_endOfYear {day : Int} (h₀ : 0 ≤ day) (h₁ : day < 146097) :
    day < startOfYear (yearOfEra day) + lengthOfYear (yearOfEra day) := by
  obtain ⟨hyear, hyear'⟩ := yearOfEra_bounds h₀ h₁
  unfold lengthOfYear
  rcases Int.lt_or_eq_of_le hyear' with hlt | hlast
  · refine Int.not_le.1 fun hle => ?_
    have hmono : yearOfEra (startOfYear (yearOfEra day + 1)) ≤ yearOfEra day :=
      yearOfEra_mono (by unfold startOfYear; omega) (by omega) h₁
    rw [yearOfEra_startOfYear (by omega) (by omega)] at hmono
    omega
  · rw [hlast]
    have hend : startOfYear 399 +
        (startOfYear (399 + 1) - startOfYear 399 + (399 + 1) / 400) = 146097 := by decide
    omega

/-- A day of an era belongs to the year in which it lies. -/
theorem yearOfEra_eq {year day : Int} (h₀ : 0 ≤ year) (h₁ : year ≤ 399)
    (hstart : startOfYear year ≤ day) (hend : day < startOfYear year + lengthOfYear year) :
    0 ≤ day ∧ day < 146097 ∧ yearOfEra day = year := by
  have hfirst : 0 ≤ startOfYear year := by
    unfold startOfYear
    omega
  have hlast : startOfYear year + lengthOfYear year ≤ 146097 := by
    unfold lengthOfYear startOfYear
    omega
  have hday : 0 ≤ day := by omega
  have hday' : day < 146097 := by omega
  refine ⟨hday, hday', ?_⟩
  have hle : yearOfEra (startOfYear year) ≤ yearOfEra day := yearOfEra_mono hfirst hstart hday'
  rw [yearOfEra_startOfYear h₀ h₁] at hle
  obtain ⟨-, hyear'⟩ := yearOfEra_bounds hday hday'
  obtain ⟨hstart', -⟩ := startOfYear_bounds hday hday'
  refine Int.le_antisymm (Int.not_lt.1 fun hlt => ?_) hle
  have hmono := startOfYear_mono (show year + 1 ≤ yearOfEra day by omega)
  unfold lengthOfYear at hend
  omega

/-- A year that ends with February of a leap year has a day more. -/
theorem lengthOfYear_eq {year : Int} (h₀ : 0 ≤ year) (h₁ : year ≤ 399) (era : Int) :
    lengthOfYear year = if isLeap (year + era * 400 + 1) = true then 366 else 365 := by
  unfold lengthOfYear startOfYear
  simp only [isLeap, Bool.and_eq_true, beq_iff_eq, Bool.or_eq_true, bne_iff_ne, ne_eq]
  split <;> omega

theorem lengthOfYear_bounds {year : Int} (h₀ : 0 ≤ year) (h₁ : year ≤ 399) :
    365 ≤ lengthOfYear year ∧ lengthOfYear year ≤ 366 := by
  rw [lengthOfYear_eq h₀ h₁ 0]
  split <;> decide

/-- The months before February have the same lengths in all years. -/
theorem daysInMonth_fromMarch {era year month day : Int} (h₀ : 0 ≤ month) (h₁ : month ≤ 10) :
    (daysInMonth (fromMarch era year month day).year (fromMarch era year month day).month : Int) =
      startOfMonth (month + 1) - startOfMonth month := by
  have hmonths : month = 0 ∨ month = 1 ∨ month = 2 ∨ month = 3 ∨ month = 4 ∨ month = 5 ∨
      month = 6 ∨ month = 7 ∨ month = 8 ∨ month = 9 ∨ month = 10 := by omega
  rcases hmonths with rfl | rfl | rfl | rfl | rfl | rfl | rfl | rfl | rfl | rfl | rfl <;> rfl

/-- February is the rest of the year. -/
theorem daysInMonth_february {era year day : Int} (h₀ : 0 ≤ year) (h₁ : year ≤ 399) :
    (daysInMonth (fromMarch era year 11 day).year (fromMarch era year 11 day).month : Int) =
      lengthOfYear year - startOfMonth 11 := by
  have hyear : (fromMarch era year 11 day).year = year + era * 400 + 1 := rfl
  have hmonth : (fromMarch era year 11 day).month = 2 := rfl
  rw [hyear, hmonth, daysInMonth, lengthOfYear_eq h₀ h₁ era]
  split <;> rfl

/-- What comes after a month: the next one, or the end of the year. -/
def endOfMonth (year month : Int) : Int :=
  if month < 11 then startOfMonth (month + 1) else lengthOfYear year

theorem daysInMonth_eq {era year month day : Int} (hyear : 0 ≤ year) (hyear' : year ≤ 399)
    (hmonth : 0 ≤ month) (hmonth' : month ≤ 11) :
    (daysInMonth (fromMarch era year month day).year (fromMarch era year month day).month : Int) =
      endOfMonth year month - startOfMonth month := by
  unfold endOfMonth
  rcases Int.lt_or_eq_of_le hmonth' with h | rfl
  · rw [if_pos h, daysInMonth_fromMarch hmonth (by omega)]
  · rw [if_neg (by decide), daysInMonth_february hyear hyear']

/-- A day lies in its month. -/
theorem lt_endOfMonth {year day : Int} (h : day < lengthOfYear year) :
    day < endOfMonth year (monthOfYear day) := by
  unfold endOfMonth
  split
  · unfold startOfMonth monthOfYear
    omega
  · exact h

/-- A day belongs to the month in which it lies. -/
theorem monthOfYear_eq {year month day : Int} (hyear : 0 ≤ year) (hyear' : year ≤ 399)
    (hmonth : 0 ≤ month) (hmonth' : month ≤ 11) (hstart : startOfMonth month ≤ day)
    (hend : day < endOfMonth year month) :
    0 ≤ day ∧ day < lengthOfYear year ∧ monthOfYear day = month := by
  obtain ⟨hlength, hlength'⟩ := lengthOfYear_bounds hyear hyear'
  unfold endOfMonth at hend
  unfold startOfMonth at hstart hend
  unfold monthOfYear
  split at hend <;> omega

/-- The date of a day exists. -/
theorem day_civil_le (day : Int) :
    (civil day).day ≤ daysInMonth (civil day).year (civil day).month := by
  have h₀ : 0 ≤ (day + 719468) % 146097 := by omega
  have h₁ : (day + 719468) % 146097 < 146097 := by omega
  obtain ⟨hyear, hyear'⟩ := yearOfEra_bounds h₀ h₁
  obtain ⟨hday, hday'⟩ := marchDay_bounds day
  obtain ⟨hmonth, hmonth', -⟩ := monthOfYear_bounds hday hday'
  have hlength : marchDay day < lengthOfYear (yearOfEra ((day + 719468) % 146097)) := by
    have hlt := lt_endOfYear h₀ h₁
    unfold marchDay
    omega
  have hend := lt_endOfMonth hlength
  have hcivil : civil day = fromMarch ((day + 719468) / 146097)
      (yearOfEra ((day + 719468) % 146097)) (monthOfYear (marchDay day))
      (marchDay day - startOfMonth (monthOfYear (marchDay day)) + 1) := rfl
  have hdays : (daysInMonth (civil day).year (civil day).month : Int) =
      endOfMonth (yearOfEra ((day + 719468) % 146097)) (monthOfYear (marchDay day)) -
        startOfMonth (monthOfYear (marchDay day)) := by
    rw [hcivil]
    exact daysInMonth_eq hyear hyear' hmonth hmonth'
  rw [day_civil]
  omega

/-- A date is one of a month counted from March. -/
theorem exists_eq_fromMarch {d : Date} (h₀ : 1 ≤ d.month) (h₁ : d.month ≤ 12) :
    ∃ era year month : Int, 0 ≤ year ∧ year ≤ 399 ∧ 0 ≤ month ∧ month ≤ 11 ∧
      d = fromMarch era year month d.day := by
  obtain ⟨year, month, day⟩ := d
  simp only at h₀ h₁
  rcases Nat.lt_or_ge 2 month with hlate | hearly
  · refine ⟨year / 400, year % 400, month - 3, by omega, by omega, by omega, by omega, ?_⟩
    have hmonth : (month : Int) - 3 < 10 := by omega
    have hmonth' : ¬ (month : Int) - 3 + 3 ≤ 2 := by omega
    simp only [fromMarch, hmonth, hmonth', if_true, if_false, Date.mk.injEq, Int.toNat_natCast,
      and_true]
    omega
  · refine ⟨(year - 1) / 400, (year - 1) % 400, month + 9, by omega, by omega, by omega, by omega,
      ?_⟩
    have hmonth : ¬ (month : Int) + 9 < 10 := by omega
    have hmonth' : (month : Int) + 9 - 9 ≤ 2 := by omega
    simp only [fromMarch, hmonth, hmonth', if_true, if_false, Date.mk.injEq, Int.toNat_natCast,
      and_true]
    omega

theorem month_bounds_of_day_le {d : Date} (h : 1 ≤ d.day)
    (h' : d.day ≤ daysInMonth d.year d.month) : 1 ≤ d.month ∧ d.month ≤ 12 := by
  unfold daysInMonth at h'
  split at h' <;> omega

/-- The number of a date that exists leads back to the date. -/
theorem civil_toDay {d : Date} (h : 1 ≤ d.day) (h' : d.day ≤ daysInMonth d.year d.month) :
    civil d.toDay = d := by
  obtain ⟨hmonths, hmonths'⟩ := month_bounds_of_day_le h h'
  obtain ⟨era, year, month, hyear, hyear', hmonth, hmonth', heq⟩ :=
    exists_eq_fromMarch hmonths hmonths'
  have hlength : (daysInMonth d.year d.month : Int) =
      endOfMonth year month - startOfMonth month := by
    rw [heq]
    exact daysInMonth_eq hyear hyear' hmonth hmonth'
  have hstart : startOfMonth month ≤ startOfMonth month + d.day - 1 := by omega
  have hend : startOfMonth month + d.day - 1 < endOfMonth year month := by omega
  have hnumber : d.toDay =
      era * 146097 + startOfYear year + startOfMonth month + d.day - 719469 := by
    rw [heq, toDay_fromMarch hyear hyear' hmonth hmonth' (by omega), ← heq]
  obtain ⟨hday, hday', hmonthEq⟩ := monthOfYear_eq hyear hyear' hmonth hmonth' hstart hend
  have hfirst : startOfYear year ≤ startOfYear year + (startOfMonth month + d.day - 1) := by omega
  obtain ⟨hera, hera', hyearEq⟩ := yearOfEra_eq hyear hyear' hfirst (by omega)
  have hquotient : (d.toDay + 719468) / 146097 = era := by omega
  have hremainder : (d.toDay + 719468) % 146097 =
      startOfYear year + (startOfMonth month + d.day - 1) := by omega
  have hrest : startOfYear year + (startOfMonth month + d.day - 1) - startOfYear year =
      startOfMonth month + d.day - 1 := by omega
  have hlast : startOfMonth month + (d.day : Int) - 1 - startOfMonth month + 1 = d.day := by omega
  rw [civil_eq]
  simp only [hquotient, hremainder, hyearEq, hrest, hmonthEq, hlast]
  exact heq.symm

end Date

namespace Calendar

/-- The year of a day is one that sixteen bits hold, the least of them apart. -/
def Dated (day : Int) : Prop := -32767 ≤ (Date.civil day).year ∧ (Date.civil day).year ≤ 32767

theorem Dated.wrapDay_eq {day : Int} (h : Dated day) : wrapDay day = day := by
  obtain ⟨hle, hle'⟩ := Date.year_civil_bounds day
  obtain ⟨hyear, hyear'⟩ := h
  unfold wrapDay firstDay
  omega

theorem Dated.ofDay_eq {day : Int} (h : Dated day) : Date.ofDay day = Date.civil day := by
  have hyear : wrapYear (Date.civil day).year = (Date.civil day).year := by
    obtain ⟨hyear, hyear'⟩ := h
    unfold wrapYear
    omega
  rw [Date.ofDay, h.wrapDay_eq, hyear]

/-- The date of a dated day is one that the calendar has. -/
theorem Dated.valid_civil {day : Int} (h : Dated day) : (Date.civil day).Valid := by
  obtain ⟨-, -, hday, -⟩ := Date.civil_bounds day
  exact ⟨h.1, h.2, hday, Date.day_civil_le day⟩

/-- Each day of the years 1 to 9999 is dated. -/
theorem dated_of_bounds {day : Int} (h : -719162 ≤ day) (h' : day ≤ 2932896) : Dated day := by
  obtain ⟨hyear, hyear'⟩ := Date.year_civil_bounds day
  constructor <;> omega

end Calendar

theorem Date.ofDay_inj {day day' : Int} (h : Calendar.Dated day) (h' : Calendar.Dated day') :
    Date.ofDay day = Date.ofDay day' ↔ day = day' := by
  refine ⟨fun heq => ?_, congrArg Date.ofDay⟩
  rw [h.ofDay_eq, h'.ofDay_eq] at heq
  rw [← Date.toDay_civil day, heq, Date.toDay_civil]

end Timetable
