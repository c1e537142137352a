import Timetable.Occurrence
import Timetable.Proofs.Calendar

/-!
# Dates some years later

Adding years to an instant keeps its time of day and leads to the anniversary of its date
(`Instant.addYears_eq_ofDay`): the same day of the same month, except that a leap day has its
anniversary on 28 February of a year without one. One year later is therefore 365 or 366 days later
(`Date.toDay_anniversary_one`), before 1970 and in the years below zero as well, so a request that
does not say where its window ends has one that begins before it ends.
-/

namespace Timetable

namespace Date

open Calendar

/-- A date is a leap day, and the year some years later has none. -/
def Skipped (d : Date) (years : Int) : Prop :=
  d.month = 2 ∧ d.day = 29 ∧ isLeap (d.year + years) = false

instance (d : Date) (years : Int) : Decidable (d.Skipped years) :=
  inferInstanceAs (Decidable (d.month = 2 ∧ d.day = 29 ∧ isLeap (d.year + years) = false))

/-- The same day of the same month in another year, where 28 February stands in for a leap day. -/
def anniversary (d : Date) (years : Int) : Date :=
  if d.Skipped years then ⟨d.year + years, 2, 28⟩ else { d with year := d.year + years }

theorem year_anniversary (d : Date) (years : Int) :
    (d.anniversary years).year = d.year + years := by
  unfold anniversary
  split <;> rfl

/-! ### Anniversaries exist -/

/-- Only February depends on the year. -/
theorem daysInMonth_eq_of_ne {month : Nat} (h : month ≠ 2) (year year' : Int) :
    daysInMonth year month = daysInMonth year' month := by
  unfold daysInMonth
  split <;> first | rfl | exact absurd rfl h

/-- A date that exists has its day in another year, unless it is a leap day and that year has
none. -/
theorem le_daysInMonth_shift_iff {d : Date} (h : d.day ≤ daysInMonth d.year d.month)
    (years : Int) : d.day ≤ daysInMonth (d.year + years) d.month ↔ ¬ d.Skipped years := by
  by_cases hmonth : d.month = 2
  · rw [hmonth, daysInMonth] at h
    rw [hmonth, daysInMonth, Skipped]
    cases hleap : isLeap (d.year + years)
    · by_cases hday : d.day = 29
      · simp [hday, hmonth]
      · have hle : d.day ≤ 28 := by
          split at h <;> omega
        simp [hday, hle]
    · have hle : d.day ≤ 29 := by
        split at h <;> omega
      simp [hle]
  · rw [daysInMonth_eq_of_ne hmonth (d.year + years) d.year]
    exact iff_of_true h fun hskipped => hmonth hskipped.1

/-- The anniversary of a date that exists is one that exists. -/
theorem anniversary_exists {d : Date} (h₁ : 1 ≤ d.day) (h : d.day ≤ daysInMonth d.year d.month)
    (years : Int) : 1 ≤ (d.anniversary years).day ∧
      (d.anniversary years).day ≤
        daysInMonth (d.anniversary years).year (d.anniversary years).month := by
  unfold anniversary
  split
  · next hskipped =>
    simp only [daysInMonth, hskipped.2.2, Bool.false_eq_true, if_false]
    decide
  · next hkept => exact ⟨h₁, (le_daysInMonth_shift_iff h years).2 hkept⟩

/-! ### One year later -/

/-- How many days there are from March of the year zero to March of a year. -/
def daysBefore (year : Int) : Int := 365 * year + year / 4 - year / 100 + year / 400

/-- The year, begun in March, to which a date belongs. -/
def yearFromMarch (d : Date) : Int := if d.month ≤ 2 then d.year - 1 else d.year

/-- The year is the only part of a date that is not counted evenly. -/
theorem toDay_eq (d : Date) : d.toDay = daysBefore d.yearFromMarch +
    (153 * (((d.month : Int) + 9) % 12) + 2) / 5 + d.day - 719469 := by
  simp only [toDay, daysBefore, yearFromMarch]
  generalize (if d.month ≤ 2 then d.year - 1 else d.year) = year
  omega

/-- A year begun in March ends with the February of the next. -/
theorem daysBefore_succ (year : Int) :
    daysBefore (year + 1) = daysBefore year + if isLeap (year + 1) = true then 366 else 365 := by
  simp only [daysBefore, isLeap, Bool.and_eq_true, beq_iff_eq, Bool.or_eq_true, bne_iff_ne, ne_eq]
  split <;> omega

/-- The days until the first anniversary of a date, one more if a leap day comes before it. -/
def daysToAnniversary (d : Date) : Int :=
  if isLeap (d.yearFromMarch + 1) = true ∧ ¬ d.Skipped 1 then 366 else 365

theorem daysToAnniversary_eq_or (d : Date) :
    d.daysToAnniversary = 365 ∨ d.daysToAnniversary = 366 := by
  unfold daysToAnniversary
  split
  · exact .inr rfl
  · exact .inl rfl

/-- A leap day ends its year, begun in March. -/
theorem isLeap_of_skipped {d : Date} (h : d.day ≤ daysInMonth d.year d.month) {years : Int}
    (hskipped : d.Skipped years) : isLeap d.year = true := by
  obtain ⟨hmonth, hday, -⟩ := hskipped
  rw [hmonth, hday, daysInMonth] at h
  split at h
  · next hleap => exact hleap
  · omega

theorem toDay_anniversary_one {d : Date} (h : d.day ≤ daysInMonth d.year d.month) :
    (d.anniversary 1).toDay = d.toDay + d.daysToAnniversary := by
  unfold anniversary daysToAnniversary
  by_cases hskipped : d.Skipped 1
  -- a leap day lies at the end of a leap year from March on, but its anniversary a day earlier in
  -- the month, so the year from one to the other has 365 days after all
  · have hleap := isLeap_of_skipped h hskipped
    obtain ⟨hmonth, hday, -⟩ := id hskipped
    have hyear : d.yearFromMarch = d.year - 1 := if_pos (by omega)
    have hnext : yearFromMarch ⟨d.year + 1, 2, 28⟩ = d.yearFromMarch + 1 := by
      rw [hyear]
      show d.year + 1 - 1 = d.year - 1 + 1
      omega
    rw [if_pos hskipped, if_neg fun hpasses => hpasses.2 hskipped, toDay_eq, toDay_eq, hnext,
      daysBefore_succ, hyear, Int.sub_add_cancel, if_pos hleap, hmonth, hday]
    simp only
    omega
  · have hnext : yearFromMarch { d with year := d.year + 1 } = d.yearFromMarch + 1 := by
      simp only [yearFromMarch]
      split <;> omega
    rw [if_neg hskipped, toDay_eq, toDay_eq, hnext, daysBefore_succ]
    simp only [hskipped, not_false_eq_true, and_true]
    omega

end Date

namespace Instant

open Calendar

section

variable {day ms : Int} (h₀ : 0 ≤ ms) (h₁ : ms < dayLength)

include h₀ h₁

theorem day_ofDay : (ofDay day ms).day = day := by
  simp only [ofDay, Instant.day, dayLength] at h₁ ⊢
  omega

theorem timeOfDay_ofDay : (ofDay day ms).timeOfDay = ms := by
  simp only [ofDay, timeOfDay, dayLength] at h₁ ⊢
  omega

end

section

variable {t : Instant} {years : Int} (ht : Dated t.day)
  (hleast : -32767 ≤ (Date.civil t.day).year + years)
  (hgreatest : (Date.civil t.day).year + years ≤ 32767)

include ht hleast hgreatest

/-- As long as sixteen bits hold the years, the anniversary of the date is what is reached. -/
theorem addYears_eq_ofDay :
    t.addYears years = ofDay ((Date.civil t.day).anniversary years).toDay t.timeOfDay := by
  have hyear : wrapYear ((Date.civil t.day).year + years) = (Date.civil t.day).year + years := by
    unfold wrapYear
    omega
  obtain ⟨-, -, hday, -⟩ := Date.civil_bounds t.day
  have hvalid : Date.Valid { Date.civil t.day with year := (Date.civil t.day).year + years } ↔
      ¬ (Date.civil t.day).Skipped years := by
    rw [← Date.le_daysInMonth_shift_iff (Date.day_civil_le t.day)]
    exact ⟨fun hvalid => hvalid.2.2.2, fun hle => ⟨hleast, hgreatest, hday, hle⟩⟩
  simp only [addYears, ht.ofDay_eq, hyear, hvalid, Date.anniversary]
  by_cases hskipped : (Date.civil t.day).Skipped years
  · have hlast : Date.lastOfMonth ((Date.civil t.day).year + years) (Date.civil t.day).month =
        ⟨(Date.civil t.day).year + years, 2, 28⟩ := by
      obtain ⟨hmonth, -, hleap⟩ := hskipped
      simp only [Date.lastOfMonth, hmonth, daysInMonth, hleap, Bool.false_eq_true, if_false]
    rw [if_neg fun hkept => hkept hskipped, if_pos hskipped, hlast]
  · rw [if_pos hskipped, if_neg hskipped]

/-- The day that is reached has the anniversary for its date. -/
theorem civil_day_addYears :
    Date.civil (t.addYears years).day = (Date.civil t.day).anniversary years := by
  obtain ⟨-, -, hday, -⟩ := Date.civil_bounds t.day
  obtain ⟨hone, hle⟩ := Date.anniversary_exists hday (Date.day_civil_le t.day) years
  rw [addYears_eq_ofDay ht hleast hgreatest, day_ofDay t.timeOfDay_nonneg t.timeOfDay_lt,
    Date.civil_toDay hone hle]

theorem dated_addYears : Dated (t.addYears years).day := by
  unfold Dated
  rw [civil_day_addYears ht hleast hgreatest, Date.year_anniversary]
  exact ⟨hleast, hgreatest⟩

theorem timeOfDay_addYears : (t.addYears years).timeOfDay = t.timeOfDay := by
  rw [addYears_eq_ofDay ht hleast hgreatest, timeOfDay_ofDay t.timeOfDay_nonneg t.timeOfDay_lt]

end

/-- A year later is as many days later as there are until the anniversary. -/
theorem addYears_one {t : Instant} (ht : Dated t.day) (h : (Date.civil t.day).year < 32767) :
    t.addYears 1 = t.addMillis ((Date.civil t.day).daysToAnniversary * dayLength) := by
  obtain ⟨hleast, -⟩ := id ht
  rw [addYears_eq_ofDay ht (by omega) (by omega),
    Date.toDay_anniversary_one (Date.day_civil_le t.day), Date.toDay_civil]
  have hsplit : t.day * dayLength + t.timeOfDay = t.millis := congrArg millis (ofDay_day t)
  simp only [ofDay, addMillis, Int.add_mul, mk.injEq]
  omega

theorem lt_addMillis {t : Instant} {ms : Int} (h : 0 < ms) : t < t.addMillis ms := by
  show t.millis < t.millis + ms
  omega

end Instant

/-- A request that does not say where its window ends has a window that ends a year after its
start. -/
theorem Request.windowEnd_of_finish_eq_none {r : Request} (h : r.finish = none) (now : Instant) :
    r.windowEnd now = (r.windowStart now).addYears 1 := by
  rw [windowEnd, h, Option.getD_none]

namespace Instant

open Calendar

/-- Whenever sixteen bits hold the year of an instant and the year that some years lead to, adding
these years keeps the time of day, and leads to the anniversary of the date in that year. One year
is 365 or 366 days, so a window that is to end a year after its start ends after its start. -/
theorem addYears_leads_to_anniversary {t : Instant} {years : Int} (ht : Dated t.day)
    (hleast : -32767 ≤ (Date.civil t.day).year + years)
    (hgreatest : (Date.civil t.day).year + years ≤ 32767) :
    (t.addYears years).timeOfDay = t.timeOfDay ∧
      Dated (t.addYears years).day ∧
      Date.ofDay (t.addYears years).day = (Date.ofDay t.day).anniversary years ∧
      (years = 1 → ∃ days : Int, (days = 365 ∨ days = 366) ∧
        t.addYears 1 = t.addMillis (days * dayLength) ∧
        ∀ (r : Request) (now : Instant), r.windowStart now = t → r.finish = none →
          r.windowStart now < r.windowEnd now ∧
            r.windowEnd now = (r.windowStart now).addMillis (days * dayLength)) := by
  have hdated := dated_addYears ht hleast hgreatest
  refine ⟨timeOfDay_addYears ht hleast hgreatest, hdated, ?_, ?_⟩
  · rw [hdated.ofDay_eq, ht.ofDay_eq, civil_day_addYears ht hleast hgreatest]
  · rintro rfl
    have hyear : t.addYears 1 = t.addMillis ((Date.civil t.day).daysToAnniversary * dayLength) :=
      addYears_one ht (by omega)
    have hdays := (Date.civil t.day).daysToAnniversary_eq_or
    refine ⟨_, hdays, hyear, fun r now hstart hfinish => ?_⟩
    rw [r.windowEnd_of_finish_eq_none hfinish now, hstart, hyear]
    refine ⟨lt_addMillis ?_, rfl⟩
    unfold dayLength
    omega

/-- 29 February 1968 in the middle of the morning. A century on, 2100 has no leap day. -/
theorem addYears_leads_to_anniversary_leap_day :
    let t : Instant := ⟨-58022999750⟩
    Date.ofDay t.day = ⟨1968, 2, 29⟩ ∧
      Date.ofDay (t.addYears 132).day = ⟨2100, 2, 28⟩ ∧
      (t.addYears 132).timeOfDay = 37800250 ∧
      (∃ days : Int, (days = 365 ∨ days = 366) ∧ t.addYears 1 = t.addMillis (days * dayLength)) ∧
      t < Request.windowEnd ⟨"deployment", some t, none, none⟩ ⟨0⟩ := by
  intro t
  have ht : Dated t.day := ⟨by decide, by decide⟩
  obtain ⟨htime, -, hdate, -⟩ := @addYears_leads_to_anniversary t 132 ht (by decide) (by decide)
  obtain ⟨-, -, -, hone⟩ := @addYears_leads_to_anniversary t 1 ht (by decide) (by decide)
  obtain ⟨days, hdays, hyear, hwindow⟩ := hone rfl
  refine ⟨by decide, hdate.trans (by decide), htime.trans (by decide), ⟨days, hdays, hyear⟩, ?_⟩
  exact (hwindow ⟨"deployment", some t, none, none⟩ ⟨0⟩ rfl rfl).1

/-- In the last year of sixteen bits the next one is the least, and the window is inverted. -/
example : Request.windowEnd ⟨"deployment", some ⟨971859427200000⟩, none, none⟩ ⟨0⟩ <
    (⟨971859427200000⟩ : Instant) := by
  decide

end Instant

end Timetable
