/-!
# The Gregorian calendar over day numbers

Days are counted from 1 January 1970. `Date.toDay` gives the number of a date and `Date.ofDay` the
date of a number; both use the proleptic Gregorian calendar, in which years may be zero or negative,
and both work in eras of 400 years (146097 days) that begin on 1 March, so that a leap day is the
last day of its year.

A date keeps its year in sixteen bits and a day number is taken modulo `2 ^ 30`, so that only times
some 1.4 million years away from 1970 are affected: see `wrapYear` and `wrapDay`.
-/

namespace Timetable

/-- A year, a month and a day of the month, not necessarily ones that exist. -/
structure Date where
  year : Int
  month : Nat
  day : Nat
deriving DecidableEq, Repr, Inhabited

namespace Calendar

/-- Every fourth year is a leap year, except the centuries that 400 does not divide. -/
def isLeap (year : Int) : Bool :=
  year % 4 == 0 && (year % 100 != 0 || year % 400 == 0)

/-- The number of days of a month, zero for a month that does not exist. -/
def daysInMonth (year : Int) : Nat → Nat
  | 1 | 3 | 5 | 7 | 8 | 10 | 12 => 31
  | 4 | 6 | 9 | 11 => 30
  | 2 => if isLeap year then 29 else 28
  | _ => 0

/-- A year as sixteen bits hold it. -/
def wrapYear (year : Int) : Int := (year + 32768) % 65536 - 32768

/-- The smallest day number that the conversion to a date tells apart from larger ones. -/
def firstDay : Int := -536895458

/-- A day number as the conversion to a date sees it. -/
def wrapDay (day : Int) : Int := (day - firstDay) % 1073741824 + firstDay

end Calendar

namespace Date

open Calendar

/-- A date of the calendar, with a year other than the least that sixteen bits hold. -/
def Valid (d : Date) : Prop :=
  -32767 ≤ d.year ∧ d.year ≤ 32767 ∧ 1 ≤ d.day ∧ d.day ≤ daysInMonth d.year d.month

instance (d : Date) : Decidable d.Valid := by unfold Valid; infer_instance

/-- The last day of a month. -/
def lastOfMonth (year : Int) (month : Nat) : Date := ⟨year, month, daysInMonth year month⟩

/-- The number of a date. A year that begins in March has its leap day at its end, so the days
before a month are a linear function of the month, rounded down. -/
def toDay (d : Date) : Int :=
  let y := if d.month ≤ 2 then d.year - 1 else d.year
  let era := y / 400
  let yearOfEra := y % 400
  let monthFromMarch : Int := (d.month + 9) % 12
  let dayOfYear := (153 * monthFromMarch + 2) / 5 + d.day - 1
  let dayOfEra := yearOfEra * 365 + yearOfEra / 4 - yearOfEra / 100 + dayOfYear
  era * 146097 + dayOfEra - 719468

/-- The date of a day number, before its year is cut to sixteen bits. -/
def civil (day : Int) : Date :=
  let z := day + 719468
  let era := z / 146097
  let dayOfEra := z % 146097
  let yearOfEra := (dayOfEra - dayOfEra / 1460 + dayOfEra / 36524 - dayOfEra / 146096) / 365
  let dayOfYear := dayOfEra - (365 * yearOfEra + yearOfEra / 4 - yearOfEra / 100)
  let monthFromMarch := (5 * dayOfYear + 2) / 153
  let day := dayOfYear - (153 * monthFromMarch + 2) / 5 + 1
  let month := if monthFromMarch < 10 then monthFromMarch + 3 else monthFromMarch - 9
  let year := yearOfEra + era * 400
  ⟨if month ≤ 2 then year + 1 else year, month.toNat, day.toNat⟩

/-- The date of a day number. -/
def ofDay (day : Int) : Date :=
  let d := civil (wrapDay day)
  { d with year := wrapYear d.year }

end Date

end Timetable
