import Timetable.Calendar

/-!
# Instants in whole milliseconds

An `Instant` counts milliseconds from the start of 1970, UTC. It splits into a day and a time of day
(`ofDay_day`), and into whole seconds and nanoseconds (`Instant.toTimestamp_eq`), both rounding
towards the past, so that the smaller part is never negative. Where counts are kept in words of 64
bits, a result that does not fit wraps around (`Instant.wrapMillis`).
-/

namespace Timetable

/-- A point in time, in milliseconds since the start of 1970, UTC. -/
structure Instant where
  millis : Int
deriving DecidableEq, Repr, Inhabited

/-- A length of time in seconds and nanoseconds, as configurations and messages write it. -/
structure Span where
  seconds : Int
  nanos : Int
deriving DecidableEq, Repr, Inhabited

namespace Instant

instance : LE Instant := ⟨fun a b => a.millis ≤ b.millis⟩
instance : LT Instant := ⟨fun a b => a.millis < b.millis⟩
instance (a b : Instant) : Decidable (a ≤ b) := inferInstanceAs (Decidable (a.millis ≤ b.millis))
instance (a b : Instant) : Decidable (a < b) := inferInstanceAs (Decidable (a.millis < b.millis))

/-- The number of milliseconds of a day. -/
def dayLength : Int := 86400000

/-- The day number of an instant. -/
def day (t : Instant) : Int := t.millis / dayLength

/-- The milliseconds since the start of an instant's day. -/
def timeOfDay (t : Instant) : Int := t.millis % dayLength

/-- The instant at a time of a day. -/
def ofDay (day timeOfDay : Int) : Instant := ⟨day * dayLength + timeOfDay⟩

theorem ofDay_day (t : Instant) : ofDay t.day t.timeOfDay = t := by
  cases t with
  | mk m => simp only [ofDay, day, timeOfDay, mk.injEq, dayLength]; omega

theorem timeOfDay_nonneg (t : Instant) : 0 ≤ t.timeOfDay := by
  simp only [timeOfDay, dayLength]; omega

theorem timeOfDay_lt (t : Instant) : t.timeOfDay < dayLength := by
  simp only [timeOfDay, dayLength]; omega

/-- The instant a number of milliseconds later. -/
def addMillis (t : Instant) (ms : Int) : Instant := ⟨t.millis + ms⟩

/-- The same date and time of day some years later. Where the date does not exist, the last day of
its month stands in for it. -/
def addYears (t : Instant) (years : Int) : Instant :=
  let d := Date.ofDay t.day
  let year := Calendar.wrapYear (d.year + years)
  let shifted : Date := { d with year }
  let shifted := if shifted.Valid then shifted else Date.lastOfMonth year d.month
  ofDay shifted.toDay t.timeOfDay

/-- A signed word of 64 bits holds a count of milliseconds: it is at least `-2 ^ 63` and less than
`2 ^ 63`. -/
def FitsWord (ms : Int) : Prop := -9223372036854775808 ≤ ms ∧ ms < 9223372036854775808

instance (ms : Int) : Decidable (FitsWord ms) := by unfold FitsWord; infer_instance

/-- A count of milliseconds as a signed word holds it; what does not fit wraps around. -/
def wrapMillis (ms : Int) : Int :=
  (ms + 9223372036854775808) % 18446744073709551616 - 9223372036854775808

theorem wrapMillis_of_fits {ms : Int} (h : FitsWord ms) : wrapMillis ms = ms := by
  obtain ⟨hle, hlt⟩ := h
  unfold wrapMillis
  omega

/-- Whole seconds and the nanoseconds left over. Seconds are cut towards the start of 1970, and one
is taken back where this has led forward. -/
def toTimestamp (t : Instant) : Span :=
  let cut := t.millis.tdiv 1000
  let seconds := if t.millis < cut * 1000 then cut - 1 else cut
  ⟨seconds, wrapMillis (t.millis - wrapMillis (seconds * 1000)) * 1000000⟩

/-- Seconds are rounded towards the past, so what is left over is never negative. -/
theorem toTimestamp_eq (t : Instant) :
    t.toTimestamp = ⟨t.millis / 1000, t.millis % 1000 * 1000000⟩ := by
  have hcut : t.millis.tdiv 1000 =
      t.millis / 1000 + if 0 ≤ t.millis ∨ 1000 ∣ t.millis then 0 else 1 := Int.tdiv_eq_ediv
  have hseconds : (if t.millis < t.millis.tdiv 1000 * 1000 then t.millis.tdiv 1000 - 1
      else t.millis.tdiv 1000) = t.millis / 1000 := by
    rw [hcut]
    split <;> split <;> omega
  have hnanos : wrapMillis (t.millis - wrapMillis (t.millis / 1000 * 1000)) = t.millis % 1000 := by
    unfold wrapMillis
    omega
  simp only [toTimestamp, hseconds, hnanos]

end Instant

/-- The whole milliseconds of a span; nanoseconds are cut off towards zero. -/
def Span.millis (s : Span) : Int :=
  Instant.wrapMillis (Instant.wrapMillis (s.seconds * 1000) + s.nanos.tdiv 1000000)

namespace Instant

/-- The instant of a count of seconds and nanoseconds. -/
def ofTimestamp (s : Span) : Instant := ⟨s.millis⟩

theorem ofTimestamp_toTimestamp {t : Instant} (h : FitsWord t.millis) :
    ofTimestamp t.toTimestamp = t := by
  have hmillis : wrapMillis (wrapMillis (t.millis / 1000 * 1000) + t.millis % 1000) = t.millis := by
    obtain ⟨hle, hlt⟩ := h
    unfold wrapMillis
    omega
  rw [toTimestamp_eq, ofTimestamp, Span.millis, Int.mul_tdiv_cancel _ (by decide), hmillis]

/-- The count of milliseconds as an unsigned word; instants before 1970 wrap around. -/
def toWord (t : Instant) : UInt64 := UInt64.ofInt t.millis

/-- The instant of a clock that counts nanoseconds, cut towards the start of 1970. -/
def ofNanos (ns : Int) : Instant := ⟨ns.tdiv 1000000⟩

end Instant

end Timetable
