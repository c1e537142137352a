import Timetable.Instant
import Timetable.Numeral

/-!
# Times as text

`Rfc3339.print` writes an instant as `2024-01-01T00:00:00+00:00`, with three more digits after the
seconds when the instant is not a whole second. Messages write seconds and nanoseconds
(`Rfc3339.printTimestamp?`), which for an instant comes to the same text with the letter `Z` at its
end (`printTimestamp?_toTimestamp`). `Rfc3339.parse?` reads such texts back, with any number of
fraction digits and any offset.

The reader takes a text field by field. A field is at most as wide as shown, may be shorter, and may
begin with blanks, which do not count, and with a sign, which does.
-/

namespace Timetable.Rfc3339

open Numeral

/-! ### Writing -/

/-- Date and time of day of an instant, with milliseconds only if there are any. -/
def civilText (t : Instant) : List Char :=
  let date := Date.ofDay t.day
  let second := (t.timeOfDay / 1000).toNat
  let millis := (t.timeOfDay % 1000).toNat
  paddedInt 4 date.year ++ '-' :: padded 2 date.month ++ '-' :: padded 2 date.day ++
    'T' :: padded 2 (second / 3600) ++ ':' :: padded 2 (second / 60 % 60) ++
    ':' :: padded 2 (second % 60) ++
    (if millis = 0 then [] else '.' :: padded 3 millis)

/-- The text of an instant, with its offset from UTC spelt out. -/
def print (t : Instant) : String := String.ofList (civilText t ++ "+00:00".toList)

/-- The text of an instant, with the letter that stands for UTC. -/
def printZulu (t : Instant) : String := String.ofList (civilText t ++ ['Z'])

/-- The nanoseconds of a message: none, or as many digits as they need, in groups of three. -/
def nanosText (nanos : Nat) : List Char :=
  if nanos = 0 then []
  else if nanos % 1000000 = 0 then '.' :: padded 3 (nanos / 1000000)
  else if nanos % 1000 = 0 then '.' :: padded 6 (nanos / 1000)
  else '.' :: padded 9 nanos

/-- The first second that a message can tell, which begins the year 1. -/
def firstSecond : Int := -62135596800

/-- The last second that a message can tell, which ends the year 9999. -/
def lastSecond : Int := 253402300799

/-- The text of seconds and nanoseconds since the start of 1970, as a message writes them. -/
def printTimestamp? (s : Span) : Option String :=
  if firstSecond ≤ s.seconds ∧ s.seconds ≤ lastSecond ∧ 0 ≤ s.nanos ∧ s.nanos < 1000000000 then
    let date := Date.ofDay (s.seconds / 86400)
    let second := (s.seconds % 86400).toNat
    some (String.ofList (paddedInt 4 date.year ++ '-' :: padded 2 date.month ++
      '-' :: padded 2 date.day ++ 'T' :: padded 2 (second / 3600) ++
      ':' :: padded 2 (second / 60 % 60) ++ ':' :: padded 2 (second % 60) ++
      nanosText s.nanos.toNat ++ ['Z']))
  else none

/-- Nanoseconds that are whole milliseconds are written as these. -/
theorem nanosText_of_millis {millis : Nat} :
    nanosText (millis * 1000000) = if millis = 0 then [] else '.' :: padded 3 millis := by
  unfold nanosText
  by_cases h : millis = 0
  · rw [if_pos h, if_pos (by omega)]
  · rw [if_neg h, if_neg (by omega), if_pos (by omega), Nat.mul_div_cancel _ (by decide)]

/-- A message writes an instant with its milliseconds, if the instant lies in the years 1 to 9999. -/
theorem printTimestamp?_toTimestamp (t : Instant) : printTimestamp? t.toTimestamp =
    if firstSecond ≤ t.millis / 1000 ∧ t.millis / 1000 ≤ lastSecond then some (printZulu t)
    else none := by
  have hday : t.millis / 1000 / 86400 = t.day := by
    simp only [Instant.day, Instant.dayLength]
    omega
  have hsecond : t.millis / 1000 % 86400 = t.timeOfDay / 1000 := by
    simp only [Instant.timeOfDay, Instant.dayLength]
    omega
  have hmillis : t.millis % 1000 = t.timeOfDay % 1000 := by
    simp only [Instant.timeOfDay, Instant.dayLength]
    omega
  have hnanos : 0 ≤ t.timeOfDay % 1000 * 1000000 ∧ t.timeOfDay % 1000 * 1000000 < 1000000000 := by
    omega
  have hnat : (t.timeOfDay % 1000 * 1000000).toNat = (t.timeOfDay % 1000).toNat * 1000000 := by
    omega
  simp only [printTimestamp?, Instant.toTimestamp_eq, hday, hsecond, hmillis, hnanos, and_true, hnat,
    nanosText_of_millis, printZulu, civilText]

/-! ### Reading -/

/-- A character that may stand before a field. -/
def isBlank (c : Char) : Bool := c == ' ' || ('\t' ≤ c && c ≤ '\r')

/-- Reads a number of at most `width` characters, its sign included, and the blanks before it. -/
def field? (width : Nat) (cs : List Char) : Option (Int × List Char) :=
  let cs := cs.dropWhile isBlank
  match cs with
  | '-' :: r => (digits? (width - 1) r).map fun (n, r) => (-n, r)
  | '+' :: r => digits? (width - 1) r
  | r => digits? width r
where
  /-- Reads one or more digits, and no more than `width`. -/
  digits? (width : Nat) (cs : List Char) : Option (Int × List Char) :=
    let ds := (cs.take width).takeWhile Char.isDigit
    if ds.isEmpty then none else some (value ds, cs.drop ds.length)

/-- Reads one given character. -/
def expect? (c : Char) : List Char → Option (List Char)
  | d :: r => if d = c then some r else none
  | [] => none

/-- Reads a date of the calendar and a time of day, in which only the upper ends of the clock's
fields are tested. -/
def dateTime? (cs : List Char) : Option (Instant × List Char) := do
  let (year, cs) ← field? 4 cs
  let cs ← expect? '-' cs
  let (month, cs) ← field? 2 cs
  let cs ← expect? '-' cs
  let (day, cs) ← field? 2 cs
  let cs ← expect? 'T' cs
  let (hour, cs) ← field? 2 cs
  let cs ← expect? ':' cs
  let (minute, cs) ← field? 2 cs
  let cs ← expect? ':' cs
  let (second, cs) ← field? 2 cs
  let date : Date := ⟨year, month.toNat, day.toNat⟩
  guard (date.Valid ∧ hour ≤ 23 ∧ minute ≤ 59 ∧ second ≤ 60)
  return (Instant.ofDay date.toDay (((hour * 60 + minute) * 60 + second) * 1000), cs)

/-- Reads a fraction of a second, if there is one, down to milliseconds. -/
def fraction? : List Char → Option (Int × List Char)
  | '.' :: cs =>
    let ds := cs.takeWhile Char.isDigit
    if ds.isEmpty then none
    else some (value ((ds ++ ['0', '0']).take 3), cs.drop ds.length)
  | cs => some (0, cs)

/-- Reads an offset from UTC, in minutes, up to the end of the text: a letter, or a sign and five
bytes that begin with two fields. -/
def offset? : List Char → Option Int
  | ['Z'] | ['z'] => some 0
  | '+' :: cs => minutes? cs
  | '-' :: cs => (minutes? cs).map (- ·)
  | _ => none
where
  /-- Reads hours and minutes. -/
  minutes? (cs : List Char) : Option Int := do
    let (hours, r) ← field? 2 cs
    let r ← expect? ':' r
    let (minutes, _) ← field? 2 r
    guard ((String.ofList cs).utf8ByteSize = 5)
    return hours * 60 + minutes

/-- Reads the text of an instant. -/
def parse? (text : String) : Option Instant := do
  let (civil, cs) ← dateTime? text.toList
  let (millis, cs) ← fraction? cs
  let offset ← offset? cs
  return civil.addMillis (millis - offset * 60000)

end Timetable.Rfc3339
