import Timetable.Proofs.Chronological
import Timetable.Proofs.Reader

/-!
# Strict texts

A strict text has the form `YYYY-MM-DDTHH:MM:SS`, then a fraction of any length or none, then `Z`,
`z`, `+HH:MM` or `-HH:MM`, and each of its fields has exactly the digits shown. Strict texts are
read if the calendar and the clock have their numbers, and so are the texts that are printed:
`reads_strict_and_printed`. A text that is read need not be strict, since blanks, signs and short
fields are read as well; `reads_by_fields` tells which of them are.
-/

namespace Timetable

namespace Rfc3339

open Numeral

/-! ### The strict form -/

/-- Digits only, and as many as shown. -/
def Digits (width : Nat) (text : List Char) : Prop :=
  text.length = width ∧ ∀ c ∈ text, c.isDigit = true

/-- As long as shown, with a digit at the front. -/
def Plain (width : Nat) (text : List Char) : Prop :=
  text.length = width ∧ ∀ c ∈ text.head?, c.isDigit = true

/-- Something is true of each part, with the width shown for it. -/
def Civil.Each (P : Nat → List Char → Prop) (c : Civil (List Char)) : Prop :=
  P 4 c.year ∧ P 2 c.month ∧ P 2 c.day ∧ P 2 c.hour ∧ P 2 c.minute ∧ P 2 c.second

/-- Something is true of hours and minutes, and nothing stands behind these. -/
def Zone.Each (P : Nat → List Char → Prop) : Zone → Prop
  | zulu _ => True
  | offset _ hours minutes rest => P 2 hours ∧ P 2 minutes ∧ rest = []

/-- A text `YYYY-MM-DDTHH:MM:SS` with a fraction of any length or none, and then a letter for UTC or
an offset `+HH:MM` or `-HH:MM`: each field has exactly the digits shown. -/
def Writing.Strict (w : Writing) : Prop :=
  w.civil.Each Digits ∧ (∀ c ∈ w.fraction, c.isDigit = true) ∧ w.zone.Each Digits

theorem isDigit_of_isBlank {c : Char} (h : isBlank c = true) : c.isDigit = false := by
  refine Bool.eq_false_iff.2 fun hdigit => ?_
  rw [isBlank_of_isDigit hdigit] at h
  cases h

/-- A number holds nothing but digits, or does not begin with one. -/
theorem Number.digits_or_head {width : Nat} {text : List Char} {n : Int} (h : Number width text n) :
    (∀ c ∈ text, c.isDigit = true) ∨ ∃ c ∈ text.head?, c.isDigit = false := by
  have hfirst : ∀ (blanks : List Char) (c : Char) (ds : List Char),
      (∀ b ∈ blanks, isBlank b = true) → c.isDigit = false →
        ∃ d ∈ (blanks ++ c :: ds).head?, d.isDigit = false := by
    intro blanks c ds hblanks hc
    cases blanks with
    | nil => exact ⟨c, rfl, hc⟩
    | cons b blanks => exact ⟨b, rfl, isDigit_of_isBlank (hblanks b (by simp))⟩
  cases h with
  | @plain blanks ds hblanks h =>
    cases blanks with
    | nil => exact .inl h.digits
    | cons b blanks => exact .inr ⟨b, rfl, isDigit_of_isBlank (hblanks b (by simp))⟩
  | @plus blanks ds hblanks h => exact .inr (hfirst blanks '+' ds hblanks rfl)
  | @minus blanks ds hblanks h => exact .inr (hfirst blanks '-' ds hblanks rfl)

theorem Number.digits_iff_plain {width : Nat} {text : List Char} {n : Int}
    (h : Number width text n) : Digits width text ↔ Plain width text := by
  refine and_congr_right fun _ => ⟨fun hdigits c hc => hdigits c (List.mem_of_mem_head? hc), ?_⟩
  intro hhead
  refine h.digits_or_head.resolve_right fun ⟨c, hc, hother⟩ => ?_
  rw [hhead c hc] at hother
  cases hother

theorem Civil.Says.each_digits_iff {c : Civil (List Char)} {n : Civil Int} (h : c.Says n) :
    c.Each Digits ↔ c.Each Plain := by
  simp only [Each, h.year.digits_iff_plain, h.month.digits_iff_plain, h.day.digits_iff_plain,
    h.hour.digits_iff_plain, h.minute.digits_iff_plain, h.second.digits_iff_plain]

theorem Zone.Says.each_digits_iff {z : Zone} {n : Int} (h : z.Says n) :
    z.Each Digits ↔ z.Each Plain := by
  cases h with
  | zulu => rfl
  | offset hhours hminutes =>
    simp only [Each, hhours.digits_iff_plain, hminutes.digits_iff_plain]

/-- A text that is read is strict if each field begins with a digit and is as long as shown. -/
theorem Writing.Says.strict_iff {w : Writing} {n : Civil Int} {offset : Int}
    (h : w.Says n offset) : w.Strict ↔ w.civil.Each Plain ∧ w.zone.Each Plain := by
  rw [Strict, h.civil.each_digits_iff, h.zone.each_digits_iff]
  exact and_congr_right fun _ => and_iff_right h.fraction

/-- The numbers of fields that are digits. -/
def Civil.value (c : Civil (List Char)) : Civil Int where
  year := Numeral.value c.year
  month := Numeral.value c.month
  day := Numeral.value c.day
  hour := Numeral.value c.hour
  minute := Numeral.value c.minute
  second := Numeral.value c.second

/-- The minutes of an offset whose fields are digits. -/
def Zone.value : Zone → Int
  | zulu _ => 0
  | offset ahead hours minutes _ =>
    let n : Int := Numeral.value hours * 60 + Numeral.value minutes
    if ahead then n else -n

/-- Digits are read as a number if there is room for them. -/
theorem Run.number {width : Nat} {ds : List Char} (h : Run width ds) :
    Number width ds (value ds) := by
  have hnumber := Number.plain (List.forall_mem_nil (isBlank · = true)) h
  exact hnumber

theorem Digits.number {width : Nat} {text : List Char} (h : Digits width text)
    (hwidth : width ≠ 0) : Number width text (value text) := by
  have hrun : Run width text :=
    ⟨List.ne_nil_of_length_pos (by rw [h.1]; omega), h.2, Nat.le_of_eq h.1⟩
  exact hrun.number

theorem Civil.Each.says_value {c : Civil (List Char)} (h : c.Each Digits) : c.Says c.value := by
  obtain ⟨hyear, hmonth, hday, hhour, hminute, hsecond⟩ := h
  exact ⟨hyear.number (by decide), hmonth.number (by decide), hday.number (by decide),
    hhour.number (by decide), hminute.number (by decide), hsecond.number (by decide)⟩

theorem utf8ByteSize_ofList {cs : List Char} (h : ∀ c ∈ cs, c.toNat < 128) :
    (String.ofList cs).utf8ByteSize = cs.length := by
  have hbytes := Text.bytes_eq_map (s := String.ofList cs) (by rwa [String.toList_ofList])
  rw [← String.size_toByteArray, ByteArray.size, ← Array.length_toList, ← Text.bytes, hbytes,
    List.length_map, String.toList_ofList]

theorem Zone.Each.says_value {z : Zone} (h : z.Each Digits) : z.Says z.value := by
  cases z with
  | zulu capital => exact .zulu capital
  | offset ahead hours minutes rest =>
    obtain ⟨hhours, hminutes, rfl⟩ := h
    have hascii : ∀ c ∈ hours ++ ':' :: minutes ++ [], c.toNat < 128 := by
      have hdigit : ∀ c : Char, c.isDigit = true → c.toNat < 128 := fun c hc =>
        Nat.lt_of_le_of_lt (Char.isDigit_iff_toNat.1 hc).2 (by decide)
      intro c hc
      simp only [List.append_nil, List.mem_append, List.mem_cons] at hc
      rcases hc with hc | rfl | hc
      · exact hdigit c (hhours.2 c hc)
      · decide
      · exact hdigit c (hminutes.2 c hc)
    refine .offset (hhours.number (by decide)) (hminutes.number (by decide)) (by simp [Ends]) ?_
    rw [utf8ByteSize_ofList hascii, List.append_nil, List.length_append, List.length_cons, hhours.1,
      hminutes.1]

theorem Writing.Strict.says_value {w : Writing} (h : w.Strict) :
    w.Says w.civil.value w.zone.value :=
  ⟨h.1.says_value, h.2.1, h.2.2.says_value⟩

/-- A strict text has no less than a date, a time of day and a letter. -/
theorem Writing.Strict.length_text {w : Writing} (h : w.Strict) : 20 ≤ w.text.length := by
  obtain ⟨⟨hyear, hmonth, hday, hhour, hminute, hsecond⟩, -, -⟩ := h
  have hzone : 1 ≤ w.zone.text.length := by cases w.zone <;> simp [Zone.text]
  simp only [text, Civil.text, List.length_append, List.length_cons, hyear.1, hmonth.1, hday.1,
    hhour.1, hminute.1, hsecond.1]
  omega

/-! ### Printed texts -/

theorem length_padded {width n : Nat} (hwidth : 0 < width) (h : n < 10 ^ width) :
    (padded width n).length = width := by
  have hle : (digits n).length ≤ width := (Nat.length_toDigits_le_iff (by decide) hwidth).2 h
  rw [padded, List.length_append, List.length_replicate]
  omega

theorem isDigit_of_mem_padded {width n : Nat} {c : Char} (h : c ∈ padded width n) :
    c.isDigit = true := by
  by_contra hother
  exact notMem_padded (Bool.eq_false_iff.2 hother) width n h

theorem run_padded {width n : Nat} (hwidth : 0 < width) (h : n < 10 ^ width) :
    Run width (padded width n) :=
  ⟨List.ne_nil_of_length_pos (by rwa [length_padded hwidth h]), fun _ => isDigit_of_mem_padded,
    Nat.le_of_eq (length_padded hwidth h)⟩

/-- A field reads back what was written into it. -/
theorem number_padded {width n : Nat} (hwidth : 0 < width) (h : n < 10 ^ width) :
    Number width (padded width n) n := by
  have hnumber := (run_padded hwidth h).number
  rwa [value_padded] at hnumber

/-- The sign of a year takes the place of a digit. -/
theorem number_paddedInt {n : Int} (h : -999 ≤ n) (h' : n ≤ 9999) : Number 4 (paddedInt 4 n) n := by
  cases n with
  | ofNat n =>
    have hn : n ≤ 9999 := Int.ofNat_le.1 h'
    exact number_padded (by decide) (by omega)
  | negSucc n =>
    have hrun : Run 3 (padded 3 (n + 1)) := run_padded (by decide) (by omega)
    have hnumber : Number 4 _ _ := .minus (List.forall_mem_nil (isBlank · = true)) hrun
    rw [value_padded] at hnumber
    exact hnumber

/-- The digits of the milliseconds at the end of a text. -/
def millisDigits (millis : Nat) : List Char := if millis = 0 then [] else padded 3 millis

theorem fractionText_millisDigits {millis : Nat} (h : millis < 1000) :
    fractionText (millisDigits millis) = millisText millis := by
  unfold millisDigits millisText
  split
  · rfl
  · rw [fractionText, if_neg (run_padded (by decide) h).some]

theorem fractionMillis_millisDigits {millis : Nat} (h : millis < 1000) :
    fractionMillis (millisDigits millis) = millis := by
  unfold millisDigits
  split
  · next hzero => exact congrArg Nat.cast hzero.symm
  · rw [fractionMillis, value_padded, length_padded (by decide) h]
    exact congrArg Nat.cast (Nat.mul_div_cancel millis (by decide))

theorem isDigit_of_mem_millisDigits {millis : Nat} {c : Char} (h : c ∈ millisDigits millis) :
    c.isDigit = true := by
  unfold millisDigits at h
  split at h
  · cases h
  · exact isDigit_of_mem_padded h

/-- The parts of the text of an instant. -/
def Writing.ofInstant (t : Instant) (zone : Zone) : Writing :=
  let date := Date.ofDay t.day
  let second := (t.timeOfDay / 1000).toNat
  { civil :=
      { year := paddedInt 4 date.year
        month := padded 2 date.month
        day := padded 2 date.day
        hour := padded 2 (second / 3600)
        minute := padded 2 (second / 60 % 60)
        second := padded 2 (second % 60) }
    fraction := millisDigits (t.timeOfDay % 1000).toNat
    zone }

/-- The numbers in the text of an instant. -/
def Civil.ofInstant (t : Instant) : Civil Int :=
  let date := Date.civil t.day
  let second := (t.timeOfDay / 1000).toNat
  { year := date.year
    month := date.month
    day := date.day
    hour := (second / 3600 : Nat)
    minute := (second / 60 % 60 : Nat)
    second := (second % 60 : Nat) }

theorem Writing.text_ofInstant (t : Instant) (zone : Zone) :
    (ofInstant t zone).text = civilText t ++ zone.text := by
  have hmillis : (t.timeOfDay % 1000).toNat < 1000 := by omega
  simp only [text, ofInstant, Civil.text, fractionText_millisDigits hmillis, civilText_eq, dateText,
    clockText, List.append_assoc, List.cons_append]

theorem Civil.date_ofInstant (t : Instant) : (ofInstant t).date = Date.civil t.day := by
  simp [ofInstant, date]

/-- The parts of an instant come together to it again. -/
theorem Writing.instant_ofInstant (t : Instant) (zone : Zone) :
    (ofInstant t zone).instant (Civil.ofInstant t) 0 = t := by
  have htime := t.timeOfDay_nonneg
  have hmillis : (t.timeOfDay % 1000).toNat < 1000 := by omega
  conv_rhs => rw [← Instant.ofDay_day t]
  simp only [instant, Civil.instant, Civil.date_ofInstant, Date.toDay_civil]
  simp only [ofInstant, fractionMillis_millisDigits hmillis, Instant.ofDay, Instant.addMillis,
    Instant.mk.injEq, Civil.ofInstant]
  omega

section Years

variable {t : Instant} (h : -999 ≤ t.year) (h' : t.year ≤ 9999)

include h h'

theorem dated_of_year : Calendar.Dated t.day := by
  unfold Instant.year at h h'
  exact ⟨by omega, by omega⟩

theorem Civil.accepted_ofInstant : (ofInstant t).Accepted := by
  have hday := t.timeOfDay_lt
  unfold Instant.dayLength at hday
  refine ⟨?_, ?_, ?_, ?_⟩
  · rw [date_ofInstant]
    exact (dated_of_year h h').valid_civil
  all_goals
    simp only [ofInstant]
    omega

theorem Writing.says_ofInstant {zone : Zone} {offset : Int} (hzone : zone.Says offset) :
    (ofInstant t zone).Says (Civil.ofInstant t) offset := by
  obtain ⟨-, hmonth, -, hday⟩ := Date.civil_bounds t.day
  have htime := t.timeOfDay_lt
  unfold Instant.dayLength at htime
  refine ⟨?_, fun c hc => isDigit_of_mem_millisDigits hc, hzone⟩
  simp only [ofInstant, (dated_of_year h h').ofDay_eq, Civil.ofInstant]
  exact ⟨number_paddedInt h h', number_padded (by decide) (by omega),
    number_padded (by decide) (by omega), number_padded (by decide) (by omega),
    number_padded (by decide) (by omega), number_padded (by decide) (by omega)⟩

/-- What is printed is read back, whichever sign of UTC stands behind it. -/
theorem parse?_civilText {zone : Zone} (hzone : zone.Says 0) :
    parse? (String.ofList (civilText t ++ zone.text)) = some t := by
  refine parse?_eq_some_iff.2 ⟨.ofInstant t zone, .ofInstant t, 0, ?_,
    Writing.says_ofInstant h h' hzone, Civil.accepted_ofInstant h h',
    (Writing.instant_ofInstant t zone).symm⟩
  rw [String.toList_ofList, Writing.text_ofInstant]

theorem parse?_print : parse? (print t) = some t := by
  have hzone : (Zone.offset true ['0', '0'] ['0', '0'] []).Each Digits := by
    simp [Zone.Each, Digits]
  have htext : "+00:00".toList = (Zone.offset true ['0', '0'] ['0', '0'] []).text := rfl
  rw [print, htext]
  exact parse?_civilText h h' (Zone.Each.says_value hzone)

theorem parse?_printZulu : parse? (printZulu t) = some t := by
  have htext : ['Z'] = (Zone.zulu true).text := rfl
  rw [printZulu, htext]
  exact parse?_civilText h h' (.zulu true)

end Years

/-! ### What is read -/

/-- A strict text is read as the instant of its date and its time of day, with its fraction cut to
milliseconds and its offset taken away; and what is printed is read back. -/
theorem reads_strict_and_printed :
    (∀ w : Writing, w.Strict → w.civil.value.Accepted →
      parse? (String.ofList w.text) = some (w.instant w.civil.value w.zone.value) ∧
        Date.civil w.civil.value.date.toDay = w.civil.value.date) ∧
    ∀ t : Instant, -999 ≤ t.year → t.year ≤ 9999 → parse? (print t) = some t := by
  refine ⟨fun w hstrict haccepted => ⟨?_, ?_⟩, fun t h h' => parse?_print h h'⟩
  · exact parse?_eq_some_iff.2 ⟨w, w.civil.value, w.zone.value, String.toList_ofList,
      hstrict.says_value, haccepted, rfl⟩
  · obtain ⟨⟨-, -, hday, hday'⟩, -⟩ := haccepted
    exact Date.civil_toDay hday hday'

/-- A leap second, four fraction digits and an offset. -/
def leapSecond : Writing where
  civil := ⟨"2016".toList, "12".toList, "31".toList, "23".toList, "59".toList, "60".toList⟩
  fraction := "1239".toList
  zone := .offset false "05".toList "30".toList []

theorem strict_leapSecond : leapSecond.Strict := by
  simp [leapSecond, Writing.Strict, Civil.Each, Zone.Each, Digits]

theorem reads_strict_and_printed_leapSecond :
    (parse? "2016-12-31T23:59:60.1239-05:30" = some ⟨1483248600123⟩ ∧
      Date.civil leapSecond.civil.value.date.toDay = leapSecond.civil.value.date) ∧
    parse? (print ⟨-62325072000001⟩) = some ⟨-62325072000001⟩ :=
  ⟨reads_strict_and_printed.1 leapSecond strict_leapSecond (by decide),
    reads_strict_and_printed.2 ⟨-62325072000001⟩ (by decide) (by decide)⟩

/-- Whether a text is strict is seen in the parts that it is read in. -/
theorem Writing.Says.exists_strict_iff {w : Writing} {n : Civil Int} {offset : Int}
    (h : w.Says n offset) : (∃ w' : Writing, w'.Strict ∧ w.text = w'.text) ↔
      w.civil.Each Plain ∧ w.zone.Each Plain := by
  rw [← h.strict_iff]
  constructor
  · rintro ⟨w', hstrict, htext⟩
    rwa [Writing.text_inj h hstrict.says_value htext]
  · exact fun hstrict => ⟨w, hstrict, rfl⟩

/-- A text is read if and only if its parts read as numbers that the calendar and the clock have. It
is then a strict text if and only if each field begins with a digit and is as long as shown, and
nothing stands behind the minutes of an offset. -/
theorem reads_by_fields (text : String) :
    (∀ t, parse? text = some t ↔ ∃ (w : Writing) (n : Civil Int) (offset : Int),
      text.toList = w.text ∧ w.Says n offset ∧ n.Accepted ∧ t = w.instant n offset) ∧
    ∀ (w : Writing) (n : Civil Int) (offset : Int), text.toList = w.text → w.Says n offset →
      ((∃ w' : Writing, w'.Strict ∧ text.toList = w'.text) ↔
        w.civil.Each Plain ∧ w.zone.Each Plain) := by
  refine ⟨fun t => parse?_eq_some_iff, fun w n offset htext hsay => ?_⟩
  rw [htext]
  exact hsay.exists_strict_iff

theorem reads_by_fields_leapSecond :
    leapSecond.civil.Each Plain ∧ leapSecond.zone.Each Plain :=
  ((reads_by_fields (String.ofList leapSecond.text)).2 leapSecond _ _ String.toList_ofList
    strict_leapSecond.says_value).1 ⟨leapSecond, strict_leapSecond, String.toList_ofList⟩

/-- A text that goes on behind its offset. -/
def overlong : Writing where
  civil := ⟨"2024".toList, "01".toList, "01".toList, "00".toList, "00".toList, "00".toList⟩
  fraction := []
  zone := .offset true "1".toList "2".toList "zz".toList

theorem says_overlong : overlong.Says overlong.civil.value 62 := by
  have hone : ∀ c : Char, c.isDigit = true → Number 2 [c] (value [c]) := fun c hc =>
    Run.number ⟨by simp, by simpa using hc, by simp⟩
  refine ⟨Civil.Each.says_value ?_, by simp [overlong], ?_⟩
  · simp [overlong, Civil.Each, Digits]
  · exact .offset (hone '1' rfl) (hone '2' rfl) (.of_cons rfl) (by decide)

/-- Texts are read that are not strict: behind an offset with short fields other characters may
stand, and other fields may be short as well. -/
theorem reads_overlong_and_short :
    (parse? "2024-01-01T00:00:00+1:2zz" = some ⟨1704063480000⟩ ∧
      ¬ ∃ w : Writing, w.Strict ∧ "2024-01-01T00:00:00+1:2zz".toList = w.text) ∧
    parse? "2024-1-1T0:0:0Z" = some ⟨1704067200000⟩ ∧
      ¬ ∃ w : Writing, w.Strict ∧ "2024-1-1T0:0:0Z".toList = w.text := by
  refine ⟨⟨by decide, fun hstrict => ?_⟩, by decide, ?_⟩
  · have hplain := says_overlong.exists_strict_iff.1 hstrict
    obtain ⟨-, -, -, hrest⟩ := hplain
    cases hrest
  · rintro ⟨w, hstrict, htext⟩
    have hlength := hstrict.length_text
    rw [← htext] at hlength
    revert hlength
    decide

end Rfc3339

end Timetable
