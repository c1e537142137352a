import Mathlib.Algebra.Group.Nat.Defs
import Timetable.Proofs.Bytes
import Timetable.Proofs.Keys
import Timetable.Proofs.Words

/-!
# Keys sort as their instants do

The fields of a text have fixed widths in the years 0 to 9999, so texts sort as the fields do, and
these as the instants (`Rfc3339.print_lt_print`). Where one of two texts goes on with milliseconds
and the other does not, a sign stands against a point, and the sign comes first. Whatever bytes the
id of a schedule has, the keys of its occurrences sort in the same way, and the last blank of a key
tells where the id ends: `keys_separate_and_sort`.
-/

namespace Timetable

namespace Numeral

theorem digitChar_lt_digitChar {n n' : Nat} (h : n < n') (h' : n' < 10) :
    n.digitChar < n'.digitChar :=
  (by decide : ∀ n' < 10, ∀ n < n', n.digitChar < n'.digitChar) n' h' n h

/-- The last digit of a number is its remainder, and the others are those of the quotient. -/
theorem padded_succ {width : Nat} (hwidth : 0 < width) (n : Nat) :
    padded (width + 1) n = padded width (n / 10) ++ [(n % 10).digitChar] := by
  have hlt : n % 10 < 10 := Nat.mod_lt n (by decide)
  unfold padded digits
  rcases Nat.eq_zero_or_pos (n / 10) with hzero | hpos
  · have hn : n < 10 := by omega
    obtain ⟨width, rfl⟩ := Nat.exists_eq_add_of_lt hwidth
    rw [hzero, Nat.toDigits_of_lt_base hn, Nat.toDigits_of_lt_base (by decide), Nat.mod_eq_of_lt hn]
    exact congrArg (· ++ [n.digitChar]) List.replicate_succ'
  · have hsplit := Nat.toDigits_append_toDigits (b := 10) (by decide) hpos hlt
    rw [Nat.toDigits_of_lt_base hlt, Nat.div_add_mod] at hsplit
    rw [← hsplit, List.length_append, List.length_singleton, Nat.add_sub_add_right,
      List.append_assoc]

/-- Of numbers of the same width, the smaller one sorts first, whatever follows. -/
theorem padded_append_lt {width n n' : Nat} (hwidth : 0 < width) (h : n < n')
    (h' : n' < 10 ^ width) (r r' : List Char) : padded width n ++ r < padded width n' ++ r' := by
  induction width, hwidth using Nat.le_induction generalizing n n' r r' with
  | base =>
    have hn' : n' < 10 := h'
    have hone : ∀ k < 10, padded 1 k = [k.digitChar] := by decide
    rw [hone n (by omega), hone n' hn']
    exact .rel (digitChar_lt_digitChar h hn')
  | succ width hwidth ih =>
    rw [padded_succ hwidth, padded_succ hwidth, List.append_assoc, List.append_assoc]
    rcases Nat.lt_or_ge (n / 10) (n' / 10) with hlt | hge
    · exact ih hlt (Nat.div_lt_of_lt_mul (by omega)) _ _
    · have heq : n / 10 = n' / 10 := by omega
      rw [heq]
      exact List.append_left_lt (.rel (digitChar_lt_digitChar (by omega) (by omega)))

end Numeral

namespace Rfc3339

open Numeral

/-! ### Texts -/

/-- The date of a text. -/
def dateText (d : Date) : List Char :=
  paddedInt 4 d.year ++ '-' :: padded 2 d.month ++ '-' :: padded 2 d.day

/-- The time of day of a text, without milliseconds. -/
def clockText (second : Nat) : List Char :=
  padded 2 (second / 3600) ++ ':' :: padded 2 (second / 60 % 60) ++ ':' :: padded 2 (second % 60)

theorem civilText_eq (t : Instant) : civilText t = dateText (Date.ofDay t.day) ++
    'T' :: clockText (t.timeOfDay / 1000).toNat ++ millisText (t.timeOfDay % 1000).toNat := by
  simp only [civilText, dateText, clockText, millisText, List.append_assoc, List.cons_append]

/-- A date that comes before another one sorts before it. -/
theorem dateText_append_lt {d d' : Date} (h : d.Before d') (hyear : 0 ≤ d.year)
    (hyear' : d'.year ≤ 9999) (hmonth : d'.month ≤ 12) (hday : d'.day ≤ 31) (r r' : List Char) :
    dateText d ++ r < dateText d' ++ r' := by
  obtain ⟨year, month, day⟩ := d
  obtain ⟨year', month', day'⟩ := d'
  simp only [Date.Before] at h hyear hyear' hmonth hday
  obtain ⟨y, rfl⟩ := Int.eq_ofNat_of_zero_le hyear
  obtain ⟨y', rfl⟩ := Int.eq_ofNat_of_zero_le (show 0 ≤ year' by omega)
  simp only [dateText, paddedInt, List.append_assoc, List.cons_append]
  show padded 4 y ++ _ < padded 4 y' ++ _
  rcases h with h | ⟨hsame, h | ⟨rfl, h⟩⟩
  · exact padded_append_lt (by decide) (by omega) (by omega) _ _
  · obtain rfl : y = y' := by omega
    exact List.append_left_lt (.cons (padded_append_lt (by decide) h (by omega) _ _))
  · obtain rfl : y = y' := by omega
    exact List.append_left_lt (.cons (List.append_left_lt
      (.cons (padded_append_lt (by decide) h (by omega) _ _))))

/-- An earlier second of the day sorts before a later one. -/
theorem clockText_append_lt {second second' : Nat} (h : second < second') (h' : second' < 86400)
    (r r' : List Char) : clockText second ++ r < clockText second' ++ r' := by
  simp only [clockText, List.append_assoc, List.cons_append]
  by_cases hhour : second / 3600 = second' / 3600
  · rw [hhour]
    refine List.append_left_lt (.cons ?_)
    by_cases hminute : second / 60 % 60 = second' / 60 % 60
    · rw [hminute]
      exact List.append_left_lt (.cons (padded_append_lt (by decide) (by omega) (by omega) _ _))
    · exact padded_append_lt (by decide) (by omega) (by omega) _ _
  · exact padded_append_lt (by decide) (by omega) (by omega) _ _

/-- Fewer milliseconds sort before more of them, and none before any. -/
theorem millisText_append_lt {millis millis' : Nat} (h : millis < millis') (h' : millis' < 1000)
    (r r' : List Char) : millisText millis ++ '+' :: r < millisText millis' ++ r' := by
  have hsome : millis' ≠ 0 := by omega
  rw [millisText, millisText, if_neg hsome]
  split
  · exact .rel (by decide)
  · exact .cons (padded_append_lt (by decide) h h' _ _)

/-- In the years 0 to 9999 texts sort as their instants do. -/
theorem print_lt_print {t u : Instant} (ht : 0 ≤ t.year) (hu : u.year ≤ 9999) (h : t < u) :
    (print t).toList < (print u).toList := by
  have hmillis : t.millis < u.millis := h
  have hday : t.day ≤ u.day := Int.ediv_le_ediv (by decide) (Int.le_of_lt hmillis)
  have hyears : t.year ≤ u.year := Date.year_civil_mono hday
  have hdate : Date.ofDay t.day = Date.civil t.day :=
    Calendar.Dated.ofDay_eq ⟨by unfold Instant.year at ht; omega, by
      unfold Instant.year at hyears hu; omega⟩
  have hdate' : Date.ofDay u.day = Date.civil u.day :=
    Calendar.Dated.ofDay_eq ⟨by unfold Instant.year at ht hyears; omega, by
      unfold Instant.year at hu; omega⟩
  have hoffset : "+00:00".toList = '+' :: "00:00".toList := rfl
  simp only [print, hoffset, String.toList_ofList, civilText_eq, hdate, hdate', List.append_assoc,
    List.cons_append]
  rcases Int.lt_or_eq_of_le hday with hlt | heq
  · obtain ⟨-, hmonth, -, hlast⟩ := Date.civil_bounds u.day
    exact dateText_append_lt (Date.before_civil hlt) ht hu hmonth hlast _ _
  · have htime : t.timeOfDay < u.timeOfDay := by
      simp only [Instant.day, Instant.timeOfDay, Instant.dayLength] at heq ⊢
      omega
    have h₀ := t.timeOfDay_nonneg
    have h₁ := u.timeOfDay_lt
    unfold Instant.dayLength at h₁
    rw [heq]
    refine List.append_left_lt (.cons ?_)
    by_cases hsecond : (t.timeOfDay / 1000).toNat = (u.timeOfDay / 1000).toNat
    · rw [hsecond]
      exact List.append_left_lt (millisText_append_lt (by omega) (by omega) _ _)
    · exact clockText_append_lt (by omega) (by omega) _ _

/-- A time is written with characters that are their own bytes. -/
theorem toNat_lt_of_mem_print {t : Instant} {c : Char} (hc : c ∈ (print t).toList) :
    c.toNat < 128 := by
  by_contra hlarge
  have hother : ∀ b : Char, b.toNat < 128 → c ≠ b := by
    rintro b hb rfl
    exact hlarge hb
  have hdigit : c.isDigit = false := by
    rw [Bool.eq_false_iff]
    intro hdigit
    have hnine : c.toNat ≤ 57 := (Char.isDigit_iff_toNat.1 hdigit).2
    omega
  rw [print, String.toList_ofList, List.mem_append] at hc
  rcases hc with hc | hc
  · refine notMem_civilText hdigit ?_ t hc
    simp only [List.mem_cons, List.not_mem_nil, or_false, not_or]
    exact ⟨hother _ (by decide), hother _ (by decide), hother _ (by decide), hother _ (by decide)⟩
  · have hoffset : ∀ b ∈ "+00:00".toList, b.toNat < 128 := by simp
    exact hother c (hoffset c hc) rfl

end Rfc3339

/-! ### Bytes -/

namespace Occurrence

open Text

/-- The bytes of a key, where the id of the schedule may be any bytes. -/
def keyBytes (scheduleId : List UInt8) (t : Instant) : List UInt8 :=
  bytes "scheduled " ++ scheduleId ++ bytes " " ++ bytes (Rfc3339.print t)

theorem bytes_idempotencyKey (s : String) (t : Instant) :
    bytes (idempotencyKey s t) = keyBytes (bytes s) t := by
  rw [idempotencyKey, bytes_append, bytes_append, bytes_append, keyBytes]

theorem bytes_print (t : Instant) :
    bytes (Rfc3339.print t) = (Rfc3339.print t).toList.map Char.toUInt8 :=
  bytes_eq_map fun _ hc => Rfc3339.toNat_lt_of_mem_print hc

theorem blank_notMem_bytes_print (t : Instant) : 32 ∉ bytes (Rfc3339.print t) := by
  rw [bytes_print]
  intro h
  obtain ⟨c, hc, hblank⟩ := List.mem_map.1 h
  have hcode := toNat_toUInt8 (Rfc3339.toNat_lt_of_mem_print hc)
  rw [hblank] at hcode
  have hc' : c = ' ' := Char.toNat_inj.1 hcode.symm
  exact Rfc3339.blank_notMem_print t (hc' ▸ hc)

/-- The keys of occurrences are told apart by schedule and instant, whatever bytes the id of a
schedule has, as long as sixteen bits hold the years. In the years 0 to 9999 the keys of a schedule
sort as their instants do. -/
theorem keys_separate_and_sort :
    (∀ (s : String) (t : Instant), bytes (idempotencyKey s t) = keyBytes (bytes s) t) ∧
    (∀ (s s' : List UInt8) (t t' : Instant), -32767 ≤ t.year ∧ t.year ≤ 32767 →
      -32767 ≤ t'.year ∧ t'.year ≤ 32767 → keyBytes s t = keyBytes s' t' → s = s' ∧ t = t') ∧
    ∀ (s : List UInt8) (t t' : Instant), 0 ≤ t.year ∧ t.year ≤ 9999 →
      0 ≤ t'.year ∧ t'.year ≤ 9999 → t < t' → keyBytes s t < keyBytes s t' := by
  refine ⟨bytes_idempotencyKey, fun s s' t t' ht ht' h => ?_, fun s t t' ht ht' h => ?_⟩
  · have hblank : bytes " " = [32] := by decide
    simp only [keyBytes, hblank, List.append_assoc, List.append_cancel_left_eq,
      List.singleton_append] at h
    obtain ⟨hid, hprint⟩ := eq_and_eq_of_append_cons (blank_notMem_bytes_print t)
      (blank_notMem_bytes_print t') h
    exact ⟨hid, (Rfc3339.print_inj_of_dated ht ht').1 (bytes_inj.1 hprint)⟩
  · have hprint := Rfc3339.print_lt_print ht.1 ht'.2 h
    rw [keyBytes, keyBytes, bytes_print, bytes_print]
    exact List.append_left_lt (map_toUInt8_lt hprint (fun _ hc => Rfc3339.toNat_lt_of_mem_print hc)
      fun _ hc => Rfc3339.toNat_lt_of_mem_print hc)

/-- A blank at the end of an id is not lost, and half a second sorts behind the second. -/
theorem keys_separate_and_sort_half_second :
    bytes (idempotencyKey "nightly" ⟨0⟩) = keyBytes (bytes "nightly") ⟨0⟩ ∧
      keyBytes [255, 32] ⟨0⟩ ≠ keyBytes [255] ⟨0⟩ ∧
      keyBytes [255, 32] ⟨1000⟩ < keyBytes [255, 32] ⟨1500⟩ := by
  obtain ⟨hbytes, hseparate, hsort⟩ := keys_separate_and_sort
  refine ⟨hbytes _ _, fun h => ?_, hsort _ _ _ (by decide) (by decide) (by decide)⟩
  have hid := (hseparate _ _ _ _ (by decide) (by decide) h).1
  cases hid

end Occurrence

end Timetable
