import Timetable.Proofs.Calendar
import Timetable.Proofs.Texts

/-!
# What the text of an instant tells

The fields of a text are numbers, and the marks between them are in none of the numbers, so a text
falls into its fields in one way. It therefore tells the date and the time of day (`civilText_inj`),
and with them the instant if its year fits sixteen bits (`print_inj_of_dated`).
-/

namespace Timetable

/-- Where neither end holds the mark, the last mark splits a list in one way. -/
theorem eq_and_eq_of_append_cons {α : Type} {a : α} {x x' z z' : List α} (hz : a ∉ z) (hz' : a ∉ z')
    (h : x ++ a :: z = x' ++ a :: z') : x = x' ∧ z = z' := by
  -- one of the beginnings goes on where the other ends, and would have to go on with the mark
  rcases List.append_eq_append_iff.1 h with ⟨m, rfl, hm⟩ | ⟨m, rfl, hm⟩
  · cases m with
    | nil => simpa using hm
    | cons b m =>
      obtain ⟨-, rfl⟩ := List.cons.inj hm
      exact absurd (by simp) hz
  · cases m with
    | nil => simpa using hm.symm
    | cons b m =>
      obtain ⟨-, rfl⟩ := List.cons.inj hm
      exact absurd (by simp) hz'

namespace Numeral

theorem value_padded (width n : Nat) : value (padded width n) = n := by
  have hzeros : ∀ k, Nat.ofDigitChars 10 (List.replicate k '0') 0 = 0 := by
    intro k
    induction k with
    | zero => rfl
    | succ k ih => exact ih
  rw [padded, value, Nat.ofDigitChars_append, hzeros]
  exact value_digits n

theorem padded_inj {width n n' : Nat} : padded width n = padded width n' ↔ n = n' := by
  refine ⟨fun h => ?_, congrArg (padded width)⟩
  rw [← value_padded width n, h, value_padded]

/-- The sign tells negative numbers from the others, and digits tell the rest. -/
theorem paddedInt_inj {width : Nat} {n n' : Int} :
    paddedInt width n = paddedInt width n' ↔ n = n' := by
  have hsign : ∀ (k m : Nat) (cs : List Char), padded k m ≠ '-' :: cs := by
    intro k m cs h
    have hmark : '-' ∉ padded k m := notMem_padded (by decide) k m
    rw [h] at hmark
    exact hmark (List.mem_cons_self ..)
  refine ⟨fun h => ?_, congrArg (paddedInt width)⟩
  cases n with
  | ofNat n =>
    cases n' with
    | ofNat n' => rw [padded_inj.1 h]
    | negSucc n' => exact absurd h (hsign _ _ _)
  | negSucc n =>
    cases n' with
    | ofNat n' => exact absurd h.symm (hsign _ _ _)
    | negSucc n' => rw [Nat.succ.inj (padded_inj.1 (List.cons.inj h).2)]

end Numeral

namespace Rfc3339

open Numeral

/-- The milliseconds at the end of a text, if there are any. -/
def millisText (millis : Nat) : List Char := if millis = 0 then [] else '.' :: padded 3 millis

/-- What stands before the last mark is the same in two texts, and so is the number behind it. -/
theorem eq_and_eq_of_append_padded {c : Char} (hc : c.isDigit = false) {x x' : List Char}
    {width n n' : Nat} (h : x ++ c :: padded width n = x' ++ c :: padded width n') :
    x = x' ∧ n = n' := by
  have hsplit := eq_and_eq_of_append_cons (notMem_padded hc width n) (notMem_padded hc width n') h
  exact ⟨hsplit.1, padded_inj.1 hsplit.2⟩

theorem eq_and_eq_of_append_millisText {x x' : List Char} {millis millis' : Nat} (hx : '.' ∉ x)
    (hx' : '.' ∉ x') (h : x ++ millisText millis = x' ++ millisText millis') :
    x = x' ∧ millis = millis' := by
  unfold millisText at h
  by_cases hm : millis = 0 <;> by_cases hm' : millis' = 0
  · simp only [hm, hm', if_true, List.append_nil] at h
    exact ⟨h, hm.trans hm'.symm⟩
  · simp only [hm, hm', if_true, if_false, List.append_nil] at h
    rw [h] at hx
    exact absurd (by simp) hx
  · simp only [hm, hm', if_true, if_false, List.append_nil] at h
    rw [← h] at hx'
    exact absurd (by simp) hx'
  · simp only [hm, hm', if_false] at h
    exact eq_and_eq_of_append_padded (by decide) h

/-- A text tells the date and the time of day. -/
theorem civilText_inj {t u : Instant} : civilText t = civilText u ↔
    Date.ofDay t.day = Date.ofDay u.day ∧ t.timeOfDay = u.timeOfDay := by
  constructor
  · intro h
    have hpoint : ∀ (v : Int) (a b c d e : Nat), '.' ∉ paddedInt 4 v ++ '-' :: padded 2 a ++
        '-' :: padded 2 b ++ 'T' :: padded 2 c ++ ':' :: padded 2 d ++ ':' :: padded 2 e := by
      intro v a b c d e
      simp [notMem_padded, notMem_paddedInt]
    obtain ⟨h, hmillis⟩ := eq_and_eq_of_append_millisText (hpoint _ _ _ _ _ _)
      (hpoint _ _ _ _ _ _) h
    obtain ⟨h, hsecond⟩ := eq_and_eq_of_append_padded (by decide) h
    obtain ⟨h, hminute⟩ := eq_and_eq_of_append_padded (by decide) h
    obtain ⟨h, hhour⟩ := eq_and_eq_of_append_padded (by decide) h
    obtain ⟨h, hday⟩ := eq_and_eq_of_append_padded (by decide) h
    obtain ⟨hyear, hmonth⟩ := eq_and_eq_of_append_padded (by decide) h
    have hyear := paddedInt_inj.1 hyear
    refine ⟨?_, ?_⟩
    · generalize Date.ofDay t.day = date at *
      generalize Date.ofDay u.day = date' at *
      cases date
      cases date'
      simp_all
    · have ht := t.timeOfDay_nonneg
      have hu := u.timeOfDay_nonneg
      omega
  · rintro ⟨hdate, htime⟩
    simp only [civilText, hdate, htime]

theorem blank_notMem_print (t : Instant) : ' ' ∉ (print t).toList := by
  rw [print, String.toList_ofList, List.mem_append, not_or]
  exact ⟨notMem_civilText (by decide) (by decide) t, by decide⟩

theorem print_inj {t u : Instant} : print t = print u ↔ civilText t = civilText u := by
  rw [print, print, String.ofList_inj, List.append_cancel_right_eq]

theorem printZulu_eq_of_print_eq {t u : Instant} (h : print t = print u) :
    printZulu t = printZulu u := by
  rw [printZulu, printZulu, print_inj.1 h]

/-- Instants with a year that sixteen bits hold are told by their texts. -/
theorem print_inj_of_dated {t u : Instant} (ht : Calendar.Dated t.day) (hu : Calendar.Dated u.day) :
    print t = print u ↔ t = u := by
  refine ⟨fun h => ?_, congrArg print⟩
  obtain ⟨hdate, htime⟩ := civilText_inj.1 (print_inj.1 h)
  rw [← Instant.ofDay_day t, ← Instant.ofDay_day u, (Date.ofDay_inj ht hu).1 hdate, htime]

end Rfc3339

end Timetable
