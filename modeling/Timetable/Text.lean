/-!
# Texts that end at their first NUL

Failure messages, command-line arguments, environment variables, paths and bound statement
parameters end before the first U+0000 of the text they were given. `untilNul` cuts there, and
leaves a text alone exactly when it holds no U+0000 (`untilNul_eq_self_iff`).
-/

namespace Timetable.Text

/-- What stands before the first U+0000 of a text, or all of it if there is none. -/
def untilNul (s : String) : String :=
  String.ofList (s.toList.takeWhile (· ≠ '\x00'))

theorem toList_untilNul (s : String) :
    (untilNul s).toList = s.toList.takeWhile (· ≠ '\x00') :=
  String.toList_ofList

theorem nul_notMem_untilNul (s : String) : '\x00' ∉ (untilNul s).toList := by
  rw [toList_untilNul]
  intro h
  simpa using List.all_eq_true.1 List.all_takeWhile _ h

theorem takeWhile_eq_self {p : α → Bool} :
    ∀ {l : List α}, (∀ a ∈ l, p a = true) → l.takeWhile p = l
  | [], _ => rfl
  | a :: l, h => by
    rw [List.takeWhile_cons, if_pos (h a (by simp)),
      takeWhile_eq_self fun b hb => h b (by simp [hb])]

/-- Cutting changes nothing exactly when there is nothing to cut. -/
theorem untilNul_eq_self_iff {s : String} : untilNul s = s ↔ '\x00' ∉ s.toList := by
  constructor
  · intro h
    rw [← h]
    exact nul_notMem_untilNul s
  · intro h
    rw [← String.toList_inj, toList_untilNul]
    exact takeWhile_eq_self fun a ha => by
      simp only [ne_eq, decide_not, Bool.not_eq_eq_eq_not, Bool.not_true, decide_eq_false_iff_not]
      exact fun e => h (e ▸ ha)

end Timetable.Text
