/-!
# Lists cut into batches

A statement takes a limited number of rows or ids, so a longer list goes out in batches of
consecutive elements. Together the batches are the list (`flatten_batches`), none is empty or too
long (`length_of_mem_batches`), and each begins where the one before it ends
(`getElem?_batches_eq_some`).
-/

namespace Timetable.Sql

/-- How many rows or ids one statement takes. An id list may stand twice in a statement, and twice
this number of parameters is less than the 999 that every engine allows. -/
def batchSize : Nat := 400

/-- A list cut into consecutive parts of `size + 1` elements, the last of which may be shorter. -/
def parts (size : Nat) : List α → List (List α)
  | [] => []
  | a :: as => (a :: as.take size) :: parts size (as.drop size)
termination_by l => l.length
decreasing_by simp only [List.length_drop, List.length_cons]; omega

/-- The batches of a list. -/
def batches (l : List α) : List (List α) := parts (batchSize - 1) l

theorem flatten_parts (size : Nat) (l : List α) : (parts size l).flatten = l := by
  fun_induction parts size l with
  | case1 => rfl
  | case2 a as ih => simp [ih]

theorem flatten_batches (l : List α) : (batches l).flatten = l := flatten_parts _ l

theorem length_of_mem_parts {size : Nat} {l p : List α} (h : p ∈ parts size l) :
    0 < p.length ∧ p.length ≤ size + 1 := by
  fun_induction parts size l with
  | case1 => simp at h
  | case2 a as ih =>
    rcases List.mem_cons.1 h with rfl | h
    · simp only [List.length_cons, List.length_take]
      omega
    · exact ih h

theorem length_of_mem_batches {l p : List α} (h : p ∈ batches l) :
    0 < p.length ∧ p.length ≤ batchSize :=
  length_of_mem_parts h

theorem getElem?_parts_eq_some {size k : Nat} {l p : List α} :
    (parts size l)[k]? = some p ↔ p = (l.drop (k * (size + 1))).take (size + 1) ∧ p ≠ [] := by
  fun_induction parts size l generalizing k with
  | case1 => simp
  | case2 a as ih =>
    cases k with
    | zero =>
      rw [List.getElem?_cons_zero, Option.some.injEq, Nat.zero_mul, List.drop_zero,
        List.take_succ_cons]
      constructor
      · rintro rfl
        exact ⟨rfl, List.cons_ne_nil _ _⟩
      · exact fun h => h.1.symm
    | succ k =>
      rw [List.getElem?_cons_succ, ih, List.drop_drop, Nat.succ_mul, ← Nat.add_assoc,
        List.drop_succ_cons, Nat.add_comm size (k * (size + 1))]

theorem getElem?_batches_eq_some {k : Nat} {l p : List α} :
    (batches l)[k]? = some p ↔ p = (l.drop (k * batchSize)).take batchSize ∧ p ≠ [] :=
  getElem?_parts_eq_some

theorem batches_eq_nil {l : List α} : batches l = [] ↔ l = [] := by
  constructor
  · intro h
    rw [← flatten_batches l, h, List.flatten_nil]
  · rintro rfl
    rw [batches, parts]

end Timetable.Sql
