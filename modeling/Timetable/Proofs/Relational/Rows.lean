import Timetable.Proofs.Texts
import Timetable.Relational.Database

/-!
# Records that pass through rows

An insertion and a query that name the same columns yield each parameter where it was bound
(`Layout.columns_row`). So a record that is read back differs from what was bound in one respect
only: each of its texts ends at its first U+0000 (`bindDeployment_eq` and its siblings). A record
whose texts hold none is read back as it was.
-/

namespace Timetable.Relational

open Text

/-! ### Cells -/

namespace Cell

@[simp] theorem toText_ofText (s : String) : (ofText s).toText = untilNul s :=
  untilNul_of_nulFree (nulFree_untilNul s)

@[simp] theorem toText?_ofText? (s : Option String) :
    (ofText? s).toText? = s.map untilNul := by
  cases s with
  | none => rfl
  | some s => exact congrArg some (toText_ofText s)

@[simp] theorem toInt_integer (n : Int) : (integer n).toInt = n := rfl

/-- Words of 64 bits come back from a column of signed ones. -/
@[simp] theorem toWord_ofWord (n : UInt64) : (ofWord n).toWord = n := by
  show (Int64.ofInt n.toInt64.toInt).toUInt64 = n
  rw [Int64.ofInt_toInt, UInt64.toUInt64_toInt64]

@[simp] theorem toFlag_ofFlag (b : Bool) : (ofFlag b).toFlag = b := by
  cases b <;> rfl

end Cell

/-! ### Columns -/

/-- What stands at a place of one list is found by what stands there in the other. -/
theorem getElem?_bind_lookup_zip [BEq α] [LawfulBEq α] {keys : List α} {values : List β} {i : Nat}
    (hkeys : keys.Nodup) (hlength : values.length = keys.length) :
    keys[i]?.bind (List.lookup · (keys.zip values)) = values[i]? := by
  induction keys generalizing values i with
  | nil =>
    rw [List.eq_nil_of_length_eq_zero hlength]
    rfl
  | cons key keys ih =>
    obtain ⟨value, values, rfl⟩ := List.exists_cons_of_length_eq_add_one hlength
    obtain ⟨hnew, hkeys⟩ := List.nodup_cons.1 hkeys
    cases i with
    | zero => simp
    | succ i =>
      rw [List.getElem?_cons_succ, List.getElem?_cons_succ, ← ih hkeys (Nat.succ.inj hlength)]
      cases hi : keys[i]? with
      | none => rfl
      | some other =>
        have hne : other ≠ key := fun h => hnew (h ▸ List.mem_of_getElem? hi)
        simp [List.lookup_cons, beq_eq_false_iff_ne.2 hne]

/-- A query that names the columns of the insertion yields what was bound to each of them. -/
theorem Layout.columns_row {l : Layout ρ} {r : ρ} (hselected : l.selected = l.inserted)
    (hnodup : l.inserted.Nodup) (hlength : (l.parameters r).length = l.inserted.length) :
    l.columns (l.row r) = fun i => (l.parameters r)[i]?.getD .null := by
  funext i
  rw [columns, row, hselected, getElem?_bind_lookup_zip hnodup hlength]

/-! ### Records -/

namespace Database

theorem bindDeployment_eq (d : Deployment) : bindDeployment d = d.mapTexts untilNul := by
  rw [bindDeployment, Layout.passed, Layout.columns_row rfl (by decide) rfl]
  simp [Layout.deployment, Deployment.mapTexts]

theorem bindSchedule_eq (s : Schedule) : bindSchedule s = s.mapTexts untilNul := by
  rw [bindSchedule, Layout.passed, Layout.columns_row rfl (by decide) rfl]
  simp [Layout.schedule, Schedule.mapTexts]

theorem bindRun_eq (r : FlowRun) : bindRun r = r.mapTexts untilNul := by
  rw [bindRun, Layout.passed, Layout.columns_row rfl (by decide) rfl]
  simp [Layout.run, FlowRun.mapTexts]

theorem bindState_eq (s : RunState) : bindState s = s.mapTexts untilNul := by
  rw [bindState, Layout.passed, Layout.columns_row rfl (by decide) rfl]
  simp [Layout.state, RunState.mapTexts]

end Database

theorem bindDeployment_of_nulFree {d : Deployment} (h : ∀ x ∈ d.texts, NulFree x) :
    Database.bindDeployment d = d := by
  rw [Database.bindDeployment_eq, Deployment.mapTexts_eq_self_iff]
  exact fun x hx => untilNul_of_nulFree (h x hx)

theorem bindSchedule_of_nulFree {s : Schedule} (h : ∀ x ∈ s.texts, NulFree x) :
    Database.bindSchedule s = s := by
  rw [Database.bindSchedule_eq, Schedule.mapTexts_eq_self_iff]
  exact fun x hx => untilNul_of_nulFree (h x hx)

theorem bindRun_of_nulFree {r : FlowRun} (h : ∀ x ∈ r.texts, NulFree x) :
    Database.bindRun r = r := by
  rw [Database.bindRun_eq, FlowRun.mapTexts_eq_self_iff]
  exact fun x hx => untilNul_of_nulFree (h x hx)

theorem bindState_of_nulFree {s : RunState} (h : ∀ x ∈ s.texts, NulFree x) :
    Database.bindState s = s := by
  rw [Database.bindState_eq, RunState.mapTexts_eq_self_iff]
  exact fun x hx => untilNul_of_nulFree (h x hx)

theorem map_untilNul_of_nulFree {ids : List String} (h : ∀ x ∈ ids, NulFree x) :
    ids.map untilNul = ids :=
  (List.map_congr_left fun a ha => untilNul_of_nulFree (h a ha)).trans (List.map_id' ids)

end Timetable.Relational
