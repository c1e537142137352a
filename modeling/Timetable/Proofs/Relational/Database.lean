import Timetable.Proofs.Transactions
import Timetable.Relational.Database

/-!
# Statements of a transaction that nobody disturbs

As long as all four tables exist, no page is damaged and the other client does nothing, a database
works on copies (`Database.copying`), and what a statement of a transaction does is what it does to
the tables of the copy: `run_execute`, and from it `run_query`, `run_change`, `run_delete`.
-/

namespace Timetable.Relational

/-- All four tables exist. -/
structure Tables.Whole (t : Tables) : Prop where
  deployments : t.deployments.isSome = true
  schedules : t.schedules.isSome = true
  runs : t.runs.isSome = true
  states : t.states.isSome = true

theorem Tables.whole_empty : Tables.empty.Whole := ⟨rfl, rfl, rfl, rfl⟩

theorem Tables.Whole.names_eq {t : Tables} (h : t.Whole) : t.names = Tables.empty.names := by
  rw [names, h.deployments, h.schedules, h.runs, h.states]
  rfl

theorem Tables.whole_create (t : Tables) : t.create.Whole := ⟨rfl, rfl, rfl, rfl⟩

theorem Tables.Whole.create_eq {t : Tables} (h : t.Whole) : t.create = t := by
  obtain ⟨deployments, schedules, runs, states⟩ := t
  obtain ⟨d, rfl⟩ := Option.isSome_iff_exists.1 h.deployments
  obtain ⟨s, rfl⟩ := Option.isSome_iff_exists.1 h.schedules
  obtain ⟨r, rfl⟩ := Option.isSome_iff_exists.1 h.runs
  obtain ⟨q, rfl⟩ := Option.isSome_iff_exists.1 h.states
  rfl

namespace Database

/-- A database is at rest while it is not locked and its clients are as they connected. -/
def copying (v : Version) : Copying Database Tables where
  resting t := ⟨⟨t, false⟩, .fresh, .fresh, false, v⟩
  busy t u := (⟨⟨t, false⟩, { Client.fresh with pending := some u }, .fresh, true, v⟩,
    ⟨false, false, true⟩)
  run_begin_resting _ := rfl
  run_begin_busy _ _ := rfl
  run_commit_busy _ _ := ⟨_, rfl, fun db => by simp [Repository.release, release]⟩
  run_rollback_busy _ _ := ⟨_, rfl, fun db => by simp [Repository.release, release]⟩
  release_busy _ _ := rfl

variable {v : Version} {c w : Tables}

/-- A statement that names tables of the database sees those of the transaction. -/
theorem run_execute (hw : w.Whole) {s : Statement α} (hs : s.missing Tables.empty.names = none) :
    (execute s).run ((copying v).busy c w) =
      match s.run w with
      | .error fault => (.ok (.error (.running, fault)), (copying v).busy c w)
      | .ok (a, u) => (.ok (.ok a), (copying v).busy c u) := by
  have hexecute : Client.execute s false ⟨c, false⟩ { Client.fresh with pending := some w } =
      match s.run w with
      | .error fault =>
        (.error (.running, fault), ⟨c, false⟩, { Client.fresh with pending := some w })
      | .ok (a, u) => (.ok a, ⟨c, false⟩, { Client.fresh with pending := some u }) := by
    rcases hrun : s.run w with fault | ⟨a, u⟩
    · simp [Client.execute, Client.fresh, hs, hw.names_eq, hrun]
    · simp [Client.execute, Client.fresh, hs, hw.names_eq, hrun]
  show (Except.ok (Client.execute s false ⟨c, false⟩ { Client.fresh with pending := some w }).1,
    ({ file := (Client.execute s false ⟨c, false⟩ { Client.fresh with pending := some w }).2.1
       own := (Client.execute s false ⟨c, false⟩ { Client.fresh with pending := some w }).2.2
       other := .fresh, locked := true, version := v } : Database),
      (⟨false, false, true⟩ : Transaction)) = _
  rw [hexecute]
  rcases s.run w with fault | ⟨a, u⟩ <;> rfl

/-- Reading leaves the transaction alone. -/
theorem run_read (hw : w.Whole) {s : Statement α} (hs : s.missing Tables.empty.names = none) {a : α}
    (h : s.run w = .ok (a, w)) :
    (read s).run ((copying v).busy c w) = (.ok a, (copying v).busy c w) := by
  have hrun := run_execute (v := v) (c := c) hw hs
  rw [h] at hrun
  rw [read, Action.run_bind_of_ok hrun]
  rfl

theorem run_query (hw : w.Whole) {uses : List TableName} {f : Tables → α}
    (hs : (Statement.query uses f).missing Tables.empty.names = none) :
    (query uses f).run ((copying v).busy c w) = (.ok (f w), (copying v).busy c w) :=
  run_read hw hs rfl

theorem run_execute_change (hw : w.Whole) {uses refers : List TableName}
    {f : Tables → Except Fault Tables}
    (hs : (Statement.change uses refers f).missing Tables.empty.names = none) :
    (execute (.change uses refers f)).run ((copying v).busy c w) =
      match f w with
      | .error fault => (.ok (.error (.running, fault)), (copying v).busy c w)
      | .ok u => (.ok (.ok ()), (copying v).busy c u) := by
  have hrun : (Statement.change uses refers f).run w = (f w).map fun u => ((), u) := rfl
  rw [run_execute hw hs, hrun]
  rcases f w with fault | u <;> rfl

/-- A change is made, or the transaction is left alone. -/
theorem run_change (hw : w.Whole) {uses refers : List TableName} {f : Tables → Except Fault Tables}
    (hs : (Statement.change uses refers f).missing Tables.empty.names = none) :
    (change uses refers f).run ((copying v).busy c w) =
      match f w with
      | .error fault => (.ok (.error fault.toRefusal), (copying v).busy c w)
      | .ok u => (.ok (.ok ()), (copying v).busy c u) := by
  have hrun := run_execute_change (v := v) (c := c) hw hs
  rw [change]
  rcases hf : f w with fault | u <;> rw [hf] at hrun <;> rw [Action.run_bind_of_ok hrun] <;> rfl

/-- Rows are deleted, and that there were none is a refusal. -/
theorem run_delete (hw : w.Whole) {uses refers : List TableName} {f : Tables → Nat × Tables}
    {absent : Refusal} (hs : (Statement.delete uses refers f).missing Tables.empty.names = none) :
    (delete uses refers f absent).run ((copying v).busy c w) =
      (.ok (if (f w).1 = 0 then .error absent else .ok ()), (copying v).busy c (f w).2) := by
  have hrun : (execute (.delete uses refers f)).run ((copying v).busy c w) =
      (.ok (.ok (f w).1), (copying v).busy c (f w).2) := by
    rw [run_execute hw hs]
    rfl
  rw [delete, Action.run_bind_of_ok hrun]
  cases (f w).1 <;> rfl

/-- A schedule is inserted, or refused; without its deployment it is refused for that. -/
theorem run_insertSchedule (hw : w.Whole) (s : Schedule) :
    (insertSchedule s).run ((copying v).busy c w) =
      match w.insertSchedule (bindSchedule s) with
      | .error .foreignKeyViolated =>
        (.ok (.error (.noDeployment s.deploymentId)), (copying v).busy c w)
      | .error fault => (.ok (.error fault.toRefusal), (copying v).busy c w)
      | .ok u => (.ok (.ok ()), (copying v).busy c u) := by
  have hrun := run_execute_change (v := v) (c := c) (f := Tables.insertSchedule (bindSchedule s))
    hw (show Statement.missing (.change [.schedule] [.deployment] _) _ = none from rfl)
  rw [insertSchedule]
  rcases h : w.insertSchedule (bindSchedule s) with fault | u
  · rw [h] at hrun
    rw [Action.run_bind_of_ok hrun]
    cases fault <;> rfl
  · rw [h] at hrun
    rw [Action.run_bind_of_ok hrun]
    rfl

/-- An engine that has the statements of a link strategy carries them out. -/
theorem run_linkBatches_of_knows {strategy : LinkStrategy} {s : Database × Transaction}
    (h : s.1.version.knows strategy = true) (ids : List String) :
    (linkBatches strategy ids).run s =
      (changeEach (linkStates strategy) (Sql.batches ids)).run s :=
  if_pos h

/-- One that does not have them says so. -/
theorem run_linkBatches_of_not_knows {strategy : LinkStrategy} {s : Database × Transaction}
    (h : ¬ s.1.version.knows strategy = true) (ids : List String) :
    (linkBatches strategy ids).run s = (.ok (.error s.1.version.tooOld), s) :=
  if_neg h

theorem run_insertSchedule_of_ok (hw : w.Whole) {s : Schedule} {u : Tables}
    (h : w.insertSchedule (bindSchedule s) = .ok u) :
    (insertSchedule s).run ((copying v).busy c w) = (.ok (.ok ()), (copying v).busy c u) := by
  rw [run_insertSchedule hw, h]

theorem run_insertSchedule_of_error (hw : w.Whole) {s : Schedule} {fault : Fault}
    (h : w.insertSchedule (bindSchedule s) = .error fault) : ∃ e,
    (insertSchedule s).run ((copying v).busy c w) = (.ok (.error e), (copying v).busy c w) := by
  rw [run_insertSchedule hw, h]
  cases fault <;> exact ⟨_, rfl⟩

end Database

end Timetable.Relational
