import Timetable.Proofs.Desk
import Timetable.Proofs.Keyed.Ledger

/-!
# Errands on tables

Through a transaction object, each errand is done to the tables that the object works on, and to
nothing else (`Ledger.run_write`, `Ledger.run_inquiry`, `Ledger.run_errand`). What it does there is
said by functions of the tables alone: `Tables.write`, `Tables.find` and `Tables.serve`. `Turn` says
what a deed comes to on the desk of a ledger, with one case for each way it can go.
-/

namespace Timetable.Keyed

namespace Tables

/-- Goes over to new tables, unless they are refused. -/
def adopt (t : Tables) : Except Refusal Tables → Outcome × Tables
  | .ok u => (.ok (), u)
  | .error e => (.error e, t)

/-- What a request that writes is answered, and what it leads to. -/
def write (t : Tables) : Write → Outcome × Tables
  | .change (.insertDeployment d) => t.adopt (t.insertDeployment d)
  | .change (.deleteDeployment id) => t.adopt (t.deleteDeployment id)
  | .change (.insertSchedule s) => t.adopt (t.insertSchedule s)
  | .change (.deleteSchedule id) => t.adopt (t.deleteSchedule id)
  | .insertRuns rs => t.insertRuns rs
  | .insertStates ss => t.insertStates ss
  | .linkStates strategy ids => (.ok (), t.linkStates strategy ids)

/-- What an inquiry finds. -/
def find (t : Tables) : (q : Inquiry) → q.Finding
  | .findDeployment id => t.deployments.get? id
  | .listDeployments offset limit => t.listDeployments offset limit
  | .listSchedules id => t.listSchedules id
  | .statelessRunIds ids => (.ok (), t.statelessRunIds ids)
  | .findRun id => t.runs.get? id
  | .listRuns id => t.listRuns id
  | .listStates id => t.listStates id

/-- The tables after an errand. -/
def serve (t : Tables) : Errand → Tables
  | .write w => (t.write w).2
  | .read _ => t

/-- What accepted tables have and the old ones had, the tables have that are gone over to. -/
theorem adopt_keeps {P : Tables → Prop} {t : Tables} {r : Except Refusal Tables} (ht : P t)
    (h : ∀ u, r = .ok u → P u) : P (t.adopt r).2 := by
  cases r with
  | ok u => exact h u rfl
  | error e => exact ht

end Tables

namespace Ledger

variable {l : Ledger} {tx : Transaction}

theorem run_change_eq (f : Tables → Except Refusal Tables) :
    (Ledger.change f).run (l, tx) =
      (.ok (tx.working.adopt (f tx.working)).1, l,
        { tx with working := (tx.working.adopt (f tx.working)).2 }) := by
  cases h : f tx.working with
  | ok u => exact run_change_of_ok h
  | error e => exact run_change_of_error h

theorem run_write (w : Write) :
    (w.request : Action (Ledger × Transaction) Outcome).run (l, tx) =
      (.ok (tx.working.write w).1, l, { tx with working := (tx.working.write w).2 }) := by
  cases w with
  | change c =>
    cases c with
    | insertDeployment d => exact run_change_eq (·.insertDeployment d)
    | deleteDeployment id => exact run_change_eq (·.deleteDeployment id)
    | insertSchedule s => exact run_change_eq (·.insertSchedule s)
    | deleteSchedule id => exact run_change_eq (·.deleteSchedule id)
  | insertRuns rs => rfl
  | insertStates ss => rfl
  | linkStates strategy ids => rfl

theorem run_inquiry (q : Inquiry) :
    (q.request : Action (Ledger × Transaction) q.Finding).run (l, tx) =
      (.ok (tx.working.find q), l, tx) := by
  cases q <;> rfl

theorem run_errand (e : Errand) :
    e.run (l, tx) = (l, { tx with working := tx.working.serve e }) := by
  cases e with
  | write w => rw [Errand.run, run_write, Tables.serve]
  | read q => rw [Errand.run, run_inquiry, Tables.serve]

end Ledger

/-! ### The desk of a ledger -/

section Turn

variable {ι : Type} [DecidableEq ι]

/-- What a deed comes to. -/
inductive Turn (y : Desk Ledger Transaction ι) : Deed ι → Desk Ledger Transaction ι → Prop
  /-- A transaction begins under a free name and has the ledger to itself. -/
  | begun {i} (hi : y.objects i = none) (hfree : y.store.locked = false) :
      Turn y (.begin i)
        (y.put i (⟨y.store.committed, true⟩, ⟨y.store.committed, .active⟩))
  /-- The name is taken, or the ledger is. -/
  | waiting {i} (h : y.objects i ≠ none ∨ y.store.locked = true) : Turn y (.begin i) y
  /-- There is no such object. -/
  | absent {d} (hd : ∀ i, d ≠ .begin i) (hi : y.objects d.object = none) : Turn y d y
  | served {i e tx} (hi : y.objects i = some tx) :
      Turn y (.errand i e) (y.put i (y.store, { tx with working := tx.working.serve e }))
  | committed {i w} (hi : y.objects i = some ⟨w, .active⟩) :
      Turn y (.commit i) (y.put i (⟨w, false⟩, ⟨.empty, .committed⟩))
  | undone {i w} (hi : y.objects i = some ⟨w, .active⟩) :
      Turn y (.rollback i) (y.put i (⟨y.store.committed, false⟩, ⟨.empty, .rolledBack⟩))
  /-- The transaction has ended before. -/
  | ended {d i tx} (hd : d = .commit i ∨ d = .rollback i) (hi : y.objects i = some tx)
      (hphase : tx.phase ≠ .active) : Turn y d y
  | dropped {i w} (hi : y.objects i = some ⟨w, .active⟩) :
      Turn y (.destroy i) (y.drop i ⟨y.store.committed, false⟩)
  | discarded {i tx} (hi : y.objects i = some tx) (hphase : tx.phase ≠ .active) :
      Turn y (.destroy i) (y.drop i y.store)

theorem Ledger.run_commit_ended {l : Ledger} {tx : Transaction} (h : tx.phase ≠ .active) :
    ∃ e, e.kind = .logic ∧
      (Repository.commit : Action (Ledger × Transaction) Unit).run (l, tx) = (.error e, l, tx) := by
  obtain ⟨w, phase⟩ := tx
  cases phase with
  | active => exact absurd rfl h
  | committed => exact ⟨.alreadyCommitted, rfl, rfl⟩
  | rolledBack => exact ⟨.commitAfterRollback, rfl, rfl⟩

theorem Ledger.run_rollback_ended {l : Ledger} {tx : Transaction} (h : tx.phase ≠ .active) :
    (Repository.rollback : Action (Ledger × Transaction) Unit).run (l, tx) = (.ok (), l, tx) := by
  obtain ⟨w, phase⟩ := tx
  cases phase with
  | active => exact absurd rfl h
  | committed => rfl
  | rolledBack => rfl

theorem turn_begin (y : Desk Ledger Transaction ι) (i : ι) :
    Turn y (.begin i) (y.step (.begin i)) := by
  cases hi : y.objects i with
  | some tx =>
    rw [Desk.step_begin_of_some hi]
    exact .waiting (.inl (by simp [hi]))
  | none =>
    obtain ⟨⟨committed, locked⟩, objects⟩ := y
    cases locked with
    | true =>
      rw [Desk.step_begin_of_error hi rfl]
      exact .waiting (.inr rfl)
    | false =>
      rw [Desk.step_begin_of_ok hi rfl]
      exact .begun hi rfl

theorem turn_commit (y : Desk Ledger Transaction ι) (i : ι) :
    Turn y (.commit i) (y.step (.commit i)) := by
  rw [Desk.step_commit]
  cases hi : y.objects i with
  | none =>
    rw [Desk.use_of_none hi]
    exact .absent (by simp) hi
  | some tx =>
    rw [Desk.use_of_some hi]
    by_cases hphase : tx.phase = .active
    · obtain ⟨w, phase⟩ := tx
      cases hphase
      exact .committed hi
    · obtain ⟨e, -, hrun⟩ := Ledger.run_commit_ended (l := y.store) hphase
      rw [hrun, Desk.put_self hi]
      exact .ended (.inl rfl) hi hphase

theorem turn_rollback (y : Desk Ledger Transaction ι) (i : ι) :
    Turn y (.rollback i) (y.step (.rollback i)) := by
  rw [Desk.step_rollback]
  cases hi : y.objects i with
  | none =>
    rw [Desk.use_of_none hi]
    exact .absent (by simp) hi
  | some tx =>
    rw [Desk.use_of_some hi]
    by_cases hphase : tx.phase = .active
    · obtain ⟨w, phase⟩ := tx
      cases hphase
      exact .undone hi
    · rw [Ledger.run_rollback_ended hphase, Desk.put_self hi]
      exact .ended (.inr rfl) hi hphase

theorem turn_destroy (y : Desk Ledger Transaction ι) (i : ι) :
    Turn y (.destroy i) (y.step (.destroy i)) := by
  cases hi : y.objects i with
  | none =>
    rw [Desk.step_destroy_of_none hi]
    exact .absent (by simp) hi
  | some tx =>
    rw [Desk.step_destroy_of_some hi]
    by_cases hphase : tx.phase = .active
    · obtain ⟨w, phase⟩ := tx
      cases hphase
      exact .dropped hi
    · have hrelease : (Repository.release (y.store, tx)).2 = y.store :=
        congrArg (·.2.1) (Ledger.run_rollback_ended hphase)
      rw [hrelease]
      exact .discarded hi hphase

theorem turn_step (y : Desk Ledger Transaction ι) (d : Deed ι) : Turn y d (y.step d) := by
  cases d with
  | begin i => exact turn_begin y i
  | errand i e =>
    rw [Desk.step_errand]
    cases hi : y.objects i with
    | none =>
      rw [Desk.use_of_none hi]
      exact .absent (by simp) hi
    | some tx =>
      rw [Desk.use_of_some hi, Ledger.run_errand]
      exact .served hi
  | commit i => exact turn_commit y i
  | rollback i => exact turn_rollback y i
  | destroy i => exact turn_destroy y i

end Turn

end Timetable.Keyed
