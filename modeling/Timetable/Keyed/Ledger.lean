import Timetable.Keyed.Tables
import Timetable.Repository

/-!
# Transactions over keyed tables

A `Ledger` holds the committed tables and knows whether a transaction is open; there is at most
one. A transaction works on a copy, which replaces the committed tables when it is committed. One
that has ended works on empty tables that nobody else sees.
-/

namespace Timetable.Keyed

/-- The committed tables and the lock that an open transaction holds. -/
structure Ledger where
  committed : Tables
  locked : Bool
deriving Inhabited

/-- Whether a transaction is open, and if not, how it ended. -/
inductive Phase
  | active
  | committed
  | rolledBack
deriving DecidableEq, Repr

/-- A copy of the tables to work on. -/
structure Transaction where
  working : Tables
  phase : Phase

namespace Ledger

/-- A ledger without records. -/
def empty : Ledger := ⟨.empty, false⟩

/-- Starts a transaction as soon as no other is open. -/
def begin : Action Ledger Transaction := fun l =>
  if l.locked then (.error .waiting, l)
  else (.ok ⟨l.committed, .active⟩, { l with locked := true })

/-- Makes the working tables the committed ones. -/
def commit : Action (Ledger × Transaction) Unit := fun (l, tx) =>
  match tx.phase with
  | .rolledBack => (.error .commitAfterRollback, l, tx)
  | .committed => (.error .alreadyCommitted, l, tx)
  | .active => (.ok (), ⟨tx.working, false⟩, ⟨.empty, .committed⟩)

/-- Forgets the working tables of an open transaction; one that has ended stays as it is. -/
def rollback : Action (Ledger × Transaction) Unit := fun (l, tx) =>
  match tx.phase with
  | .active => (.ok (), { l with locked := false }, ⟨.empty, .rolledBack⟩)
  | .committed | .rolledBack => (.ok (), l, tx)

/-- Gives a transaction up. -/
def release (s : Ledger × Transaction) : Ledger := (rollback s).2.1

/-- Reads the working tables. -/
def view (f : Tables → α) : Action (Ledger × Transaction) α := fun (l, tx) =>
  (.ok (f tx.working), l, tx)

/-- Changes the working tables in one step, or not at all. -/
def change (f : Tables → Except Refusal Tables) : Action (Ledger × Transaction) Outcome :=
  fun (l, tx) =>
    match f tx.working with
    | .ok t => (.ok (.ok ()), l, { tx with working := t })
    | .error e => (.ok (.error e), l, tx)

/-- Changes the working tables row by row. -/
def changeAll (f : Tables → Outcome × Tables) : Action (Ledger × Transaction) Outcome :=
  fun (l, tx) =>
    let r := f tx.working
    (.ok r.1, l, { tx with working := r.2 })

end Ledger

instance : Repository Ledger Transaction where
  dialect _ := "memory"
  begin := Ledger.begin
  commit := Ledger.commit
  rollback := Ledger.rollback
  isCommitted tx := tx.phase = .committed
  release s := ([], Ledger.release s)
  insertDeployment d := Ledger.change (·.insertDeployment d)
  findDeployment id := Ledger.view (·.deployments.get? id)
  listDeployments offset limit := Ledger.view (·.listDeployments offset limit)
  deleteDeployment id := Ledger.change (·.deleteDeployment id)
  insertSchedule s := Ledger.change (·.insertSchedule s)
  listSchedules id := Ledger.view (·.listSchedules id)
  deleteSchedule id := Ledger.change (·.deleteSchedule id)
  insertRuns rs := Ledger.changeAll (·.insertRuns rs)
  statelessRunIds ids := Ledger.view fun t => (.ok (), t.statelessRunIds ids)
  insertStates ss := Ledger.changeAll (·.insertStates ss)
  linkStates strategy ids := Ledger.changeAll fun t => (.ok (), t.linkStates strategy ids)
  findRun id := Ledger.view (·.runs.get? id)
  listRuns id := Ledger.view (·.listRuns id)
  listStates id := Ledger.view (·.listStates id)
  pageBound l := l.committed.deployments.entries.length + 1

end Timetable.Keyed
