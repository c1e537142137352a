import Timetable.Action
import Timetable.LinkStrategy
import Timetable.Log
import Timetable.Record

/-!
# Stores reached through transactions

A `Repository` is a state `σ` that all transactions share, and a state `τ` of each transaction.
Every read and every write goes through a transaction, which may already have ended; what such a
transaction still sees and does is up to the repository. A transaction is released once it is no
longer needed, which undoes it unless it has ended.

`World.transact` runs a body in a transaction of its own: committed if the body succeeds, undone
if it fails.
-/

namespace Timetable

/-- A store of deployments, schedules, runs and states. -/
class Repository (σ : Type) (τ : outParam Type) where
  /-- The name of the store's language. -/
  dialect : σ → String
  /-- Starts a transaction. -/
  begin : Action σ τ
  commit : Action (σ × τ) Unit
  rollback : Action (σ × τ) Unit
  /-- Whether a transaction has been committed. -/
  isCommitted : τ → Bool
  /-- Gives a transaction up, and reports what went wrong with undoing it. -/
  release : σ × τ → List Log.Entry × σ
  insertDeployment : Deployment → Action (σ × τ) Outcome
  findDeployment : String → Action (σ × τ) (Option Deployment)
  /-- The deployments in the order of their ids, from a place on and up to a number of them. -/
  listDeployments : UInt64 → Option UInt64 → Action (σ × τ) (List Deployment)
  /-- Removes a deployment and its schedules. -/
  deleteDeployment : String → Action (σ × τ) Outcome
  insertSchedule : Schedule → Action (σ × τ) Outcome
  /-- The schedules of a deployment, oldest first. -/
  listSchedules : String → Action (σ × τ) (List Schedule)
  deleteSchedule : String → Action (σ × τ) Outcome
  /-- Adds the runs whose keys are new. -/
  insertRuns : List FlowRun → Action (σ × τ) Outcome
  /-- Those of the given ids that belong to stored runs without states. -/
  statelessRunIds : List String → Action (σ × τ) (Outcome × List String)
  insertStates : List RunState → Action (σ × τ) Outcome
  /-- Points the owners of the given states at them. -/
  linkStates : LinkStrategy → List String → Action (σ × τ) Outcome
  findRun : String → Action (σ × τ) (Option FlowRun)
  /-- The runs of a deployment, oldest first. -/
  listRuns : String → Action (σ × τ) (List FlowRun)
  /-- The states of a run, oldest first. -/
  listStates : String → Action (σ × τ) (List RunState)
  /-- More pages of deployments than the store can still fill. -/
  pageBound : σ → Nat

/-- A store and its surroundings: a clock and a log. -/
structure World (σ : Type) where
  store : σ
  /-- The reading of the clock, in nanoseconds since the start of 1970, UTC. -/
  clock : Int
  /-- What has been logged, oldest first. -/
  log : List Log.Entry

namespace World

/-- The time on the clock. -/
def now (w : World σ) : Instant := .ofNanos w.clock

/-- Adds an entry to the log. -/
def note (level : Log.Level) (message : String) (fields : List Log.Field) : Action (World σ) Unit :=
  .update fun w => { w with log := w.log ++ [⟨level, message, fields⟩] }

/-- Runs an action on the store. -/
def onStore (x : Action σ α) : Action (World σ) α :=
  x.onPart World.store fun s w => { w with store := s }

/-- Gives a transaction up and logs what went wrong with undoing it. -/
def release [Repository σ τ] (tx : τ) : Action (World σ) Unit :=
  .update fun w =>
    let r := Repository.release (w.store, tx)
    { w with store := r.2, log := w.log ++ r.1 }

/-- Runs an action in a transaction, which it returns. -/
def within (tx : τ) (x : Action (σ × τ) α) : Action (World σ) (Except Failure α × τ) :=
  .ofState fun w =>
    let r := x (w.store, tx)
    ((r.1, r.2.2), { w with store := r.2.1 })

/-- Runs a body in a transaction of its own, committed if the body succeeds and undone if it
fails. -/
def transact [Repository σ τ] (body : Action (σ × τ) α) : Action (World σ) α := do
  let tx ← onStore Repository.begin
  let (result, tx) ← within tx do
    let a ← body
    Repository.commit
    return a
  release tx
  .ofExcept result

end World

end Timetable
