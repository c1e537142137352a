import Timetable.LinkStrategy
import Timetable.Record
import Timetable.Relational.Fault
import Timetable.Text

/-!
# Rows of the relational store

`Relational.Tables` lists the rows of the four tables in the order in which they were inserted, or
knows that a table does not exist. Each statement tests its constraints in the engine's order: the
condition on a row, then unique columns, then the reference to another table. A statement that is
refused changes nothing.
-/

namespace Timetable.Relational

/-- The four tables. -/
inductive TableName
  | deployment
  | schedule
  | run
  | state
deriving DecidableEq, Repr

/-- The name of a table in statements. -/
def TableName.text : TableName → String
  | deployment => "deployment"
  | schedule => "deployment_schedule"
  | run => "flow_run"
  | state => "flow_run_state"

/-- The table with a name, in upper or lower case. -/
def TableName.ofText? (s : String) : Option TableName :=
  [deployment, schedule, run, state].find? (·.text = s.toLower)

/-- The rows of each table that exists, oldest first. -/
structure Tables where
  deployments : Option (List Deployment)
  schedules : Option (List Schedule)
  runs : Option (List FlowRun)
  states : Option (List RunState)
deriving DecidableEq, Repr

/-- A count as the engine orders it: a signed word. -/
def signed (n : UInt64) : Int := n.toInt64.toInt

/-- Whether one row was made before another, by signed time and then by id. -/
def earlier (createdAt : α → UInt64) (id : α → String) (a b : α) : Bool :=
  signed (createdAt a) < signed (createdAt b) ||
    (createdAt a == createdAt b && id a ≤ id b)

namespace Tables

/-- No tables at all. -/
def none : Tables := ⟨.none, .none, .none, .none⟩

/-- The tables that exist. -/
def names (t : Tables) : List TableName :=
  (if t.deployments.isSome then [.deployment] else []) ++
    (if t.schedules.isSome then [.schedule] else []) ++
    (if t.runs.isSome then [.run] else []) ++
    (if t.states.isSome then [.state] else [])

/-- Adds the tables that are missing, without rows. -/
def create (t : Tables) : Tables :=
  ⟨some (t.deployments.getD []), some (t.schedules.getD []), some (t.runs.getD []),
    some (t.states.getD [])⟩

/-- All four tables, without rows. -/
def empty : Tables := none.create

/-- The rows of the tables, where a table that does not exist has none. -/
def deploymentRows (t : Tables) : List Deployment := t.deployments.getD []
@[inherit_doc deploymentRows]
def scheduleRows (t : Tables) : List Schedule := t.schedules.getD []
@[inherit_doc deploymentRows]
def runRows (t : Tables) : List FlowRun := t.runs.getD []
@[inherit_doc deploymentRows]
def stateRows (t : Tables) : List RunState := t.states.getD []

/-! ### Deployments -/

/-- Inserts a deployment with a new name and a new id. -/
def insertDeployment (d : Deployment) (t : Tables) : Except Fault Tables :=
  let rows := t.deploymentRows
  if rows.any (·.name == d.name) then .error (.uniqueViolated "deployment.name")
  else if rows.any (·.id == d.id) then .error (.uniqueViolated "deployment.id")
  else .ok { t with deployments := some (rows ++ [d]) }

/-- The deployments in the order of their ids. A negative limit is none, a negative offset is
zero. -/
def listDeployments (offset : UInt64) (limit : Option UInt64) (t : Tables) : List Deployment :=
  let rest := (t.deploymentRows.mergeSort (·.id ≤ ·.id)).drop (signed offset).toNat
  match limit with
  | some n => if signed n < 0 then rest else rest.take n.toNat
  | .none => rest

/-- Deletes the deployment with an id and its schedules; counts the deployments deleted. -/
def deleteDeployment (id : String) (t : Tables) : Nat × Tables :=
  let kept := t.deploymentRows.filter (·.id ≠ id)
  (t.deploymentRows.length - kept.length,
    { t with
      deployments := some kept
      schedules := t.schedules.map fun rows =>
        if t.deploymentRows.any (·.id == id) then rows.filter (·.deploymentId ≠ id) else rows })

/-! ### Schedules -/

/-- Inserts a schedule with a positive interval and a new id, of a deployment that exists. -/
def insertSchedule (s : Schedule) (t : Tables) : Except Fault Tables :=
  let rows := t.scheduleRows
  if signed s.intervalSeconds ≤ 0 then .error (.checkViolated "interval_seconds > 0")
  else if rows.any (·.id == s.id) then .error (.uniqueViolated "deployment_schedule.id")
  else if !t.deploymentRows.any (·.id == s.deploymentId) then .error .foreignKeyViolated
  else .ok { t with schedules := some (rows ++ [s]) }

/-- The schedules of a deployment, oldest first. -/
def listSchedules (deploymentId : String) (t : Tables) : List Schedule :=
  (t.scheduleRows.filter (·.deploymentId == deploymentId)).mergeSort
    (earlier Schedule.createdAt Schedule.id)

/-- Deletes the schedule with an id; counts the schedules deleted. -/
def deleteSchedule (id : String) (t : Tables) : Nat × Tables :=
  let kept := t.scheduleRows.filter (·.id ≠ id)
  (t.scheduleRows.length - kept.length, { t with schedules := some kept })

/-! ### Runs -/

/-- Inserts a run with a new id, unless a run has its key. -/
def insertRun (r : FlowRun) (t : Tables) : Except Fault Tables :=
  let rows := t.runRows
  if rows.any (·.key == r.key) then .ok t
  else if rows.any (·.id == r.id) then .error (.uniqueViolated "flow_run.id")
  else .ok { t with runs := some (rows ++ [r]) }

/-- Those of the given ids that belong to runs without states, each once. -/
def statelessRunIds (ids : List String) (t : Tables) : List String :=
  (t.runRows.filter fun r => r.id ∈ ids ∧ !t.stateRows.any (·.runId == r.id)).map FlowRun.id

/-- The run with an id. -/
def findRun (id : String) (t : Tables) : Option FlowRun := t.runRows.find? (·.id == id)

/-- The runs of a deployment, oldest first. -/
def listRuns (deploymentId : String) (t : Tables) : List FlowRun :=
  (t.runRows.filter (·.deploymentId == deploymentId)).mergeSort
    (earlier FlowRun.createdAt FlowRun.id)

/-! ### States -/

/-- Inserts a state with a new id, of a run that exists. -/
def insertState (s : RunState) (t : Tables) : Except Fault Tables :=
  let rows := t.stateRows
  if rows.any (·.id == s.id) then .error (.uniqueViolated "flow_run_state.id")
  else if !t.runRows.any (·.id == s.runId) then .error .foreignKeyViolated
  else .ok { t with states := some (rows ++ [s]) }

/-- The states of a run, oldest first. -/
def listStates (runId : String) (t : Tables) : List RunState :=
  (t.stateRows.filter (·.runId == runId)).mergeSort (earlier RunState.createdAt RunState.id)

/-! ### Links -/

/-- Which state a run is pointed at, of the listed states that it owns, given oldest first. With
`updateJoin` it is the one with the greatest id, since states are visited in the order of their
ids and a later one replaces an earlier one. With `correlatedSubquery` it is the first one
visited: up to three listed ids are looked up in the order of the ids, more are found by going
through the states of the run, oldest first. -/
def chosenState (strategy : LinkStrategy) (listed : Nat) (owned : List String) : Option String :=
  match strategy with
  | .updateJoin => (owned.mergeSort (· ≤ ·)).getLast?
  | .correlatedSubquery =>
    if listed ≤ 3 then (owned.mergeSort (· ≤ ·)).head? else owned.head?

/-- Points every owner of one of the listed states at such a state. -/
def linkStates (strategy : LinkStrategy) (ids : List String) (t : Tables) : Tables :=
  let states := t.stateRows.filter fun s => s.id ∈ ids
  { t with runs := some (t.runRows.map fun r =>
      match chosenState strategy ids.length ((states.filter (·.runId == r.id)).map RunState.id) with
      | some id => { r with stateId := some id }
      | .none => r) }

/-- Points every owner of one of some states at one of others, or at none if it owns none of
them. -/
def correlate (listed ofOwners : List String) (t : Tables) : Tables :=
  let states := t.stateRows.filter fun s => s.id ∈ listed
  let owners := (t.stateRows.filter fun s => s.id ∈ ofOwners).map RunState.runId
  { t with runs := some (t.runRows.map fun r =>
      if r.id ∈ owners then
        { r with
          stateId := chosenState .correlatedSubquery listed.length
            ((states.filter (·.runId == r.id)).map RunState.id) }
      else r) }

/-! ### Dropping a table -/

/-- Drops a table. Rows that refer to its rows are deleted with them. -/
def drop (name : TableName) (t : Tables) : Tables :=
  match name with
  | .deployment =>
    { t with
      deployments := .none
      schedules := t.schedules.map (·.filter fun s =>
        !t.deploymentRows.any (·.id == s.deploymentId)) }
  | .schedule => { t with schedules := .none }
  | .run =>
    { t with
      runs := .none
      states := t.states.map (·.filter fun s => !t.runRows.any (·.id == s.runId)) }
  | .state => { t with states := .none }

end Tables

end Timetable.Relational
