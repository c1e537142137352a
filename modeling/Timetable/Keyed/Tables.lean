import Timetable.LinkStrategy
import Timetable.Outcome
import Timetable.Record

/-!
# Stored records under their keys

`Keyed.Tables` keeps every kind of record under its id, and beside them three indexes: the names
of the deployments, the keys of the runs, and the states of each run in the order in which they
came. The operations refuse whatever would make an index and its table disagree. A batch that is
refused keeps the rows before the one that was refused.
-/

namespace Timetable.Keyed

/-- The stored records and their indexes. -/
structure Tables where
  deployments : OrderedMap String Deployment
  names : OrderedMap String Unit
  schedules : OrderedMap String Schedule
  runs : OrderedMap String FlowRun
  runKeys : OrderedMap RunKey Unit
  states : OrderedMap String RunState
  /-- The ids of the states of each run, oldest first. -/
  statesByRun : OrderedMap String (List String)

/-- Whether one record was made before another; of two made at the same time, the one with the
smaller id comes first. -/
def earlier (createdAt : α → UInt64) (id : α → String) (a b : α) : Bool :=
  createdAt a < createdAt b || (createdAt a == createdAt b && id a ≤ id b)

/-- Goes through records, of which some have been skipped and some listed: skips records up to the
offset and lists the others up to the limit. -/
def excerpt (offset : UInt64) (limit : Option UInt64) (skipped : UInt64) (listed : Nat) :
    List α → List α
  | [] => []
  | a :: as =>
    if skipped < offset then excerpt offset limit (skipped + 1) listed as
    else if limit.any (·.toNat ≤ listed) then []
    else a :: excerpt offset limit skipped (listed + 1) as

/-- What is still to be skipped is dropped, and of the rest is taken what may still be listed. -/
theorem excerpt_eq {offset skipped : UInt64} (h : skipped ≤ offset) (limit : Option UInt64)
    (listed : Nat) (as : List α) : excerpt offset limit skipped listed as =
      match limit with
      | some n => (as.drop (offset.toNat - skipped.toNat)).take (n.toNat - listed)
      | none => as.drop (offset.toNat - skipped.toNat) := by
  induction as generalizing skipped listed with
  | nil => cases limit <;> simp [excerpt]
  | cons a as ih =>
    have hle : skipped.toNat ≤ offset.toNat := UInt64.le_iff_toNat_le.1 h
    rw [excerpt]
    split
    · next hskip =>
      have hlt : skipped.toNat < offset.toNat := UInt64.lt_iff_toNat_lt.1 hskip
      have hnext : (skipped + 1).toNat = skipped.toNat + 1 := by
        have hoffset := offset.toNat_lt
        rw [UInt64.toNat_add, UInt64.toNat_one]
        omega
      have hdrop : (a :: as).drop (offset.toNat - skipped.toNat) =
          as.drop (offset.toNat - (skipped + 1).toNat) := by
        rw [show offset.toNat - skipped.toNat = offset.toNat - (skipped + 1).toNat + 1 by omega,
          List.drop_succ_cons]
      rw [ih (UInt64.le_iff_toNat_le.2 (by omega)), hdrop]
    · next hskip =>
      have heq : offset.toNat - skipped.toNat = 0 := by
        have hge := mt UInt64.lt_iff_toNat_lt.2 hskip
        omega
      cases limit with
      | none =>
        rw [if_neg (by simp), ih h, heq]
        rfl
      | some n =>
        by_cases hfull : n.toNat ≤ listed
        · rw [if_pos (by simpa using hfull)]
          simp [Nat.sub_eq_zero_of_le hfull]
        · have hroom : n.toNat - listed = n.toNat - (listed + 1) + 1 := by omega
          rw [if_neg (by simpa using hfull), ih h, heq]
          simp only [List.drop_zero, hroom, List.take_succ_cons]

namespace Tables

/-- No records. -/
def empty : Tables := ⟨.empty, .empty, .empty, .empty, .empty, .empty, .empty⟩

instance : Inhabited Tables := ⟨empty⟩

/-! ### Deployments -/

/-- Adds a deployment under a new id and a new name. -/
def insertDeployment (t : Tables) (d : Deployment) : Except Refusal Tables :=
  if t.deployments.contains d.id then .error (.deploymentTaken d.id)
  else if t.names.contains d.name then .error (.deploymentNameTaken d.name)
  else .ok { t with
    deployments := t.deployments.insert d.id d
    names := t.names.insert d.name () }

/-- The deployments in the order of their ids, from a place on and up to a number of them. -/
def listDeployments (t : Tables) (offset : UInt64) (limit : Option UInt64) : List Deployment :=
  excerpt offset limit 0 0 t.deployments.values

theorem listDeployments_eq (t : Tables) (offset : UInt64) (limit : Option UInt64) :
    t.listDeployments offset limit =
      match limit with
      | some n => (t.deployments.values.drop offset.toNat).take n.toNat
      | none => t.deployments.values.drop offset.toNat :=
  excerpt_eq (UInt64.le_iff_toNat_le.2 (Nat.zero_le _)) limit 0 t.deployments.values

/-- Removes a deployment with its name and its schedules. -/
def deleteDeployment (t : Tables) (id : String) : Except Refusal Tables :=
  match t.deployments.get? id with
  | none => .error (.noDeployment id)
  | some d => .ok { t with
    deployments := t.deployments.erase id
    names := t.names.erase d.name
    schedules := t.schedules.filter fun _ s => s.deploymentId ≠ id }

/-! ### Schedules -/

/-- Adds a schedule of a stored deployment under a new id. -/
def insertSchedule (t : Tables) (s : Schedule) : Except Refusal Tables :=
  if !t.deployments.contains s.deploymentId then .error (.noDeployment s.deploymentId)
  else if t.schedules.contains s.id then .error (.scheduleTaken s.id)
  else if s.intervalSeconds = 0 then .error .intervalNotPositive
  else .ok { t with schedules := t.schedules.insert s.id s }

/-- The schedules of a deployment, oldest first. -/
def listSchedules (t : Tables) (deploymentId : String) : List Schedule :=
  (t.schedules.values.filter (·.deploymentId == deploymentId)).mergeSort
    (earlier Schedule.createdAt Schedule.id)

/-- Removes a schedule. -/
def deleteSchedule (t : Tables) (id : String) : Except Refusal Tables :=
  if t.schedules.contains id then .ok { t with schedules := t.schedules.erase id }
  else .error (.noSchedule id)

/-! ### Runs -/

/-- Adds a run under a new id, unless there is a run with its key. -/
def insertRun (t : Tables) (r : FlowRun) : Except Refusal Tables :=
  if t.runKeys.contains r.key then .ok t
  else if t.runs.contains r.id then .error (.runTaken r.id)
  else .ok { t with
    runs := t.runs.insert r.id r
    runKeys := t.runKeys.insert r.key () }

/-- Adds runs one by one, up to the first that is refused. -/
def insertRuns (t : Tables) : List FlowRun → Outcome × Tables
  | [] => (.ok (), t)
  | r :: rs =>
    match t.insertRun r with
    | .ok t => t.insertRuns rs
    | .error e => (.error e, t)

/-- The ids of the states of a run, oldest first. -/
def stateIds (t : Tables) (runId : String) : List String :=
  (t.statesByRun.get? runId).getD []

/-- Whether an id belongs to a stored run without states. -/
def isStateless (t : Tables) (runId : String) : Bool :=
  t.runs.contains runId && (t.stateIds runId).isEmpty

/-- Those of the given ids that belong to stored runs without states. -/
def statelessRunIds (t : Tables) (ids : List String) : List String := ids.filter t.isStateless

/-- The runs of a deployment, oldest first. -/
def listRuns (t : Tables) (deploymentId : String) : List FlowRun :=
  (t.runs.values.filter (·.deploymentId == deploymentId)).mergeSort
    (earlier FlowRun.createdAt FlowRun.id)

/-! ### States -/

/-- Adds a state of a stored run under a new id. -/
def insertState (t : Tables) (s : RunState) : Except Refusal Tables :=
  if !t.runs.contains s.runId then .error (.noRun s.runId)
  else if t.states.contains s.id then .error (.stateTaken s.id)
  else .ok { t with
    states := t.states.insert s.id s
    statesByRun := t.statesByRun.insert s.runId (t.stateIds s.runId ++ [s.id]) }

/-- Adds states one by one, up to the first that is refused. -/
def insertStates (t : Tables) : List RunState → Outcome × Tables
  | [] => (.ok (), t)
  | s :: ss =>
    match t.insertState s with
    | .ok t => t.insertStates ss
    | .error e => (.error e, t)

/-- The states of a run, oldest first. -/
def listStates (t : Tables) (runId : String) : List RunState :=
  ((t.stateIds runId).filterMap t.states.get?).mergeSort (earlier RunState.createdAt RunState.id)

/-! ### Links -/

/-- Sets the state that a stored run is in. -/
def setState (t : Tables) (runId : String) (stateId : Option String) : Tables :=
  { t with runs := t.runs.modify runId fun r => { r with stateId } }

/-- Points the owner of a state at it. -/
def linkOwner (t : Tables) (stateId : String) : Tables :=
  match t.states.get? stateId with
  | some s => t.setState s.runId (some stateId)
  | none => t

/-- The runs that own one of the given states, in the order of their ids. -/
def owners (t : Tables) (stateIds : List String) : List String :=
  (stateIds.foldl
    (fun (m : OrderedMap String Unit) id =>
      match t.states.get? id with
      | some s => m.insert s.runId ()
      | none => m)
    .empty).keys

/-- Points a run at its first state among the given ones. -/
def linkRun (stateIds : List String) (t : Tables) (runId : String) : Tables :=
  t.setState runId ((t.stateIds runId).find? (· ∈ stateIds))

/-- Points every owner of one of the given states at such a state: with `updateJoin` at the last
that is given, with `correlatedSubquery` at the oldest of them. -/
def linkStates (t : Tables) (strategy : LinkStrategy) (stateIds : List String) : Tables :=
  match strategy with
  | .updateJoin => stateIds.foldl linkOwner t
  | .correlatedSubquery => (t.owners stateIds).foldl (linkRun stateIds) t

end Tables

end Timetable.Keyed
