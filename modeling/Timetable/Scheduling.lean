import Timetable.Materialize
import Timetable.Occurrence

/-!
# Scheduling one deployment, and all of them

`scheduleRuns` generates the candidates of a request and stores them in one transaction; it
returns the runs that this call made. `sweep` does so for every deployment, page by page, and
counts the deployments that fail instead of stopping at them.
-/

namespace Timetable

open World

/-- Generates and stores the occurrences that a request asks for, in one transaction. -/
def scheduleRuns [Repository σ τ] (strategy : LinkStrategy) (r : Request) :
    Action (World σ) (List FlowRun) := do
  let now := (← Action.read).now
  let (candidates, created) ← transact do
    let candidates ← r.generate now
    let created ← materialize strategy candidates
    return (candidates.length, created)
  note .info "scheduled runs"
    [.text "deployment_id" r.deploymentId, .number "candidates" candidates,
      .number "created" created.length]
  return created

/-- How a sweep goes about its work. -/
structure SweepOptions where
  /-- How many deployments a transaction reads. -/
  pageSize : UInt64
  maxRuns : Option UInt64
  /-- The length of the window in milliseconds; a year, if nothing is said. -/
  horizon : Option Int
deriving DecidableEq, Repr

/-- How many deployments a transaction of a sweep reads if nothing is said. -/
def SweepOptions.defaultPageSize : UInt64 := 100

/-- The page size that a sweep works with; zero stands for the usual one. -/
def SweepOptions.effectivePageSize (o : SweepOptions) : UInt64 :=
  if o.pageSize = 0 then defaultPageSize else o.pageSize

/-- The request that a sweep makes for a deployment. -/
def SweepOptions.request (o : SweepOptions) (now : Instant) (deploymentId : String) : Request where
  deploymentId
  start := o.horizon.map fun _ => now
  finish := o.horizon.map now.addMillis
  maxRuns := o.maxRuns

/-- What a sweep has done. -/
structure Tally where
  deployments : Nat
  failures : Nat
  runsCreated : Nat
deriving DecidableEq, Repr

/-- Schedules one deployment and counts it. -/
def sweepDeployment [Repository σ τ] (strategy : LinkStrategy) (o : SweepOptions) (now : Instant)
    (t : Tally) (d : Deployment) : Action (World σ) Tally := do
  match ← (scheduleRuns strategy (o.request now d.id)).attempt with
  | .ok runs =>
    return { t with deployments := t.deployments + 1, runsCreated := t.runsCreated + runs.length }
  | .error e =>
    note .error "scheduling deployment failed"
      [.text "deployment_id" d.id, .text "error" e.text]
    return { t with deployments := t.deployments + 1, failures := t.failures + 1 }

/-- Schedules the deployments from a place on, page by page, up to the first page that is not full
and through no more than a number of pages. -/
def sweepPages [Repository σ τ] (strategy : LinkStrategy) (o : SweepOptions) (now : Instant) :
    Nat → UInt64 → Tally → Action (World σ) Tally
  | 0, _, t => return t
  | pages + 1, offset, t => do
    let page ← transact (Repository.listDeployments offset (some o.effectivePageSize))
    let t ← page.foldlM (sweepDeployment strategy o now) t
    if page.length < o.effectivePageSize.toNat then
      return t
    else
      sweepPages strategy o now pages (offset + UInt64.ofNat page.length) t

/-- Schedules every deployment. -/
def sweep [Repository σ τ] (strategy : LinkStrategy) (o : SweepOptions) :
    Action (World σ) Tally := do
  let w ← Action.read
  let t ← sweepPages strategy o w.now (Repository.pageBound w.store) 0 ⟨0, 0, 0⟩
  note .info "schedule sweep finished"
    [.number "deployments" t.deployments, .number "failures" t.failures,
      .number "runs_created" t.runsCreated]
  return t

/-! ### A periodic sweep -/

/-- Something that sweeps now and then while it runs. -/
structure Worker where
  options : SweepOptions
  /-- The milliseconds between two sweeps. -/
  interval : Int
  running : Bool
  /-- How many sweeps it has made. -/
  completed : Nat
deriving DecidableEq, Repr

namespace Worker

/-- The milliseconds between two sweeps if nothing is said. -/
def defaultInterval : Int := 60000

/-- A worker that does not run yet. An interval that is not positive stands for the usual one. -/
def idle (interval : Int) (options : SweepOptions) : Worker :=
  ⟨options, if 0 < interval then interval else defaultInterval, false, 0⟩

/-- Starts a worker, which sweeps at once; one that runs already goes on. -/
def start [Repository σ τ] (strategy : LinkStrategy) (k : Worker) : Action (World σ) Worker := do
  if k.running then
    return k
  note .info "schedule worker started" [.number "loop_interval_ms" k.interval]
  match ← (sweep strategy k.options).attempt with
  | .ok _ => pure ()
  | .error e => note .error "schedule sweep failed" [.text "error" e.text]
  return { k with running := true, completed := k.completed + 1 }

/-- Stops a worker that runs. -/
def stop (k : Worker) : Action (World σ) Worker := do
  if k.running then
    note .info "schedule worker stopped" []
  return { k with running := false }

end Worker

end Timetable
