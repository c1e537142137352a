import Timetable.Application

/-!
# Driving an application by hand

A `Session` is an application with at most one transaction object, and the candidates that were
generated last. Work on records uses the open transaction; with none open it runs in a transaction
of its own. An ended transaction stays until it is dropped or another is begun, and work can be
sent through it as `stale` work.
-/

namespace Timetable

/-- Why a session does not do what it is told. -/
inductive Objection
  | transactionOpen
  | noTransaction
  | noOpenTransaction
  | noWorker
  | noPeer
  | noRepository
  | onlyConnectionHeld
  | moreThanPoolHolds
  | nothingToWaitFor
deriving DecidableEq, Repr

/-- The words for an objection. -/
def Objection.message : Objection → String
  | transactionOpen => "a transaction is open"
  | noTransaction => "no transaction"
  | noOpenTransaction => "no open transaction"
  | noWorker => "no worker"
  | noPeer => "no peer"
  | noRepository => "no repository"
  | onlyConnectionHeld => "the transaction holds the only connection"
  | moreThanPoolHolds => "more than the pool holds"
  | nothingToWaitFor => "nothing to wait for"

/-- Why a command has no answer: it was refused, or it failed. -/
inductive Problem
  | objection (o : Objection)
  | failure (f : Failure)
deriving DecidableEq, Repr

/-! ### Commands -/

/-- What work is about: things that are given, or some or all of the candidates generated last. -/
inductive Selection (α : Type)
  | given (items : List α)
  | picked (places : Option (List Nat))

/-- The things that a selection means, where `item` is the thing of a candidate. -/
def Selection.resolve (candidates : List Candidate) (item : Candidate → α) : Selection α → List α
  | given items => items
  | picked none => candidates.map item
  | picked (some places) => (places.filterMap fun i => candidates[i]?).map item

/-- Work on records, in a transaction. -/
inductive Work
  | insertDeployment (d : Deployment)
  | findDeployment (id : String)
  | listDeployments (offset : UInt64) (limit : Option UInt64)
  | deleteDeployment (id : String)
  | insertSchedule (s : Schedule)
  | listSchedules (deploymentId : String)
  | deleteSchedule (id : String)
  | insertRuns (runs : Selection FlowRun)
  | statelessRunIds (ids : Selection String)
  | insertStates (states : Selection RunState)
  | linkStates (strategy : Option LinkStrategy) (ids : Selection String)
  | findRun (id : String)
  | listRuns (deploymentId : String)
  | listStates (runId : String)
  | generate (request : Request)
  | materialize (strategy : Option LinkStrategy) (candidates : Selection Candidate)
  /-- Counts the runs of each deployment, and those that are in their only state. -/
  | check
  /-- Lists everything. -/
  | dump
  /-- Something that cannot be done, which shows only once there is a transaction to do it in. -/
  | unknown (name : String)

/-- What to do with a worker. -/
inductive WorkerStep
  | start
  | stop
deriving DecidableEq, Repr

/-- A command to a session. -/
inductive Command
  | begin
  | commit
  | rollback
  | isCommitted
  | drop
  | setClock (clock : Int)
  | schedule (request : Request)
  | sweep (options : SweepOptions)
  /-- Drives the application's worker, or one made for the purpose. -/
  | drive (made : Option Worker) (steps : List WorkerStep)
  | work (stale : Bool) (work : Work)

/-! ### Answers -/

/-- How many runs a deployment has, and how many of them are in their only state. -/
structure Count where
  deploymentId : String
  runs : Nat
  linked : Nat
deriving DecidableEq, Repr

/-- A run with its states. -/
structure RunListing where
  run : FlowRun
  states : List RunState
deriving DecidableEq, Repr

/-- A deployment with all that belongs to it. -/
structure Listing where
  deployment : Deployment
  schedules : List Schedule
  runs : List RunListing
deriving DecidableEq, Repr

/-- The answer to a command. -/
inductive Answer
  | nothing
  | flag (b : Bool)
  | outcome (o : Outcome)
  | found (o : Outcome) (ids : List String)
  | deployment (d : Option Deployment)
  | deployments (ds : List Deployment)
  | schedules (ss : List Schedule)
  | run (r : Option FlowRun)
  | runs (rs : List FlowRun)
  | states (ss : List RunState)
  | candidates (cs : List Candidate)
  | tally (t : Tally)
  | sweeps (completed : List Nat)
  | counts (cs : List Count)
  | listings (ls : List Listing)

/-! ### Work -/

/-- A run with its states. -/
def RunListing.read [Repository σ τ] (r : FlowRun) : Action (σ × τ) RunListing := do
  return ⟨r, ← Repository.listStates r.id⟩

/-- Whether a run is in its only state. -/
def RunListing.isLinked (l : RunListing) : Bool :=
  match l.states with
  | [s] => l.run.stateId == some s.id
  | _ => false

/-- Counts the runs of a deployment. -/
def Count.read [Repository σ τ] (d : Deployment) : Action (σ × τ) Count := do
  let runs ← (← Repository.listRuns d.id).mapM RunListing.read
  return ⟨d.id, runs.length, (runs.filter RunListing.isLinked).length⟩

/-- Lists a deployment with all that belongs to it. -/
def Listing.read [Repository σ τ] (d : Deployment) : Action (σ × τ) Listing := do
  let runs ← (← Repository.listRuns d.id).mapM RunListing.read
  let schedules ← Repository.listSchedules d.id
  return ⟨d, schedules, runs⟩

/-- Does work in a transaction. `now` is the time, `usual` the strategy where none is given, and
`last` are the candidates generated last. -/
def Work.perform [Repository σ τ] (now : Instant) (usual : LinkStrategy) (last : List Candidate) :
    Work → Action (σ × τ) Answer
  | insertDeployment d => return .outcome (← Repository.insertDeployment d)
  | findDeployment id => return .deployment (← Repository.findDeployment id)
  | listDeployments offset limit => return .deployments (← Repository.listDeployments offset limit)
  | deleteDeployment id => return .outcome (← Repository.deleteDeployment id)
  | insertSchedule s => return .outcome (← Repository.insertSchedule s)
  | listSchedules id => return .schedules (← Repository.listSchedules id)
  | deleteSchedule id => return .outcome (← Repository.deleteSchedule id)
  | insertRuns runs => return .outcome (← Repository.insertRuns (runs.resolve last Candidate.run))
  | statelessRunIds ids => do
    let (outcome, ids) ← Repository.statelessRunIds (ids.resolve last fun c => c.run.id)
    return .found outcome ids
  | insertStates states =>
    return .outcome (← Repository.insertStates (states.resolve last Candidate.state))
  | linkStates strategy ids => do
    let ids := ids.resolve last fun c => c.state.id
    return .outcome (← Repository.linkStates (strategy.getD usual) ids)
  | findRun id => return .run (← Repository.findRun id)
  | listRuns id => return .runs (← Repository.listRuns id)
  | listStates id => return .states (← Repository.listStates id)
  | generate request => return .candidates (← request.generate now)
  | materialize strategy candidates =>
    return .runs (← Timetable.materialize (strategy.getD usual) (candidates.resolve last id))
  | check => do
    return .counts (← (← Repository.listDeployments 0 none).mapM Count.read)
  | dump => do
    return .listings (← (← Repository.listDeployments 0 none).mapM Listing.read)
  | unknown name => .fail (.unknownWork name)

/-! ### Sessions -/

/-- A transaction object, and whether it is still open. -/
structure Handle (τ : Type) where
  transaction : τ
  isOpen : Bool

/-- An application that is driven by hand. -/
structure Session (σ τ : Type) where
  world : World σ
  strategy : LinkStrategy
  worker : Option Worker
  handle : Option (Handle τ)
  /-- The candidates generated last. -/
  last : List Candidate

namespace Session

/-- The session of an application that nobody has driven yet. -/
def ofApplication (a : Application σ) : Session σ τ :=
  ⟨a.world, a.setup.strategy, a.setup.worker, none, []⟩

/-- Whether a transaction is open. -/
def isOpen (s : Session σ τ) : Bool := s.handle.any Handle.isOpen

/-- The log of a session, which is emptied. -/
def takeLog (s : Session σ τ) : List Log.Entry × Session σ τ :=
  (s.world.log, { s with world := { s.world with log := [] } })

/-- What a command leads to. -/
abbrev Result (σ τ : Type) := Except Problem Answer × Session σ τ

/-- Refuses a command. -/
def object (o : Objection) (s : Session σ τ) : Result σ τ := (.error (.objection o), s)

/-- Runs an action on the world of a session. -/
def onWorld (x : Action (World σ) α) (answer : α → Answer) (s : Session σ τ) : Result σ τ :=
  let (r, world) := x s.world
  ((r.mapError .failure).map answer, { s with world })

variable [Repository σ τ]

/-- Gives the transaction object up. -/
def drop (s : Session σ τ) : Session σ τ :=
  match s.handle with
  | none => s
  | some h => { s with world := (World.release h.transaction s.world).2, handle := none }

/-- Begins a transaction in place of one that has ended. -/
def begin (s : Session σ τ) : Result σ τ :=
  let s := s.drop
  match World.onStore Repository.begin s.world with
  | (.ok tx, world) => (.ok .nothing, { s with world, handle := some ⟨tx, true⟩ })
  | (.error e, world) => (.error (.failure e), { s with world })

/-- Runs an action in a transaction object. -/
def within (h : Handle τ) (x : Action (σ × τ) α) (s : Session σ τ) :
    Except Failure α × Session σ τ :=
  let (r, store, transaction) := x (s.world.store, h.transaction)
  (r, { s with world := { s.world with store }, handle := some { h with transaction } })

/-- Ends the transaction, by committing it or rolling it back, and tells whether it is committed.
One that cannot be ended stays open. -/
def finish (x : Action (σ × τ) Unit) (h : Handle τ) (s : Session σ τ) : Result σ τ :=
  match s.within h x with
  | (.error e, s) => (.error (.failure e), s)
  | (.ok (), s) =>
    let handle := s.handle.map fun h => { h with isOpen := false }
    (.ok (.flag (handle.any fun h => Repository.isCommitted σ h.transaction)), { s with handle })

/-- Keeps candidates that were generated. -/
def remember (r : Except Failure Answer) (s : Session σ τ) : Result σ τ :=
  match r with
  | .ok (.candidates cs) => (.ok (.candidates cs), { s with last := cs })
  | .ok a => (.ok a, s)
  | .error e => (.error (.failure e), s)

/-- Does work in the open transaction, in the ended one if it is stale, or else in one of its own.
-/
def perform (stale : Bool) (w : Work) (s : Session σ τ) : Result σ τ :=
  let body : Action (σ × τ) Answer := w.perform s.world.now s.strategy s.last
  match s.handle with
  | some h =>
    if h.isOpen || stale then
      let (r, s) := s.within h body
      remember r s
    else
      let (r, world) := World.transact body s.world
      remember r { s with world }
  | none =>
    if stale then s.object .noTransaction
    else
      let (r, world) := World.transact body s.world
      remember r { s with world }

/-- Takes a worker through some steps. Every stop, and a last one, tells how many sweeps it has
made. -/
def driveWorker (strategy : LinkStrategy) : Worker → List WorkerStep → List Nat →
    Action (World σ) (List Nat × Worker)
  | k, [], counts => do
    let k ← k.stop
    return (counts ++ [k.completed], k)
  | k, .start :: steps, counts => do
    driveWorker strategy (← k.start strategy) steps counts
  | k, .stop :: steps, counts => do
    let k ← k.stop
    driveWorker strategy k steps (counts ++ [k.completed])

/-- Drives a worker that was made for the purpose, or the session's own. -/
def drive (made : Option Worker) (steps : List WorkerStep) (s : Session σ τ) : Result σ τ :=
  match made, s.worker with
  | some k, _ => s.onWorld (driveWorker s.strategy k steps []) fun r => .sweeps r.1
  | none, some k =>
    match driveWorker s.strategy k steps [] s.world with
    | (.ok (counts, k), world) => (.ok (.sweeps counts), { s with world, worker := some k })
    | (.error e, world) => (.error (.failure e), { s with world })
  | none, none => s.object .noWorker

/-- Carries out a command. -/
def execute (c : Command) (s : Session σ τ) : Result σ τ :=
  match c with
  | .begin => if s.isOpen then s.object .transactionOpen else s.begin
  | .commit =>
    match s.handle with
    | some h => s.finish Repository.commit h
    | none => s.object .noTransaction
  | .rollback =>
    match s.handle with
    | some h => s.finish Repository.rollback h
    | none => s.object .noTransaction
  | .isCommitted =>
    match s.handle with
    | some h => (.ok (.flag (Repository.isCommitted σ h.transaction)), s)
    | none => s.object .noTransaction
  | .drop => (.ok .nothing, s.drop)
  | .setClock clock => (.ok .nothing, { s with world := { s.world with clock } })
  | .schedule request =>
    if s.isOpen then s.object .transactionOpen
    else s.onWorld (scheduleRuns s.strategy request) .runs
  | .sweep options =>
    if s.isOpen then s.object .transactionOpen
    else s.onWorld (Timetable.sweep s.strategy options) .tally
  | .drive made steps =>
    if s.isOpen then s.object .transactionOpen else s.drive made steps
  | .work stale work => s.perform stale work

end Session

/-! ### A second client of the database file -/

/-- What a second client of the database file does. -/
inductive PeerStep
  | lock
  | unlock
  /-- Drops the table that is named between the words `DROP TABLE` and a semicolon. -/
  | drop (table : String)
  | create

/-- A step of a second client. -/
def PeerStep.action : PeerStep → Action Relational.Database Unit
  | lock => Relational.Database.otherBegin
  | unlock => Relational.Database.otherRollback
  | drop table => Relational.Database.otherExecute ("DROP TABLE " ++ table ++ ";")
  | create => Relational.Database.otherCreate

end Timetable
