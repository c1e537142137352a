import Timetable.Repository
import Timetable.Server.Query
import Timetable.Sql.Batch
import Timetable.Sql.Schema

/-!
# A store on a server, and the pool of its connections

A `Pool` keeps connections that are not in use and hands out the one that came back last; it
connects anew only while fewer connections live than it may have. Every transaction has a
connection of its own from its start until it is given up, whether or not it has ended before. A
connection comes back to the pool as it is; once the pool is gone, it is closed instead.

A transaction that was neither committed nor rolled back without error is closed before its
connection comes back.
-/

namespace Timetable.Server

/-- Connections to a server, and what is said over them. -/
structure Pool where
  conninfo : String
  capacity : Nat
  /-- The connections not in use; the one that came back last is at the end. -/
  idle : List Connection
  /-- How many connections live or are being made. -/
  live : Nat
  /-- How many connections have ever been made. -/
  made : Nat
  /-- Whether the pool is gone. -/
  gone : Bool
  script : Script
  /-- What has been said, oldest first. -/
  events : List Event

/-- A transaction on a connection. -/
structure Transaction where
  connection : Connection
  /-- Whether the server knows how the transaction ended. -/
  settled : Bool
  committed : Bool
  finished : Bool
deriving DecidableEq, Repr

/-- A transaction that has just begun. -/
def Transaction.onConnection (c : Connection) : Transaction := ⟨c, false, false, false⟩

/-- What a pool has for whoever wants a connection. -/
inductive Offer
  | connection (c : Connection)
  /-- A place that is kept for a connection yet to be made. -/
  | place
  | nothing
deriving DecidableEq, Repr

namespace Pool

/-- A pool without connections; one that may have none may have one. -/
def create (conninfo : String) (capacity : Nat) : Pool :=
  ⟨conninfo, max 1 capacity, [], 0, 0, false, .silent, []⟩

/-- Says something. -/
def say (e : Event) (p : Pool) : Pool := { p with events := p.events ++ [e] }

/-! ### Connections -/

/-- Keeps a place for a connection that is being made. -/
def reserve (p : Pool) : Pool := { p with live := p.live + 1 }

/-- Frees the place of a connection that could not be made. -/
def giveUp (p : Pool) : Pool := { p with live := p.live - 1 }

/-- Takes a connection out of the pool, or keeps a place where there is room. -/
def offer (p : Pool) : Offer × Pool :=
  match p.idle.getLast? with
  | some c => (.connection c, { p with idle := p.idle.dropLast })
  | none => if p.live < p.capacity then (.place, p.reserve) else (.nothing, p)

/-- Prepares statements, up to the first that fails. -/
def prepare : List (String × String) → Action Pool Unit
  | [] => return ()
  | (name, sql) :: rest => fun p =>
    let (answer, script) := p.script.nextPrepare
    let p := { p with script }.say (.prepare name sql)
    match answer with
    | some fault => (.error (.server fault), p)
    | none => prepare rest p

/-- Makes the connection for which a place is kept, and prepares the fixed statements. If that
fails, the place is free again. -/
def connect : Action Pool Connection := fun p =>
  let (answer, script) := p.script.nextConnect
  let p := { p with script }.say (.connect p.conninfo)
  match answer with
  | some fault => (.error (.server fault), p.giveUp)
  | none =>
    let c := p.made + 1
    match prepare Query.preparedStatements ({ p with made := c }.say (.connected c)) with
    | (.ok (), p) => (.ok c, p)
    | (.error e, p) => (.error e, p.giveUp.say (.disconnect c))

/-- Takes a connection out of the pool, or makes one where there is room. -/
def acquire : Action Pool Connection := fun p =>
  match p.offer with
  | (.connection c, p) => (.ok c, p)
  | (.place, p) => connect p
  | (.nothing, p) => (.error .waiting, p)

/-- Puts a connection back into the pool, or closes it if the pool is gone. -/
def putBack (c : Connection) (p : Pool) : Pool :=
  if p.gone then p.say (.disconnect c) else { p with idle := p.idle ++ [c] }

/-- Closes the pool with the connections in it. -/
def close (p : Pool) : Pool :=
  p.idle.foldl (fun p c => p.say (.disconnect c)) { p with idle := [], gone := true }

/-! ### Transactions -/

/-- Starts a transaction. -/
def begin : Action Pool Transaction := do
  let c ← acquire
  .update (say (.begin c))
  return .onConnection c

/-- Commits a transaction, which is finished even if that fails. -/
def commit : Action (Pool × Transaction) Unit := fun (p, tx) =>
  let (answer, script) := p.script.nextCommit
  let p := { p with script }.say (.commit tx.connection)
  match answer with
  | some fault => (.error (.server fault), p, { tx with finished := true })
  | none => (.ok (), p, { tx with finished := true, settled := true, committed := true })

/-- Rolls a transaction back, which is finished even if that fails. -/
def rollback : Action (Pool × Transaction) Unit := fun (p, tx) =>
  let (answer, script) := p.script.nextAbort
  let p := { p with script }.say (.abort tx.connection)
  match answer with
  | some fault => (.error (.server fault), p, { tx with finished := true })
  | none => (.ok (), p, { tx with finished := true, settled := true })

/-- Closes a transaction that is not settled and puts its connection back. -/
def finish (p : Pool) (tx : Transaction) : Pool :=
  (if tx.settled then p else p.say (.close tx.connection)).putBack tx.connection

/-- Gives a transaction up: rolls it back unless it is finished, and puts its connection back. -/
def release (s : Pool × Transaction) : List Log.Entry × Pool :=
  if s.2.finished then ([], finish s.1 s.2)
  else
    match rollback s with
    | (.ok (), p, tx) => ([], finish p tx)
    | (.error e, p, tx) =>
      ([⟨.warning, "postgres rollback failed", [.text "error" e.text]⟩], finish p tx)

/-! ### Statements -/

/-- Sends a statement and takes the reply. -/
def send (e : Event) : Action (Pool × Transaction) (List Row × Nat) := fun (p, tx) =>
  let (reply, script) := p.script.nextReply
  let p := { p with script }.say e
  match reply with
  | .rows rows affected => (.ok (rows, affected), p, tx)
  | .fault f => (.error (.server f), p, tx)

/-- Sends a prepared statement. -/
def call (name : String) (parameters : List (Option String)) :
    Action (Pool × Transaction) (List Row × Nat) :=
  send (.prepared name parameters)

/-- Sends a statement that was written for this call. -/
def ask (q : Query) : Action (Pool × Transaction) (List Row × Nat) :=
  send (.statement q.sql q.parameters)

/-- Turns an error of the server into a refusal. -/
def refusing (x : Action σ Outcome) : Action σ Outcome := do
  match ← x.attempt with
  | .ok outcome => return outcome
  | .error (.server fault) => return .error fault.toRefusal
  | .error e => .fail e

/-- Sends a prepared statement that returns nothing. -/
def order (name : String) (parameters : List (Option String)) :
    Action (Pool × Transaction) Outcome :=
  refusing do
    let _ ← call name parameters
    return .ok ()

/-- Sends a prepared statement that deletes rows, and refuses if there are none. -/
def delete (name id : String) (absent : Refusal) : Action (Pool × Transaction) Outcome :=
  refusing do
    let (_, affected) ← call name [some id]
    return if affected = 0 then .error absent else .ok ()

/-- Inserts a schedule; without its deployment there is nothing that it could belong to. -/
def insertSchedule (s : Schedule) : Action (Pool × Transaction) Outcome := do
  let parameters := [some s.id, some s.deploymentId, Parameter.word s.intervalSeconds,
    Parameter.number s.anchor.millis, some s.parameters, Parameter.word s.createdAt]
  match ← (call "insert_schedule" parameters).attempt with
  | .ok _ => return .ok ()
  | .error (.server ⟨.foreignKeyViolation, _⟩) => return .error (.noDeployment s.deploymentId)
  | .error (.server fault) => return .error fault.toRefusal
  | .error e => .fail e

/-- Sends statements one after the other, up to the first that fails, and collects the rows. -/
def exchange (found : List Row) :
    List Query → Action (Pool × Transaction) (Outcome × List Row)
  | [] => return (.ok (), found)
  | q :: qs => do
    match ← (ask q).attempt with
    | .ok (rows, _) => exchange (found ++ rows) qs
    | .error (.server fault) => return (.error fault.toRefusal, found)
    | .error e => .fail e

/-- Sends statements that return nothing, up to the first that fails. -/
def askEach (qs : List Query) : Action (Pool × Transaction) Outcome := do
  let (outcome, _) ← exchange [] qs
  return outcome

/-- Collects the first cells of the rows of statements, up to the first that fails. -/
def collect (qs : List Query) : Action (Pool × Transaction) (Outcome × List String) := do
  let (outcome, rows) ← exchange [] qs
  return (outcome, rows.map (·.text 0))

/-- Makes the tables that are missing, in a transaction that is closed if a statement fails. -/
def bootstrap : Action Pool Unit := do
  let tx ← begin
  let (result, tx) ← Action.ofState fun p =>
    let body : Action (Pool × Transaction) Unit := do
      Sql.migrate (fun sql => do let _ ← send (.exec sql)) (Sql.schema .postgresql)
      commit
    let (r, p, tx) := body (p, tx)
    ((r, tx), p)
  .update fun p => finish p tx
  .ofExcept result

end Pool

instance : Repository Pool Transaction where
  dialect _ := "postgresql"
  begin := Pool.begin
  commit := Pool.commit
  rollback := Pool.rollback
  isCommitted tx := tx.committed
  release := Pool.release
  insertDeployment d :=
    Pool.order "insert_deployment"
      [some d.id, some d.name, some d.flowId, Parameter.word d.createdAt]
  findDeployment id := do
    let (rows, _) ← Pool.call "get_deployment" [some id]
    return rows.head?.map Row.deployment
  listDeployments offset limit := do
    let (rows, _) ← Pool.ask (.listDeployments offset limit)
    return rows.map Row.deployment
  deleteDeployment id := Pool.delete "delete_deployment" id (.noDeployment id)
  insertSchedule := Pool.insertSchedule
  listSchedules id := do
    let (rows, _) ← Pool.call "list_schedules" [some id]
    return rows.map Row.schedule
  deleteSchedule id := Pool.delete "delete_schedule" id (.noSchedule id)
  insertRuns rs := Pool.askEach ((Sql.batches rs).map Query.insertRuns)
  statelessRunIds ids := Pool.collect ((Sql.batches ids).map Query.statelessRunIds)
  insertStates ss := Pool.askEach ((Sql.batches ss).map Query.insertStates)
  linkStates strategy ids := Pool.askEach ((Sql.batches ids).map (Query.linkStates strategy))
  findRun id := do
    let (rows, _) ← Pool.call "get_flow_run" [some id]
    return rows.head?.map Row.run
  listRuns id := do
    let (rows, _) ← Pool.call "list_flow_runs" [some id]
    return rows.map Row.run
  listStates id := do
    let (rows, _) ← Pool.call "list_flow_run_states" [some id]
    return rows.map Row.state
  pageBound p := p.script.rowCount + 1

end Timetable.Server
