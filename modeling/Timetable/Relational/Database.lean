import Timetable.Relational.Engine
import Timetable.Relational.EngineTable
import Timetable.Relational.IdStatement
import Timetable.Relational.Row
import Timetable.Repository
import Timetable.Sql.Batch

/-!
# The relational store

A `Database` is a file with two clients of one engine: the program's own, which all its
transactions share, and one outside the program. A transaction is a note of how far it has got; its
statements go to the shared client, also after it has ended, when they take effect at once. The
program starts a transaction only when no other of its transactions holds the lock.

Records are kept as they are read: their texts end at the first U+0000 once they have been bound to
a statement. What is refused is named by the text as it was given.
-/

namespace Timetable.Relational

open Text (untilNul)

/-- A file, the clients connected to it, the lock among the program's transactions, and the version
of the engine. -/
structure Database where
  file : File
  own : Client
  other : Client
  locked : Bool
  version : Version
deriving DecidableEq, Repr

/-- How far a transaction has got, and whether it holds the lock. -/
structure Transaction where
  committed : Bool
  finished : Bool
  holdsLock : Bool
deriving DecidableEq, Repr

namespace Database

/-- Opens a file and makes the tables that are missing. -/
def connect (version : Version) (file : File) : Database :=
  ⟨{ file with tables := file.tables.create }, .fresh, .fresh, false, version⟩

/-! ### Transactions -/

/-- Starts a transaction. -/
def begin : Action Database Transaction := fun db =>
  if db.locked then (.error .waiting, db)
  else
    match db.own.begin db.other.pending.isSome db.file with
    | .error fault => (.error (.engine fault), db)
    | .ok own => (.ok ⟨false, false, true⟩, { db with own, locked := true })

/-- Gives the lock back. -/
def unlock : Action (Database × Transaction) Unit := fun (db, tx) =>
  if tx.holdsLock then (.ok (), { db with locked := false }, { tx with holdsLock := false })
  else (.error .lockNotHeld, db, tx)

/-- Commits what the client has pending. A transaction that cannot be committed is not finished. -/
def commit : Action (Database × Transaction) Unit := fun (db, tx) =>
  match db.own.commit db.file with
  | (.error fault, file, own) => (.error (.engine fault), { db with file, own }, tx)
  | (.ok (), file, own) =>
    unlock ({ db with file, own }, { tx with committed := true, finished := true })

/-- Undoes what the client has pending. A transaction is finished even if that fails. -/
def rollback : Action (Database × Transaction) Unit := fun (db, tx) =>
  match db.own.rollback with
  | .error fault => (.error (.engine fault), db, { tx with finished := true })
  | .ok own => unlock ({ db with own }, { tx with finished := true })

/-- Gives a transaction up: undoes it unless it is finished, and gives the lock back. -/
def release (s : Database × Transaction) : List Log.Entry × Database :=
  let (db, tx) := s
  let freed := { db with locked := db.locked && !tx.holdsLock }
  if tx.finished then ([], freed)
  else
    match db.own.rollback with
    | .error fault =>
      ([⟨.warning, "sqlite rollback failed", [.text "error" (Failure.engine fault).text]⟩], freed)
    | .ok own => ([], { freed with own })

/-! ### Statements -/

/-- Carries out a statement of the program. -/
def execute (s : Statement α) : Action (Database × Transaction) (Except (Stage × Fault) α) :=
  .ofState fun (db, tx) =>
    let (r, file, own) := db.own.execute s db.other.pending.isSome db.file
    (r, { db with file, own }, tx)

/-- Reads rows, or fails. -/
def read (s : Statement α) : Action (Database × Transaction) α := do
  match ← execute s with
  | .ok a => return a
  | .error (.preparing, fault) => .fail (.preparing fault)
  | .error (.running, fault) => .fail (.engine fault)

/-- Reads rows of some tables, or fails. -/
def query (uses : List TableName) (f : Tables → α) : Action (Database × Transaction) α :=
  read (.query uses f)

/-- Inserts or changes rows, or refuses. -/
def change (uses refers : List TableName) (f : Tables → Except Fault Tables) :
    Action (Database × Transaction) Outcome := do
  match ← execute (.change uses refers f) with
  | .ok () => return .ok ()
  | .error (_, fault) => return .error fault.toRefusal

/-- Deletes rows, or refuses if there are none. -/
def delete (uses refers : List TableName) (f : Tables → Nat × Tables) (absent : Refusal) :
    Action (Database × Transaction) Outcome := do
  match ← execute (.delete uses refers f) with
  | .ok 0 => return .error absent
  | .ok (_ + 1) => return .ok ()
  | .error (_, fault) => return .error fault.toRefusal

/-- Carries out one change after the other, up to the first that is refused. -/
def changeEach (change : α → Action σ Outcome) : List α → Action σ Outcome
  | [] => return .ok ()
  | a :: as => do
    match ← change a with
    | .ok () => changeEach change as
    | .error e => return .error e

/-! ### Records as they are bound -/

/-- A deployment as it is read after it has been bound. -/
def bindDeployment : Deployment → Deployment := Layout.deployment.passed

/-- A schedule as it is read after it has been bound. -/
def bindSchedule : Schedule → Schedule := Layout.schedule.passed

/-- A run as it is read after it has been bound. -/
def bindRun : FlowRun → FlowRun := Layout.run.passed

/-- A state as it is read after it has been bound. -/
def bindState : RunState → RunState := Layout.state.passed

/-! ### Requests -/

/-- Inserts a schedule; without its deployment there is nothing that it could belong to. -/
def insertSchedule (s : Schedule) : Action (Database × Transaction) Outcome := do
  match ← execute (.change [.schedule] [.deployment] (Tables.insertSchedule (bindSchedule s))) with
  | .ok () => return .ok ()
  | .error (_, .foreignKeyViolated) => return .error (.noDeployment s.deploymentId)
  | .error (_, fault) => return .error fault.toRefusal

/-- Inserts a run unless there is one with its key. -/
def insertRun (r : FlowRun) : Action (Database × Transaction) Outcome :=
  change [.run] [] (Tables.insertRun (bindRun r))

/-- Inserts a state. -/
def insertState (s : RunState) : Action (Database × Transaction) Outcome :=
  change [.state] [.run] (Tables.insertState (bindState s))

/-- Collects the runs without states, batch by batch, up to the first batch that fails. -/
def statelessRunIds (found : List String) :
    List (List String) → Action (Database × Transaction) (Outcome × List String)
  | [] => return (.ok (), found)
  | ids :: rest => do
    match ← execute (.query [.run, .state] (IdStatement.statelessRuns ids).find) with
    | .ok more => statelessRunIds (found ++ more) rest
    | .error (_, fault) => return (.error fault.toRefusal, found)

/-- Points the owners of a batch of states at them. -/
def linkStates (strategy : LinkStrategy) (ids : List String) :
    Action (Database × Transaction) Outcome :=
  change [.run, .state] [] fun t => .ok ((IdStatement.links strategy ids).link strategy t)

/-- Points the owners of states at them, batch by batch. An engine without the statements for that
refuses before the first batch, even if there is none. -/
def linkBatches (strategy : LinkStrategy) (ids : List String) :
    Action (Database × Transaction) Outcome := fun s =>
  if s.1.version.knows strategy then (changeEach (linkStates strategy) (Sql.batches ids)).run s
  else (.ok (.error s.1.version.tooOld), s)

/-! ### The other client -/

/-- What the client outside the program sees. -/
def otherTables (db : Database) : Tables := db.other.pending.getD db.file.tables

/-- Whether the client outside the program cannot write. -/
def otherBlocked (db : Database) : Bool := db.other.pending.isNone && db.own.pending.isSome

/-- Makes the tables what the client outside the program leaves them as. -/
def setOtherTables (db : Database) (tables : Tables) : Database :=
  if db.other.pending.isSome then { db with other := { db.other with pending := some tables } }
  else { db with file := { db.file with tables } }

/-- The other client starts a transaction. -/
def otherBegin : Action Database Unit := fun db =>
  match db.other.begin db.own.pending.isSome db.file with
  | .error fault => (.error (.engine fault), db)
  | .ok other => (.ok (), { db with other })

/-- The other client undoes its transaction. -/
def otherRollback : Action Database Unit := fun db =>
  match db.other.rollback with
  | .error fault => (.error (.engine fault), db)
  | .ok other => (.ok (), { db with other })

/-- The table of the file that a path leads to, if there is one. -/
def fileTable? (p : Sql.TablePath) (t : Tables) : Option TableName :=
  if p.schema.all (·.toLower = "main") then
    (TableName.ofText? p.table).filter (· ∈ t.names)
  else none

/-- The other client drops a table of the file. -/
def otherDropTable (table : TableName) : Action Database Unit := fun db =>
  if db.otherBlocked then (.error (.engine .locked), db)
  else if db.file.damaged then
    (.error (.engine .malformed),
      { db with other := { db.other with spoiled := db.other.pending.isSome } })
  else (.ok (), db.setOtherTables (db.otherTables.drop table))

/-- The other client asks for a table, and gets to know it if it is one of settings. -/
def otherMeet (name : String) : Action Database Unit := fun db =>
  (.ok (), { db with other := { db.other with met := EngineTable.meet db.other.met name } })

/-- The other client asks to drop a table that is neither in the file nor in a list of tables. It
may be a computed one, whatever schema it is said to be in. -/
def otherDropMissing (d : Sql.Drop) : Action Database Unit := do
  let refused (fault : Fault) : Action Database Unit :=
    if d.ifExists then pure () else .fail (.engine fault)
  otherMeet d.path.table
  match EngineTable.find? (← Action.read).other.met d.path.table with
  | some (.table known) => .fail (.engine (.undroppable known))
  | some (.noArguments known) => refused (.noArguments known)
  | none => refused (.noSuchTable d.path.toString)

/-- The other client drops a table. The table is looked for even if the statement goes wrong behind
it. -/
def otherDrop (d : Sql.Drop) : Action Database Unit := do
  let db ← Action.read
  match d.excess, EngineTable.list? d.path, fileTable? d.path db.otherTables with
  | some token, _, _ =>
    otherMeet d.path.table
    .fail (.engine (.badStatement (.unexpected token)))
  | none, some list, _ => .fail (.engine (.undroppable list))
  | none, none, some table => otherDropTable table
  | none, none, none => otherDropMissing d

/-- The other client carries out statements, up to the first that fails. -/
def otherExecute (statements : String) : Action Database Unit :=
  (Sql.Drop.ofText (untilNul statements)).forM fun
    | .ok d => otherDrop d
    | .error fault => .fail (.engine (.badStatement fault))

/-- The other client makes the tables that are missing. -/
def otherCreate : Action Database Unit := fun db =>
  if db.otherTables.create = db.otherTables then (.ok (), db)
  else if db.otherBlocked then (.error (.engine .locked), db)
  else (.ok (), db.setOtherTables db.otherTables.create)

end Database

instance : Repository Database Transaction where
  dialect _ := "sqlite"
  begin := Database.begin
  commit := Database.commit
  rollback := Database.rollback
  isCommitted tx := tx.committed
  release := Database.release
  insertDeployment d :=
    Database.change [.deployment] [] (Tables.insertDeployment (Database.bindDeployment d))
  findDeployment id :=
    Database.query [.deployment] fun t => t.deploymentRows.find? (·.id == untilNul id)
  listDeployments offset limit :=
    Database.read (.queryUpTo limit [.deployment] (Tables.listDeployments offset limit))
  deleteDeployment id :=
    Database.delete [.deployment] [] (Tables.deleteDeployment (untilNul id)) (.noDeployment id)
  insertSchedule := Database.insertSchedule
  listSchedules id := Database.query [.schedule] (Tables.listSchedules (untilNul id))
  deleteSchedule id :=
    Database.delete [.schedule] [.deployment] (Tables.deleteSchedule (untilNul id)) (.noSchedule id)
  insertRuns := Database.changeEach Database.insertRun
  statelessRunIds ids := Database.statelessRunIds [] (Sql.batches ids)
  insertStates := Database.changeEach Database.insertState
  linkStates := Database.linkBatches
  findRun id := Database.query [.run] (Tables.findRun (untilNul id))
  listRuns id := Database.query [.run] (Tables.listRuns (untilNul id))
  listStates id := Database.query [.state] (Tables.listStates (untilNul id))
  pageBound db := db.file.tables.deploymentRows.length + 1

end Timetable.Relational
