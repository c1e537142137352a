import Timetable.Record
import Timetable.Server.Exchange
import Timetable.Sql.Listing

/-!
# Statements for a server

The fixed statements are prepared once for each connection (`preparedStatements`) and called by
name. Statements about lists of records or ids are written for each call: `insertRuns`,
`insertStates`, `statelessRunIds` and `linkStates` make the text, with a placeholder for each
value, and give the values in the same order. A `RowFormat` says how records become rows.
-/

namespace Timetable.Server

/-- A number as a parameter. -/
def Parameter.number (n : Int) : Option String := some (toString n)

/-- An unsigned word as a parameter: the signed word with the same bits. -/
def Parameter.word (n : UInt64) : Option String := Parameter.number n.toInt64.toInt

/-- A truth value as a parameter. -/
def Parameter.flag (b : Bool) : Option String := some (if b then "true" else "false")

/-- A statement with the values of its placeholders. -/
structure Query where
  sql : String
  parameters : List (Option String)
deriving DecidableEq, Repr

namespace Query

/-! ### Fixed statements -/

/-- The columns of a run, with documents as texts. -/
def runColumns : String :=
  "id,flow_id,deployment_id,parameters::text,idempotency_key,tags::text,schedule_id," ++
    "auto_scheduled,state_id,created_at_ms"

/-- The names and texts of the statements that every connection prepares. -/
def preparedStatements : List (String × String) :=
  [ ("insert_deployment",
      "INSERT INTO deployment(id,name,flow_id,created_at_ms) VALUES($1,$2,$3,$4)"),
    ("get_deployment", "SELECT id,name,flow_id,created_at_ms FROM deployment WHERE id=$1"),
    ("delete_deployment", "DELETE FROM deployment WHERE id=$1"),
    ("insert_schedule",
      "INSERT INTO deployment_schedule(id,deployment_id,interval_seconds,anchor_ms,parameters," ++
        "created_at_ms) VALUES($1,$2,$3,$4,$5::jsonb,$6)"),
    ("list_schedules",
      "SELECT id,deployment_id,interval_seconds,anchor_ms,parameters::text,created_at_ms FROM " ++
        "deployment_schedule WHERE deployment_id=$1 ORDER BY created_at_ms ASC, id ASC"),
    ("delete_schedule", "DELETE FROM deployment_schedule WHERE id=$1"),
    ("get_flow_run", "SELECT " ++ runColumns ++ " FROM flow_run WHERE id=$1"),
    ("list_flow_runs",
      "SELECT " ++ runColumns ++
        " FROM flow_run WHERE deployment_id=$1 ORDER BY created_at_ms ASC, id ASC"),
    ("list_flow_run_states",
      "SELECT id,flow_run_id,type,message,state_details::text,created_at_ms FROM flow_run_state " ++
        "WHERE flow_run_id=$1 ORDER BY created_at_ms ASC, id ASC") ]

/-- The deployments in the order of their ids, from a place on and up to a number of them. -/
def listDeployments (offset : UInt64) (limit : Option UInt64) : Query where
  sql := "SELECT id,name,flow_id,created_at_ms FROM deployment ORDER BY id ASC LIMIT $1 OFFSET $2;"
  parameters := [limit.bind Parameter.word, Parameter.word offset]

/-! ### Rows to insert -/

/-- The placeholder of a value, with the type that the server is to read it as. -/
def castPlaceholder (number : UInt64) (cast : String) : String :=
  Sql.placeholder .dollar number ++ cast

/-- The numbers of the placeholders of each of some rows, with the types of the columns. -/
def rowPlaceholders (casts : List String) (rows : Nat) : List (List (UInt64 × String)) :=
  (List.range rows).map fun i =>
    (Sql.parameterNumbers casts.length (UInt64.ofNat (i * casts.length + 1))).zip casts

/-- The placeholders of some rows of values. -/
def valuesList (casts : List String) (rows : Nat) : String :=
  ",".intercalate ((rowPlaceholders casts rows).map fun row =>
    "(" ++ ",".intercalate (row.map fun (n, cast) => castPlaceholder n cast) ++ ")")

/-- How records become rows of a table. -/
structure RowFormat (α : Type) where
  table : String
  columns : List String
  /-- The types as which the server is to read the columns, or nothing. -/
  casts : List String
  /-- The values of a record, column by column. -/
  values : α → List (Option String)
  /-- What the statement ends with. -/
  ending : String

/-- Inserts records. -/
def insert (f : RowFormat α) (as : List α) : Query where
  sql := "INSERT INTO " ++ f.table ++ "(" ++ ",".intercalate f.columns ++ ") VALUES " ++
    valuesList f.casts as.length ++ f.ending
  parameters := as.flatMap f.values

/-- Runs as rows. Those whose key or id is taken are left out. -/
def runFormat : RowFormat FlowRun where
  table := "flow_run"
  columns := ["id", "flow_id", "deployment_id", "parameters", "idempotency_key", "tags",
    "schedule_id", "auto_scheduled", "state_id", "created_at_ms"]
  casts := ["", "", "", "::jsonb", "", "::jsonb", "", "", "", ""]
  values r := [some r.id, some r.flowId, some r.deploymentId, some r.parameters,
    some r.idempotencyKey, some r.tags, some r.scheduleId, Parameter.flag r.autoScheduled,
    r.stateId, Parameter.word r.createdAt]
  ending := " ON CONFLICT DO NOTHING;"

/-- States as rows. -/
def stateFormat : RowFormat RunState where
  table := "flow_run_state"
  columns := ["id", "flow_run_id", "type", "message", "state_details", "created_at_ms"]
  casts := ["", "", "", "", "::jsonb", ""]
  values s := [some s.id, some s.runId, Parameter.number s.kind, some s.message, some s.details,
    Parameter.word s.createdAt]
  ending := ";"

/-- Inserts runs, except those whose key or id is taken. -/
def insertRuns (rs : List FlowRun) : Query := insert runFormat rs

/-- Inserts states. -/
def insertStates (ss : List RunState) : Query := insert stateFormat ss

/-! ### Lists of ids -/

/-- A statement about some ids. Where the list of ids stands twice, both lists have the same
placeholders. -/
def aboutIds (listing : Sql.Listing) (ids : List String) : Query where
  sql := listing.text .dollar ids.length
  parameters := ids.map some

/-- Those of some runs that have no state. -/
def statelessRunIds (ids : List String) : Query := aboutIds .statelessRuns ids

/-- Points the owners of some states at them. -/
def linkStates (strategy : LinkStrategy) (ids : List String) : Query :=
  aboutIds (.links strategy) ids

end Query

/-! ### Records in rows -/

/-- The deployment in a row. -/
def Row.deployment (r : Row) : Deployment := ⟨r.text 0, r.text 1, r.text 2, r.word 3⟩

/-- The schedule in a row. -/
def Row.schedule (r : Row) : Schedule :=
  ⟨r.text 0, r.text 1, r.word 2, ⟨r.number 3⟩, r.text 4, r.word 5⟩

/-- The run in a row. -/
def Row.run (r : Row) : FlowRun :=
  ⟨r.text 0, r.text 1, r.text 2, r.text 3, r.text 4, r.text 5, r.text 6, r.flag 7, r.text? 8,
    r.word 9⟩

/-- The state in a row. -/
def Row.state (r : Row) : RunState :=
  ⟨r.text 0, r.text 1, r.number 2, r.text 3, r.text 4, r.word 5⟩

end Timetable.Server
