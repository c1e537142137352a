/-!
# The statements that make the tables

Both dialects have the same four tables and indexes; they differ in the types of some columns. Every
statement leaves alone what exists already. `migrate` hands statements to an executor in order,
up to the first that fails.
-/

namespace Timetable.Sql

/-- The languages in which statements are written. -/
inductive Dialect
  | sqlite
  | postgresql
deriving DecidableEq, Repr

/-- How a dialect writes the types of columns. -/
structure ColumnTypes where
  word : String
  json : String
  kind : String
  flag : String
  unset : String

/-- The column types of a dialect. -/
def Dialect.columnTypes : Dialect → ColumnTypes
  | .sqlite => ⟨"INTEGER", "TEXT", "INTEGER", "INTEGER", "0"⟩
  | .postgresql => ⟨"BIGINT", "JSONB", "SMALLINT", "BOOLEAN", "FALSE"⟩

/-- The statements that make the tables and their indexes. -/
def schema (d : Dialect) : List String :=
  let t := d.columnTypes
  [ "CREATE TABLE IF NOT EXISTS deployment (id TEXT PRIMARY KEY, name TEXT NOT NULL UNIQUE, " ++
      "flow_id TEXT NOT NULL, created_at_ms " ++ t.word ++ " NOT NULL);",
    "CREATE TABLE IF NOT EXISTS deployment_schedule (id TEXT PRIMARY KEY, " ++
      "deployment_id TEXT NOT NULL REFERENCES deployment(id) ON DELETE CASCADE, " ++
      "interval_seconds " ++ t.word ++ " NOT NULL CHECK (interval_seconds > 0), " ++
      "anchor_ms " ++ t.word ++ " NOT NULL, " ++
      "parameters " ++ t.json ++ " NOT NULL DEFAULT '\x7b\x7d', " ++
      "created_at_ms " ++ t.word ++ " NOT NULL);",
    "CREATE INDEX IF NOT EXISTS ix_deployment_schedule__deployment_id ON " ++
      "deployment_schedule(deployment_id);",
    "CREATE TABLE IF NOT EXISTS flow_run (id TEXT PRIMARY KEY, flow_id TEXT NOT NULL, " ++
      "deployment_id TEXT, parameters " ++ t.json ++ " NOT NULL DEFAULT '\x7b\x7d', " ++
      "idempotency_key TEXT, tags " ++ t.json ++ " NOT NULL DEFAULT '[]', schedule_id TEXT, " ++
      "auto_scheduled " ++ t.flag ++ " NOT NULL DEFAULT " ++ t.unset ++ ", state_id TEXT, " ++
      "created_at_ms " ++ t.word ++ " NOT NULL, " ++
      "CONSTRAINT uq_flow_run__flow_id_idempotency_key UNIQUE (flow_id, idempotency_key));",
    "CREATE INDEX IF NOT EXISTS ix_flow_run__deployment_id ON flow_run(deployment_id);",
    "CREATE TABLE IF NOT EXISTS flow_run_state (id TEXT PRIMARY KEY, flow_run_id TEXT NOT NULL " ++
      "REFERENCES flow_run(id) ON DELETE CASCADE, type " ++ t.kind ++ " NOT NULL, message TEXT, " ++
      "state_details " ++ t.json ++ " NOT NULL DEFAULT '\x7b\x7d', created_at_ms " ++ t.word ++
      " NOT NULL);",
    "CREATE INDEX IF NOT EXISTS ix_flow_run_state__flow_run_id ON flow_run_state(flow_run_id);" ]

/-- Hands statements to an executor in order. -/
def migrate [Monad m] (execute : String → m Unit) (statements : List String) : m Unit :=
  statements.forM execute

end Timetable.Sql
