import Timetable.Relational.Tables

/-!
# Cells of a row

A statement names the columns of a table, and its parameters and results are told by their positions
among these names. A `Layout` says for one kind of record which columns are named, what is bound to
each parameter and what is made of each column of a result. A text is handed over as one that ends
at its first U+0000, in both directions, and a number of 64 bits without a sign passes through a
column of signed ones.
-/

namespace Timetable.Relational

open Text (untilNul)

/-- What stands in one column of a row. -/
inductive Cell
  | null
  | integer (n : Int)
  | text (s : String)
deriving DecidableEq, Repr

namespace Cell

/-- The cell that a text is bound to. -/
def ofText (s : String) : Cell := .text (untilNul s)

/-- The cell that a text is bound to which may be absent. -/
def ofText? (s : Option String) : Cell := (s.map ofText).getD .null

/-- The cell that a word without a sign is bound to. -/
def ofWord (n : UInt64) : Cell := .integer (signed n)

/-- The cell that a truth value is bound to. -/
def ofFlag (b : Bool) : Cell := .integer (if b then 1 else 0)

/-- A cell as a text. -/
def toText : Cell → String
  | null => ""
  | integer n => toString n
  | text s => untilNul s

/-- A cell as a text that may be absent. -/
def toText? : Cell → Option String
  | null => none
  | integer n => some (integer n).toText
  | text s => some (text s).toText

/-- A cell as a number. No statement asks for the number at the beginning of a text. -/
def toInt : Cell → Int
  | integer n => n
  | null | text _ => 0

/-- A cell as a word without a sign. -/
def toWord (c : Cell) : UInt64 := (Int64.ofInt c.toInt).toUInt64

/-- A cell as a truth value. -/
def toFlag (c : Cell) : Bool := c.toInt != 0

end Cell

/-- How records of a kind are bound to parameters and read from columns. -/
structure Layout (ρ : Type) where
  /-- The columns that an insertion names. -/
  inserted : List String
  /-- What is bound to the parameters, which stand for those columns. -/
  parameters : ρ → List Cell
  /-- The columns that a query names. -/
  selected : List String
  /-- The record that is made of those columns, which are told by their positions. -/
  record : (Nat → Cell) → ρ

namespace Layout

/-- The row that an insertion makes. -/
def row (l : Layout ρ) (r : ρ) : List (String × Cell) := l.inserted.zip (l.parameters r)

/-- The columns of a row that a query yields. -/
def columns (l : Layout ρ) (row : List (String × Cell)) (i : Nat) : Cell :=
  (l.selected[i]?.bind (List.lookup · row)).getD .null

/-- A record as it is read from the row that it has been bound to. -/
def passed (l : Layout ρ) (r : ρ) : ρ := l.record (l.columns (l.row r))

/-- The rows of deployments. -/
def deployment : Layout Deployment where
  inserted := ["id", "name", "flow_id", "created_at_ms"]
  parameters d := [.ofText d.id, .ofText d.name, .ofText d.flowId, .ofWord d.createdAt]
  selected := ["id", "name", "flow_id", "created_at_ms"]
  record c := {
    id := (c 0).toText, name := (c 1).toText, flowId := (c 2).toText, createdAt := (c 3).toWord }

/-- The rows of schedules. -/
def schedule : Layout Schedule where
  inserted :=
    ["id", "deployment_id", "interval_seconds", "anchor_ms", "parameters", "created_at_ms"]
  parameters s := [.ofText s.id, .ofText s.deploymentId, .ofWord s.intervalSeconds,
    .integer s.anchor.millis, .ofText s.parameters, .ofWord s.createdAt]
  selected :=
    ["id", "deployment_id", "interval_seconds", "anchor_ms", "parameters", "created_at_ms"]
  record c := {
    id := (c 0).toText, deploymentId := (c 1).toText, intervalSeconds := (c 2).toWord
    anchor := ⟨(c 3).toInt⟩, parameters := (c 4).toText, createdAt := (c 5).toWord }

/-- The rows of runs. -/
def run : Layout FlowRun where
  inserted :=
    ["id", "flow_id", "deployment_id", "parameters", "idempotency_key", "tags", "schedule_id",
      "auto_scheduled", "state_id", "created_at_ms"]
  parameters r := [.ofText r.id, .ofText r.flowId, .ofText r.deploymentId, .ofText r.parameters,
    .ofText r.idempotencyKey, .ofText r.tags, .ofText r.scheduleId, .ofFlag r.autoScheduled,
    .ofText? r.stateId, .ofWord r.createdAt]
  selected :=
    ["id", "flow_id", "deployment_id", "parameters", "idempotency_key", "tags", "schedule_id",
      "auto_scheduled", "state_id", "created_at_ms"]
  record c := {
    id := (c 0).toText, flowId := (c 1).toText, deploymentId := (c 2).toText
    parameters := (c 3).toText, idempotencyKey := (c 4).toText, tags := (c 5).toText
    scheduleId := (c 6).toText, autoScheduled := (c 7).toFlag, stateId := (c 8).toText?
    createdAt := (c 9).toWord }

/-- The rows of states. -/
def state : Layout RunState where
  inserted := ["id", "flow_run_id", "type", "message", "state_details", "created_at_ms"]
  parameters s := [.ofText s.id, .ofText s.runId, .integer s.kind, .ofText s.message,
    .ofText s.details, .ofWord s.createdAt]
  selected := ["id", "flow_run_id", "type", "message", "state_details", "created_at_ms"]
  record c := {
    id := (c 0).toText, runId := (c 1).toText, kind := (c 2).toInt, message := (c 3).toText
    details := (c 4).toText, createdAt := (c 5).toWord }

end Layout

end Timetable.Relational
