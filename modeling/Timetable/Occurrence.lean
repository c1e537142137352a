import Timetable.Grid
import Timetable.Repository
import Timetable.Rfc3339
import Timetable.Uuid

/-!
# The occurrences of a deployment's schedules

Every instant of a schedule's grid is an occurrence, and every occurrence is a candidate for a
run. The key of that run is made from the schedule and the instant (`idempotencyKey`), its id from
the flow and the key (`runId`), and the id of its first state from the id of the run
(`initialStateId`). So the same occurrence is the same run whenever and however often it is
generated.
-/

namespace Timetable

namespace Occurrence

/-! ### Identities -/

/-- The key of an occurrence: its schedule and its instant. -/
def idempotencyKey (scheduleId : String) (t : Instant) : String :=
  "scheduled " ++ scheduleId ++ " " ++ Rfc3339.print t

/-- The text whose identifier is the id of a run. -/
def runName (flowId key : String) : String := "flow_run\n" ++ flowId ++ "\n" ++ key

/-- The text whose identifier is the id of a run's first state. -/
def initialStateName (runId : String) : String := "flow_run_state\n" ++ runId

/-- The id of the run of a flow with a key. -/
def runId (flowId key : String) : String := (Uuid.ofText (runName flowId key)).toString

/-- The id of the first state of a run. -/
def initialStateId (runId : String) : String := (Uuid.ofText (initialStateName runId)).toString

/-! ### Details -/

/-- The characters that a quoted text spells out, from the first to the last of each range: control
characters, the brackets of markup, and characters that nobody sees. -/
def spelledOut : List (Nat × Nat) :=
  [(0x00, 0x1f), (0x3c, 0x3c), (0x3e, 0x3e), (0x7f, 0x9f), (0xad, 0xad), (0x600, 0x603),
    (0x6dd, 0x6dd), (0x70f, 0x70f), (0x17b4, 0x17b5), (0x200b, 0x200f), (0x2028, 0x202e),
    (0x2060, 0x2064), (0x206a, 0x206f), (0xfeff, 0xfeff), (0xfff9, 0xfffb), (0x1d173, 0x1d17a),
    (0xe0001, 0xe0001), (0xe0020, 0xe007f)]

/-- Sixteen bits in four digits. -/
def spellUnit (n : Nat) : List Char :=
  "\\u".toList ++ Hex.byteDigits (UInt8.ofNat (n / 256)) ++ Hex.byteDigits (UInt8.ofNat n)

/-- A character in digits. One that does not fit in sixteen bits is a pair of surrogates. -/
def spell (c : Char) : List Char :=
  let n := c.toNat
  if n < 0x10000 then spellUnit n
  else spellUnit (0xd800 + (n - 0x10000) / 0x400) ++ spellUnit (0xdc00 + (n - 0x10000) % 0x400)

/-- A character of a quoted text. -/
def quoteChar (c : Char) : List Char :=
  if c = '"' then ['\\', '"']
  else if c = '\\' then ['\\', '\\']
  else if c = '\n' then ['\\', 'n']
  else if c = '\r' then ['\\', 'r']
  else if c = '\t' then ['\\', 't']
  else if c = '\x08' then ['\\', 'b']
  else if c = '\x0c' then ['\\', 'f']
  else if spelledOut.any fun r => r.1 ≤ c.toNat && c.toNat ≤ r.2 then spell c
  else [c]

/-- A text in quotes. -/
def quote (s : String) : String := String.ofList ('"' :: s.toList.flatMap quoteChar ++ ['"'])

/-- The first instant with a text in the details of a state: the start of the year 1. -/
def firstWritable : Instant := ⟨-62135596800000⟩

/-- The last instant with a text in the details of a state: the end of the year 9999. -/
def lastWritable : Instant := ⟨253402300799999⟩

/-- The details of a run's first state: its time, its schedule, and that it was made
automatically. -/
def details (scheduleId : String) (t : Instant) : Except Failure String :=
  match Rfc3339.printTimestamp? t.toTimestamp with
  | some time =>
    .ok ("\x7b" ++ ",".intercalate
      (["\"scheduledTime\":" ++ quote time] ++
        (if scheduleId = "" then [] else ["\"scheduleId\":" ++ quote scheduleId]) ++
        ["\"autoScheduled\":true"]) ++ "\x7d")
  | none => .error .unwritableTime

/-- The details can tell an instant of the years 1 to 9999, and no other. -/
theorem details_eq (scheduleId : String) (t : Instant) : details scheduleId t =
    if firstWritable ≤ t ∧ t ≤ lastWritable then
      .ok ("\x7b" ++ ",".intercalate
        (["\"scheduledTime\":" ++ quote (Rfc3339.printZulu t)] ++
          (if scheduleId = "" then [] else ["\"scheduleId\":" ++ quote scheduleId]) ++
          ["\"autoScheduled\":true"]) ++ "\x7d")
    else .error .unwritableTime := by
  have hrange : (Rfc3339.firstSecond ≤ t.millis / 1000 ∧ t.millis / 1000 ≤ Rfc3339.lastSecond) ↔
      (firstWritable ≤ t ∧ t ≤ lastWritable) := by
    show (_ ∧ _) ↔ ((-62135596800000 : Int) ≤ t.millis ∧ t.millis ≤ 253402300799999)
    unfold Rfc3339.firstSecond Rfc3339.lastSecond
    omega
  rw [details, Rfc3339.printTimestamp?_toTimestamp]
  by_cases h : firstWritable ≤ t ∧ t ≤ lastWritable
  · rw [if_pos (hrange.2 h), if_pos h]
  · rw [if_neg (mt hrange.1 h), if_neg h]

/-! ### Candidates -/

/-- The tags of a run that a schedule yields. -/
def tags : String := "[\"auto-scheduled\"]"

/-- The message of the state of a run that waits for its time. -/
def scheduledMessage : String := "Flow run scheduled"

/-- The candidate for the occurrence of a schedule at an instant. -/
def candidate (d : Deployment) (s : Schedule) (createdAt : UInt64) (t : Instant) :
    Except Failure Candidate := do
  let key := idempotencyKey s.id t
  let id := runId d.flowId key
  let details ← details s.id t
  return {
    run := {
      id, flowId := d.flowId, deploymentId := d.id, parameters := s.parameters
      idempotencyKey := key, tags, scheduleId := s.id, autoScheduled := true
      stateId := none, createdAt }
    state := {
      id := initialStateId id, runId := id, kind := RunState.scheduled
      message := scheduledMessage, details, createdAt }
    scheduledAt := t }

end Occurrence

/-- The longest interval of a schedule, in seconds: its milliseconds fill a signed word. -/
def Schedule.longestInterval : UInt64 := 9223372036854775

/-- The grid of a schedule. -/
def Schedule.grid (s : Schedule) : Except Failure Grid :=
  if h : 0 < s.intervalSeconds.toNat ∧ s.intervalSeconds ≤ longestInterval then
    .ok ⟨s.anchor, s.intervalSeconds.toNat * 1000, by omega⟩
  else .error (.invalidInterval s.id)

/-- The grid with an anchor and an interval in milliseconds. -/
def Grid.make (anchor : Instant) (interval : Int) : Except Failure Grid :=
  if h : 0 < interval then .ok ⟨anchor, interval, h⟩ else .error .intervalNotPositive

/-- Which occurrences of a deployment are asked for: from `start` to `finish`, and at most `maxRuns`
of each schedule. -/
structure Request where
  deploymentId : String
  start : Option Instant
  finish : Option Instant
  maxRuns : Option UInt64
deriving DecidableEq, Repr

namespace Request

/-- How many occurrences of a schedule are asked for if nothing is said. -/
def defaultMaxRuns : Nat := 100

/-- The first instant asked for: now, if nothing is said. -/
def windowStart (r : Request) (now : Instant) : Instant := r.start.getD now

/-- The last instant asked for: a year after the first, if nothing is said. -/
def windowEnd (r : Request) (now : Instant) : Instant :=
  r.finish.getD ((r.windowStart now).addYears 1)

/-- How many occurrences of each schedule are asked for. -/
def limit (r : Request) : Nat := (r.maxRuns.map UInt64.toNat).getD defaultMaxRuns

/-- The candidates of one schedule. -/
def ofSchedule (r : Request) (now : Instant) (d : Deployment) (s : Schedule) :
    Except Failure (List Candidate) := do
  let grid ← s.grid
  let dates := grid.dates r.limit (r.windowStart now) (r.windowEnd now)
  dates.mapM (Occurrence.candidate d s now.toWord)

/-- The candidates of a deployment's schedules, one schedule after the other. -/
def ofSchedules (r : Request) (now : Instant) (d : Deployment) (ss : List Schedule) :
    Except Failure (List Candidate) :=
  return (← ss.mapM (r.ofSchedule now d)).flatten

/-- The candidates that a request asks for; nothing is written. -/
def generate [Repository σ τ] (r : Request) (now : Instant) : Action (σ × τ) (List Candidate) := do
  match ← Repository.findDeployment r.deploymentId with
  | none => .fail (.deploymentNotFound r.deploymentId)
  | some d =>
    let ss ← Repository.listSchedules r.deploymentId
    .ofExcept (r.ofSchedules now d ss)

end Request

end Timetable
