import Timetable.CommandLine.Program

/-!
# The operator's program

An operator names a configuration and gives an `Order`. `Order.ofArguments` reads the order, or
says what is wrong with it; `Order.perform` carries it out and answers with lines of text.
-/

namespace Timetable.CommandLine

/-- What an operator wants done. -/
inductive Order
  | createDeployment (name flowId : String)
  | listDeployments (offset : UInt64) (limit : Option UInt64)
  | deleteDeployment (id : String)
  | addSchedule (deploymentId : String) (intervalSeconds : UInt64) (anchor : Option Instant)
      (parameters : String)
  | listSchedules (deploymentId : String)
  | scheduleRuns (deploymentId : String) (maxRuns : Option UInt64)
  | listRuns (deploymentId : String)
deriving DecidableEq, Repr

/-- What can be wrong with an order. -/
inductive Misuse
  /-- There is no such order, or something is missing from it. -/
  | unknown
  | notACount (what text : String)
  | invalidAnchor (text : String)
  | notAnObject (text : String)
  | zeroInterval
deriving DecidableEq, Repr

namespace Misuse

/-- How orders are given. -/
def usage : String := lines [
  "Usage:",
  "  flowschedctl <config.yaml> deployment create <name> <flow_id>",
  "  flowschedctl <config.yaml> deployment list [offset] [limit]",
  "  flowschedctl <config.yaml> deployment delete <id>",
  "  flowschedctl <config.yaml> schedule add <deployment_id> <interval_seconds> " ++
    "[anchor_rfc3339] [parameters_json]",
  "  flowschedctl <config.yaml> schedule list <deployment_id>",
  "  flowschedctl <config.yaml> schedule-runs <deployment_id> [max_runs]",
  "  flowschedctl <config.yaml> runs <deployment_id>"]

/-- The words for a misuse. One that is not about a part of an order is answered with the usage. -/
def complaint? : Misuse → Option String
  | unknown => none
  | notACount what text => some (what ++ " must be a non-negative integer: " ++ text)
  | invalidAnchor text => some ("invalid anchor time: " ++ text)
  | notAnObject text => some ("parameters must be a JSON object: " ++ text)
  | zeroInterval => some "interval_seconds must be positive"

/-- The report of a misuse. -/
def report (m : Misuse) (log : List Log.Entry) : Report :=
  match m.complaint? with
  | none => ⟨1, usage, "", log⟩
  | some text => ⟨1, "", lines [text], log⟩

end Misuse

/-! ### Reading orders -/

/-- Reads a count. -/
def count (what text : String) : Except Misuse UInt64 :=
  match Numeral.parse? Numeral.largest text with
  | some n => .ok n
  | none => .error (.notACount what text)

/-- Reads a count that need not be given. -/
def count? (what : String) : Option String → Except Misuse (Option UInt64)
  | none => .ok none
  | some text => (count what text).map some

/-- Reads the anchor of a schedule, which need not be given. -/
def anchor? : Option String → Except Misuse (Option Instant)
  | none => .ok none
  | some text =>
    match Rfc3339.parse? text with
    | some t => .ok (some t)
    | none => .error (.invalidAnchor text)

/-- Reads the parameters of a schedule; none are given by an empty object. -/
def parameters (isObject : String → Bool) : Option String → Except Misuse String
  | none => .ok "\x7b\x7d"
  | some text => if isObject text then .ok text else .error (.notAnObject text)

namespace Order

/-- Reads an order from a command and what is said about it; more may be said than is needed. -/
def ofArguments (isObject : String → Bool) : List String → Except Misuse Order
  | "deployment" :: "create" :: name :: flowId :: _ => .ok (createDeployment name flowId)
  | "deployment" :: "list" :: rest => do
    let offset ← count? "offset" rest[0]?
    let limit ← count? "limit" rest[1]?
    return listDeployments (offset.getD 0) limit
  | "deployment" :: "delete" :: id :: _ => .ok (deleteDeployment id)
  | "schedule" :: "add" :: deploymentId :: interval :: rest => do
    let interval ← count "interval_seconds" interval
    let anchor ← anchor? rest[0]?
    let parameters ← parameters isObject rest[1]?
    if interval = 0 then
      .error .zeroInterval
    else
      return addSchedule deploymentId interval anchor parameters
  | "schedule" :: "list" :: deploymentId :: _ => .ok (listSchedules deploymentId)
  | "schedule-runs" :: deploymentId :: rest => do
    return scheduleRuns deploymentId (← count? "max_runs" rest[0]?)
  | "runs" :: deploymentId :: _ => .ok (listRuns deploymentId)
  | _ => .error .unknown

/-! ### Answers -/

/-- The line about a deployment. -/
def deploymentLine (d : Deployment) : String := d.id ++ " name=" ++ d.name ++ " flow=" ++ d.flowId

/-- The line about a schedule. -/
def scheduleLine (s : Schedule) : String :=
  s.id ++ " every=" ++ toString s.intervalSeconds.toNat ++ "s anchor=" ++ Rfc3339.print s.anchor ++
    " parameters=" ++ s.parameters

/-- The line about a run. -/
def runLine (r : FlowRun) : String :=
  r.id ++ " key=\"" ++ r.idempotencyKey ++ "\" schedule=" ++ r.scheduleId ++ " state=" ++
    r.stateId.getD "-"

/-! ### Carrying orders out -/

/-- A fresh id. -/
def freshId (seed : UInt32) : String := (Uuid.fresh (.ofSeed seed.toUInt64)).1.toString

/-- Carries an order out and answers with lines. -/
def perform [Repository σ τ] (seed : UInt32) (strategy : LinkStrategy) :
    Order → Action (World σ) (List String)
  | createDeployment name flowId => do
    let now := (← Action.read).now
    let d : Deployment := ⟨freshId seed, name, flowId, now.toWord⟩
    World.transact (demand "create deployment" (Repository.insertDeployment d))
    return [d.id]
  | listDeployments offset limit => do
    return (← World.transact (Repository.listDeployments offset limit)).map deploymentLine
  | deleteDeployment id => do
    World.transact (demand "delete deployment" (Repository.deleteDeployment id))
    return ["deleted"]
  | addSchedule deploymentId intervalSeconds anchor parameters => do
    let now := (← Action.read).now
    let s : Schedule :=
      ⟨freshId seed, deploymentId, intervalSeconds, anchor.getD now, parameters, now.toWord⟩
    World.transact (demand "add schedule" (Repository.insertSchedule s))
    return [s.id]
  | listSchedules deploymentId => do
    return (← World.transact (Repository.listSchedules deploymentId)).map scheduleLine
  | scheduleRuns deploymentId maxRuns => do
    let created ← Timetable.scheduleRuns strategy ⟨deploymentId, none, none, maxRuns⟩
    return created.map runLine ++ ["created=" ++ toString created.length]
  | listRuns deploymentId => do
    return (← World.transact (Repository.listRuns deploymentId)).map runLine

end Order

/-! ### The program -/

/-- The log entry about a command that failed. -/
def commandFailed (command : String) (e : Failure) : Log.Entry :=
  ⟨.error, "flowschedctl failed", [.text "command" command, .text "error" e.text]⟩

/-- The operator's program. The configuration is read and the store opened before the order is
looked at. -/
def runOperator (s : Surroundings) (args : List String) : Report × Disk :=
  match arguments args with
  | path :: command :: rest =>
    let job : Job (Except Misuse (List String)) := fun _ setup =>
      match Order.ofArguments s.isObject (command :: rest) with
      | .error m => return .error m
      | .ok order => do
        let answer ← order.perform s.seed setup.strategy
        return .ok answer
    let done := s.operate path job
    match done.result with
    | .ok (.ok answer) => (⟨0, lines answer, "", done.log⟩, done.disk)
    | .ok (.error m) => (m.report done.log, done.disk)
    | .error e => (⟨2, "", lines [e.text], done.log ++ [commandFailed command e]⟩, done.disk)
  | _ => (Misuse.report .unknown [], s.disk)

end Timetable.CommandLine
