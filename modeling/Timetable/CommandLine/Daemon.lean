import Timetable.CommandLine.Program

/-!
# The scheduling program

Under a configuration that asks for periodic scheduling, this program starts the worker and stops
it when it is told to shut down; otherwise it sweeps once.
-/

namespace Timetable.CommandLine

/-- How the scheduling program is called. -/
def daemonUsage : String := "Usage: flowsched <config.yaml> OR flowsched --config <config.yaml>"

/-- The path of the configuration among the arguments. -/
def configPath? : List String → Option String
  | [path] => some path
  | ["--config", path] => some path
  | _ => none

/-- Sweeps once, or periodically until the program is told to shut down, and returns the exit
code. -/
def schedulePeriodically [Repository σ τ] (path : String) (c : Config) (setup : Setup) :
    Action (World σ) Nat := do
  match setup.worker with
  | none =>
    World.note .info "Periodic scheduling disabled, running one sweep" []
    let t ← sweep setup.strategy (Config.sweepOptions c.scheduler)
    return if t.failures = 0 then 0 else 3
  | some worker =>
    let worker ← worker.start setup.strategy
    World.note .info "flowsched started" [.text "config" path]
    World.note .info "Shutting down flowsched" []
    let _ ← worker.stop
    return 0

/-- The log entry about a failure that ends the program. -/
def fatal (e : Failure) : Log.Entry := ⟨.error, "Fatal error", [.text "error" e.text]⟩

/-- The scheduling program, which is told to shut down after its first sweep. -/
def runDaemon (s : Surroundings) (args : List String) : Report × Disk :=
  match configPath? (arguments args) with
  | none => (⟨1, "", lines [daemonUsage], []⟩, s.disk)
  | some path =>
    let job : Job Nat := fun c setup => schedulePeriodically path c setup
    let done := s.operate path job
    match done.result with
    | .ok exitCode => (⟨exitCode, "", "", done.log⟩, done.disk)
    | .error e => (⟨2, "", "", done.log ++ [fatal e]⟩, done.disk)

end Timetable.CommandLine
