import Timetable.Application

/-!
# Programs over an application

A program reads the configuration that is named to it, puts an application together, does its work
and leaves a `Report`. `Surroundings.operate` is what the programs have in common: it works on the
store that the configuration chooses and writes a database file back, whether or not the work
succeeds.
-/

namespace Timetable.CommandLine

/-- What a program leaves behind. -/
structure Report where
  exitCode : Nat
  /-- What it answers. -/
  output : String
  /-- What it complains about. -/
  complaint : String
  log : List Log.Entry
deriving DecidableEq, Repr

/-- What a program finds when it is started. -/
structure Surroundings where
  disk : Disk
  /-- The reading of the clock, in nanoseconds since the start of 1970, UTC. -/
  clock : Int
  /-- A number that nobody can foresee. -/
  seed : UInt32
  /-- The version of the engine for database files. -/
  engine : Relational.Version
  /-- What the reader of JSON takes for the text of an object. -/
  isObject : String → Bool
  /-- The document under a path. -/
  document : String → Config.Document

/-- Lines of text. -/
def lines (ls : List String) : String := String.join (ls.map (· ++ "\n"))

/-- The arguments of a program, each up to its first U+0000. -/
def arguments (args : List String) : List String := args.map Text.untilNul

/-- Work on an application over any store, under a configuration. -/
abbrev Job (α : Type) :=
  ∀ {σ τ : Type} [Repository σ τ], Config → Setup → Action (World σ) α

/-- Does a job on a store. -/
def Job.run [Repository σ τ] (job : Job α) (clock : Int) (c : Config) (store : σ) :
    Except Failure α × World σ :=
  match Application.build store clock c.scheduler with
  | .error e => (.error e, ⟨store, clock, []⟩)
  | .ok app => Action.run (job c app.setup) app.world

/-- What a job comes to, what was logged, and what stands on the disk afterwards. -/
structure Outcome (α : Type) where
  result : Except Failure α
  log : List Log.Entry
  disk : Disk

/-- Does a job on the store that the configuration under a path chooses. -/
def Surroundings.operate (s : Surroundings) (path : String) (job : Job α) : Outcome α :=
  match (Config.load .path (s.document path)).2 with
  | .error e => ⟨.error e, [], s.disk⟩
  | .ok c =>
    match Storage.open s.engine s.disk c.database with
    | .error e => ⟨.error e, [], s.disk⟩
    | .ok (.memory ledger) =>
      let (result, world) := Job.run job s.clock c ledger
      ⟨result, world.log, s.disk⟩
    | .ok (.file file database) =>
      let (result, world) := Job.run job s.clock c database
      ⟨result, world.log, s.disk.save file world.store.file⟩

end Timetable.CommandLine
