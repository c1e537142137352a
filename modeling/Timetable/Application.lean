import Timetable.Config
import Timetable.Disk
import Timetable.Keyed.Ledger
import Timetable.Relational.Database

/-!
# Putting an application together

A configuration chooses a store, the store's dialect and the configuration choose a link strategy,
and a worker is made if there are to be periodic sweeps. `Storage.open` looks for a database file
on a `Disk`.
-/

namespace Timetable

/-! ### Stores -/

/-- The stores that a configuration can choose. -/
inductive Storage
  | memory (ledger : Keyed.Ledger)
  | file (path : String) (database : Relational.Database)

/-- The store that a configuration chooses; nothing said, records are kept in memory. -/
def Storage.open (engine : Relational.Version) (disk : Disk) :
    Config.Database → Except Failure Storage
  | .unspecified | .memory => .ok (.memory .empty)
  | .file path _ => (disk.find path).map fun file => .file path (.connect engine file)
  | .server _ _ => .error .serverNotBuilt

/-- How an application schedules. -/
structure Setup where
  dialect : String
  strategy : LinkStrategy
  worker : Option Worker
deriving DecidableEq, Repr

namespace Setup

/-- How an application schedules over a store with a dialect. -/
def resolve (dialect : String) (c : Config.Scheduler) : Except Failure Setup := do
  let strategy ← LinkStrategy.resolve dialect c.linkChoice
  return {
    dialect, strategy
    worker :=
      if c.enabled then some (.idle (Config.sweepInterval c) (Config.sweepOptions c)) else none }

/-- What is logged once the store is open. -/
def ready (s : Setup) : Log.Entry :=
  ⟨.info, "database ready",
    [.text "dialect" s.dialect, .text "state_link_strategy" s.strategy.name]⟩

end Setup

/-- A store with its surroundings, and how to schedule over it. -/
structure Application (σ : Type) where
  world : World σ
  setup : Setup

/-- The application over a store that has been opened. -/
def Application.build [Repository σ τ] (store : σ) (clock : Int) (c : Config.Scheduler) :
    Except Failure (Application σ) := do
  let setup ← Setup.resolve (Repository.dialect store) c
  return ⟨⟨store, clock, [setup.ready]⟩, setup⟩

end Timetable
