import Timetable.Server.Pool
import Timetable.Session

/-!
# Driving a store on a server by hand

A session on a server takes the commands of every session, and some about the pool of connections.
A pool of one connection cannot serve two at once: `Demand` says which commands want a connection
beside the one that a transaction holds, and `Session.objection?` refuses those that could only
wait.
-/

namespace Timetable.Server

/-- A command to a session on a server. -/
inductive Command
  | common (c : Timetable.Command)
  /-- Makes the tables that are missing. -/
  | bootstrap
  /-- Begins further transactions, and gives them up in the order of the given places and then of
  their beginning. -/
  | extra (count : Nat) (places : List Nat)
  /-- Begins a transaction that has to wait until the open one is given up. -/
  | waitBegin
  /-- Gives up the pool and all that uses it, but not the transaction. -/
  | dropPool

/-- When a command wants a connection beside that of the transaction. -/
inductive Demand
  | never
  | unlessOpen
  | always
deriving DecidableEq, Repr

namespace Command

/-- When a command wants a connection beside that of the transaction. -/
def demand : Command → Demand
  | common c =>
    match c with
    | .schedule _ | .sweep _ | .drive _ _ => .always
    | .commit | .rollback | .work _ _ => .unlessOpen
    | .begin | .isCommitted | .drop | .setClock _ => .never
  | bootstrap => .always
  | extra _ _ | waitBegin => .unlessOpen
  | dropPool => .never

/-- Whether a command ends the transaction. -/
def endsTransaction : Command → Bool
  | common .commit | common .rollback => true
  | _ => false

/-- Whether a command is about the transaction alone. -/
def outlivesPool : Command → Bool
  | common c =>
    match c with
    | .commit | .rollback | .isCommitted | .drop => true
    | _ => false
  | _ => false

end Command

/-- A session on a server. -/
abbrev Session := Timetable.Session Pool Transaction

namespace Session

/-- The session of a pool that nobody has used yet. -/
def ofPool (pool : Pool) (clock : Int) (strategy : LinkStrategy) : Session :=
  ⟨⟨pool, clock, []⟩, strategy, none, none, []⟩

/-- The connections that transaction objects hold. -/
def held (s : Session) : Nat := if s.handle.isSome then 1 else 0

/-- Whether a transaction object, be it ended, holds the only connection that there may be. -/
def holdsOnly (s : Session) : Bool := s.world.store.capacity = 1 && s.held = 1

/-- Whether a command could only wait for the connection that the transaction holds. -/
def isStuck (s : Session) (c : Command) : Bool :=
  s.holdsOnly &&
    match c.demand with
    | .never => false
    | .unlessOpen => !s.isOpen
    | .always => true

/-- What speaks against a command beside the objections of every session. -/
def objection? (s : Session) (c : Command) : Option Objection :=
  if s.world.store.gone && !c.outlivesPool then some .noRepository
  else if c.endsTransaction && !s.isOpen then some .noOpenTransaction
  else if s.isStuck c then some .onlyConnectionHeld
  else
    match c with
    | .extra count _ =>
      if s.world.store.capacity < count + s.held then some .moreThanPoolHolds else none
    | .waitBegin =>
      if s.world.store.capacity = 1 && s.isOpen then none else some .nothingToWaitFor
    | _ => none

/-- Begins some transactions after those that have been begun already. If one cannot be begun, all
are given up. -/
def beginMore (begun : List Transaction) : Nat → Action (World Pool) (List Transaction)
  | 0 => return begun
  | n + 1 => do
    match ← (World.onStore Pool.begin).attempt with
    | .ok tx => beginMore (begun ++ [tx]) n
    | .error e => do
      begun.forM World.release
      .fail e

/-- The places below `count`, each once: first the given ones, then the others in order. -/
def releaseOrder (count : Nat) (places : List Nat) : List Nat :=
  (places.filter (· < count) ++ List.range count).eraseDups

/-- Begins some transactions and gives them up again. -/
def passThrough (count : Nat) (places : List Nat) : Action (World Pool) Unit := do
  let begun ← beginMore [] count
  ((releaseOrder count places).filterMap (begun[·]?)).forM World.release

/-- Carries out a command against which nothing speaks. -/
def carryOut (s : Session) : Command → Timetable.Session.Result Pool Transaction
  | .common c => s.execute c
  | .bootstrap => s.onWorld (World.onStore Pool.bootstrap) fun _ => .nothing
  | .extra count places => s.onWorld (passThrough count places) fun _ => .nothing
  | .waitBegin => s.begin
  | .dropPool =>
    (.ok .nothing, { s with world := { s.world with store := s.world.store.close } })

/-- Carries out a command, unless something speaks against it. -/
def obey (s : Session) (c : Command) : Timetable.Session.Result Pool Transaction :=
  match s.objection? c with
  | some o => s.object o
  | none => s.carryOut c

/-- Puts the server's answers to come in place of those that are left over. -/
def withScript (s : Session) (script : Script) : Session :=
  { s with world := { s.world with store := { s.world.store with script } } }

/-- What has been said to the server, which is then forgotten. -/
def takeEvents (s : Session) : List Event × Session :=
  (s.world.store.events,
    { s with world := { s.world with store := { s.world.store with events := [] } } })

/-- Gives up the transaction and then the pool. -/
def close (s : Session) : Session :=
  let s := Timetable.Session.drop s
  { s with world := { s.world with store := s.world.store.close } }

end Session

end Timetable.Server
