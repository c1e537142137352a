import Timetable.Server.Fault
import Timetable.Text

/-!
# What is said to a server, and what it answers

An `Event` is one thing that the program says to a server. A `Script` holds the server's answers to
come: replies to statements, and refusals of connections, of statements to prepare, of commits and
of rollbacks. Where a script has nothing more to say, a statement yields no rows and everything else
succeeds.
-/

namespace Timetable.Server

/-- A connection, by its number. -/
abbrev Connection := Nat

/-- One thing that is said to a server. -/
inductive Event
  /-- An attempt to connect. -/
  | connect (conninfo : String)
  | connected (c : Connection)
  | prepare (name sql : String)
  | begin (c : Connection)
  /-- A statement without parameters. -/
  | exec (sql : String)
  /-- A prepared statement with its parameters. -/
  | prepared (name : String) (parameters : List (Option String))
  /-- A statement with its parameters. -/
  | statement (sql : String) (parameters : List (Option String))
  /-- An attempt to commit. -/
  | commit (c : Connection)
  /-- An attempt to roll back. -/
  | abort (c : Connection)
  /-- The end of a transaction that was neither committed nor rolled back. -/
  | close (c : Connection)
  | disconnect (c : Connection)
deriving DecidableEq, Repr

/-! ### Rows -/

/-- A row: the text of each cell, or nothing. -/
abbrev Row := List (Option String)

namespace Row

/-- The text of a cell; a cell without text is empty. -/
def text (r : Row) (i : Nat) : String := Text.untilNul ((r.getD i none).getD "")

/-- The text of a cell, if it has one. -/
def text? (r : Row) (i : Nat) : Option String := (r.getD i none).map Text.untilNul

/-- The number in a cell. -/
def number (r : Row) (i : Nat) : Int := ((r.getD i none).bind String.toInt?).getD 0

/-- The unsigned number in a cell. -/
def word (r : Row) (i : Nat) : UInt64 := UInt64.ofInt (r.number i)

/-- The truth value in a cell. -/
def flag (r : Row) (i : Nat) : Bool := r.text i ∈ ["t", "true", "1"]

end Row

/-- The answer to a statement: rows and a count of changed rows, or an error. -/
inductive Reply
  | rows (rows : List Row) (affected : Nat)
  | fault (f : Fault)
deriving Repr

/-- How many rows a reply has. -/
def Reply.rowCount : Reply → Nat
  | .rows cells _ => cells.length
  | .fault _ => 0

/-- A server's answers to come, in order. -/
structure Script where
  replies : List Reply
  connects : List (Option Fault)
  commits : List (Option Fault)
  aborts : List (Option Fault)
  prepares : List (Option Fault) := []

namespace Script

/-- A script in which everything succeeds. -/
def silent : Script := ⟨[], [], [], [], []⟩

/-- The rows that a script has still to give. -/
def rowCount (s : Script) : Nat := s.replies.foldl (fun n r => n + r.rowCount) 0

/-- The answer to the next statement. -/
def nextReply (s : Script) : Reply × Script :=
  match s.replies with
  | [] => (.rows [] 0, s)
  | r :: rest => (r, { s with replies := rest })

/-- The answer to the next attempt to connect. -/
def nextConnect (s : Script) : Option Fault × Script :=
  (s.connects.head?.join, { s with connects := s.connects.tail })

/-- The answer to the next statement that is to be prepared. -/
def nextPrepare (s : Script) : Option Fault × Script :=
  (s.prepares.head?.join, { s with prepares := s.prepares.tail })

/-- The answer to the next attempt to commit. -/
def nextCommit (s : Script) : Option Fault × Script :=
  (s.commits.head?.join, { s with commits := s.commits.tail })

/-- The answer to the next attempt to roll back. -/
def nextAbort (s : Script) : Option Fault × Script :=
  (s.aborts.head?.join, { s with aborts := s.aborts.tail })

end Script

end Timetable.Server
