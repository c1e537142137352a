import Timetable.LinkStrategy
import Timetable.Relational.Tables

/-!
# Statements on a database file

A `File` holds the committed tables. A `Client` is a connection to it: outside a transaction each
of its statements takes effect at once, inside one they change the client's own copy of the tables
until the transaction ends. Only one client at a time has a transaction, and while it has, the
others cannot write.

A client remembers which tables it last saw. It makes sense of a statement by that memory, and
learns of a table that has been dropped since only when the statement runs.

The engine has a `Version`, and an old one lacks the statements of a link strategy.
-/

namespace Timetable.Relational

/-- What the engine tells of its own version. -/
structure Version where
  number : Nat
  text : String
deriving DecidableEq, Repr

namespace Version

/-- The version that the program is built with. -/
def current : Version := ⟨3040001, "3.40.1"⟩

/-- The first version that can join other tables to the one that a statement updates. -/
def joinsUpdatesFrom : Nat := 3033000

/-- Whether the engine has the statements of a link strategy. -/
def knows (v : Version) : LinkStrategy → Bool
  | .updateJoin => joinsUpdatesFrom ≤ v.number
  | .correlatedSubquery => true

/-- Why an engine without the statements of a link strategy does not link. -/
def tooOld (v : Version) : Refusal :=
  .reported .unsupported ("UPDATE ... FROM requires sqlite 3.33, have " ++ v.text)

end Version

/-- The committed tables, and whether the pages that hold their rows can be read. -/
structure File where
  tables : Tables
  damaged : Bool
deriving DecidableEq, Repr

/-- A connection to a file. -/
structure Client where
  /-- The tables as the client's transaction has left them so far. -/
  pending : Option Tables
  /-- Whether a statement of the transaction met a damaged page, after which it cannot be
  committed. -/
  spoiled : Bool
  /-- The tables that exist as far as the client knows. -/
  known : List TableName
  /-- The engine's tables of settings that the client has met, as they were spelled then. -/
  met : List String
deriving DecidableEq, Repr

/-- Where a statement failed. -/
inductive Stage
  | preparing
  | running
deriving DecidableEq, Repr

/-- What a statement does to the tables, and which tables it is about. -/
structure Statement (α : Type) where
  writes : Bool
  /-- Whether the statement looks at any row. -/
  visitsRows : Bool
  /-- The tables that the statement names. -/
  uses : List TableName
  /-- The tables to which rows of those tables refer. -/
  refers : List TableName
  run : Tables → Except Fault (α × Tables)

namespace Statement

/-- The first table that a statement needs and that does not exist. -/
def missing (s : Statement α) (present : List TableName) : Option Fault :=
  match s.uses.find? (· ∉ present) with
  | some t => some (.noSuchTable t.text)
  | none => (s.refers.find? (· ∉ present)).map fun t => .noSuchTable ("main." ++ t.text)

/-- A statement that only reads. -/
def query (uses : List TableName) (f : Tables → α) : Statement α :=
  ⟨false, true, uses, [], fun t => .ok (f t, t)⟩

/-- A statement that reads no more than a number of rows, and so nothing at all if that is zero. -/
def queryUpTo (limit : Option UInt64) (uses : List TableName) (f : Tables → α) : Statement α :=
  { query uses f with visitsRows := limit ≠ some 0 }

/-- A statement that inserts or changes rows. -/
def change (uses refers : List TableName) (f : Tables → Except Fault Tables) : Statement Unit :=
  ⟨true, true, uses, refers, fun t => (f t).map fun t => ((), t)⟩

/-- A statement that deletes rows and counts them. -/
def delete (uses refers : List TableName) (f : Tables → Nat × Tables) : Statement Nat :=
  ⟨true, true, uses, refers, fun t => .ok (f t)⟩

end Statement

namespace Client

/-- A client that has just connected and seen all tables. -/
def fresh : Client := ⟨none, false, Tables.empty.names, []⟩

/-- Carries out a statement. `blocked` says that another client has a transaction. A statement
that makes sense by the client's memory fails for the lock before it fails for a table. -/
def execute (s : Statement α) (blocked : Bool) (file : File) (c : Client) :
    Except (Stage × Fault) α × File × Client :=
  let tables := c.pending.getD file.tables
  let informed := { c with known := tables.names }
  let makesSense := (s.missing c.known).isNone
  let locked := s.writes && c.pending.isNone && blocked
  if makesSense && locked then (.error (.running, .locked), file, c)
  else
    match s.missing tables.names with
    | some fault => (.error (if makesSense then .running else .preparing, fault), file, informed)
    | none =>
      if locked then (.error (.running, .locked), file, informed)
      else if file.damaged ∧ s.visitsRows then
        (.error (.running, .malformed), file, { informed with spoiled := c.pending.isSome })
      else
        match s.run tables with
        | .error fault => (.error (.running, fault), file, informed)
        | .ok (a, tables) =>
          if c.pending.isSome then (.ok a, file, { informed with pending := some tables })
          else (.ok a, { file with tables }, informed)

/-- Starts a transaction. A client that met a damaged page in a transaction is told of that again.
-/
def begin (blocked : Bool) (file : File) (c : Client) : Except Fault Client :=
  if c.pending.isSome then .error (if c.spoiled then .malformed else .nestedTransaction)
  else if blocked then .error .locked
  else .ok { c with pending := some file.tables, spoiled := false }

/-- Commits the transaction. One that met a damaged page is undone instead. -/
def commit (file : File) (c : Client) : Except Fault Unit × File × Client :=
  match c.pending with
  | none => (.error (.noTransaction .commit), file, c)
  | some tables =>
    let ended := { c with pending := none, spoiled := false }
    if c.spoiled then (.error .malformed, file, ended) else (.ok (), { file with tables }, ended)

/-- Undoes the transaction. -/
def rollback (c : Client) : Except Fault Client :=
  match c.pending with
  | none => .error (.noTransaction .rollback)
  | some _ => .ok { c with pending := none, spoiled := false }

end Client

end Timetable.Relational
