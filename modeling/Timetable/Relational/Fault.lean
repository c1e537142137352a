import Timetable.Outcome
import Timetable.Relational.Address
import Timetable.Sql.Drop

/-!
# What a database file may answer instead of doing as told

`Fault.code` and `Fault.message` classify and word the faults of the relational engine.
-/

namespace Timetable.Relational

/-- The two ways to end a transaction. -/
inductive Ending
  | commit
  | rollback
deriving DecidableEq, Repr

/-- Why a statement, a transaction or an opening fails. -/
inductive Fault
  /-- Two rows with the same value in the named column, given as `table.column`. -/
  | uniqueViolated (column : String)
  | checkViolated (condition : String)
  | foreignKeyViolated
  | noSuchTable (name : String)
  /-- Another connection holds the write lock. -/
  | locked
  /-- A page of the file cannot be read as a table. -/
  | malformed
  | notADatabase
  | cannotOpen
  | badAddress (fault : AddressFault)
  /-- The system could not do what the engine asked it for. -/
  | ioError
  /-- A database that may only be read was to be changed. -/
  | readOnly
  | noTransaction (ending : Ending)
  | nestedTransaction
  /-- A text that is no statement. -/
  | badStatement (fault : Sql.SyntaxFault)
  /-- A table that belongs to the engine. -/
  | undroppable (table : String)
  /-- A computed table that cannot be had without arguments. -/
  | noArguments (table : String)
deriving DecidableEq, Repr

namespace Fault

/-- The class of a fault. -/
def code : Fault → Code
  | uniqueViolated _ => .alreadyExists
  | checkViolated _ | foreignKeyViolated => .constraintViolation
  | locked => .busy
  | malformed => .corruption
  | ioError => .ioError
  | noSuchTable _ | notADatabase | cannotOpen | badAddress _ | readOnly | noTransaction _
  | nestedTransaction | badStatement _ | undroppable _ | noArguments _ => .internalError

/-- The engine's words for a fault. -/
def message : Fault → String
  | uniqueViolated column => "UNIQUE constraint failed: " ++ column
  | checkViolated condition => "CHECK constraint failed: " ++ condition
  | foreignKeyViolated => "FOREIGN KEY constraint failed"
  | noSuchTable name => "no such table: " ++ name
  | locked => "database is locked"
  | malformed => "database disk image is malformed"
  | notADatabase => "file is not a database"
  | cannotOpen => "unable to open database file"
  | badAddress fault => fault.message
  | ioError => "disk I/O error"
  | readOnly => "attempt to write a readonly database"
  | noTransaction .commit => "cannot commit - no transaction is active"
  | noTransaction .rollback => "cannot rollback - no transaction is active"
  | nestedTransaction => "cannot start a transaction within a transaction"
  | badStatement fault => fault.message
  | undroppable table => "table " ++ table ++ " may not be dropped"
  | noArguments table => "invalid arguments to " ++ table ++ " constructor"

/-- A fault as the refusal of a request. -/
def toRefusal (f : Fault) : Refusal := .reported f.code f.message

end Fault

end Timetable.Relational
