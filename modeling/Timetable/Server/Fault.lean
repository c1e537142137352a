import Timetable.Outcome
import Timetable.Text

/-!
# What a database server may answer instead of rows

A server reports an error with a class and a text. `Fault.code` turns the class into a code: the
more special classes first, and whatever is left is an internal error.
-/

namespace Timetable.Server

/-- The classes of errors that a server or the connection to it reports. -/
inductive FaultClass
  | uniqueViolation
  | foreignKeyViolation
  | checkViolation
  | notNullViolation
  | restrictViolation
  | integrityViolation
  | serializationFailure
  | deadlockDetected
  | transactionRollback
  | brokenConnection
  | sqlError
  /-- An error that does not come from the server or its connection. -/
  | foreign
deriving DecidableEq, Repr

/-- The code under which a class of errors refuses a request. -/
def FaultClass.code : FaultClass → Code
  | uniqueViolation => .alreadyExists
  | foreignKeyViolation | checkViolation | notNullViolation | restrictViolation
  | integrityViolation => .constraintViolation
  | serializationFailure => .serializationFailure
  | deadlockDetected => .conflict
  | brokenConnection => .ioError
  | transactionRollback | sqlError | foreign => .internalError

/-- An error with its text. -/
structure Fault where
  kind : FaultClass
  message : String
deriving DecidableEq, Repr

/-- An error as the refusal of a request. -/
def Fault.toRefusal (f : Fault) : Refusal := .reported f.kind.code (Text.untilNul f.message)

end Timetable.Server
