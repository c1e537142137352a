/-!
# Refusals

A store answers a request with an `Outcome`: done, or refused for a cause. Every cause has a `Code`,
the same for all kinds of store, and a message.
-/

namespace Timetable

/-- The classes of causes for which a store may refuse a request. -/
inductive Code
  | notFound
  | alreadyExists
  | conflict
  | busy
  | constraintViolation
  | serializationFailure
  | ioError
  | corruption
  | unsupported
  | internalError
deriving DecidableEq, Repr

/-- The code with a number; a number without a code counts as an internal error. -/
def Code.ofNumber : Int → Code
  | 1 => .notFound
  | 2 => .alreadyExists
  | 3 => .conflict
  | 4 => .busy
  | 5 => .constraintViolation
  | 6 => .serializationFailure
  | 7 => .ioError
  | 8 => .corruption
  | 9 => .unsupported
  | _ => .internalError

/-- Why a store refuses a request: by its own rules, or because an engine below it reports so. -/
inductive Refusal
  | deploymentTaken (id : String)
  | deploymentNameTaken (name : String)
  | noDeployment (id : String)
  | scheduleTaken (id : String)
  | noSchedule (id : String)
  | intervalNotPositive
  | runTaken (id : String)
  | noRun (id : String)
  | stateTaken (id : String)
  | reported (code : Code) (message : String)
deriving DecidableEq, Repr

namespace Refusal

/-- The class of a cause. -/
def code : Refusal → Code
  | deploymentTaken _ | deploymentNameTaken _ | scheduleTaken _ | runTaken _ | stateTaken _ =>
    .alreadyExists
  | noDeployment _ | noSchedule _ => .notFound
  | intervalNotPositive | noRun _ => .constraintViolation
  | reported code _ => code

/-- The text of a cause, in which a key stands as it was given. -/
def message : Refusal → String
  | deploymentTaken id | noDeployment id => "deployment " ++ id
  | deploymentNameTaken name => "deployment name " ++ name
  | scheduleTaken id | noSchedule id => "schedule " ++ id
  | intervalNotPositive => "interval_seconds must be positive"
  | runTaken id => "flow run " ++ id
  | noRun id => "flow run " ++ id ++ " does not exist"
  | stateTaken id => "flow run state " ++ id
  | reported _ message => message

end Refusal

/-- What a store says to a request that returns nothing else. -/
abbrev Outcome := Except Refusal Unit

end Timetable
