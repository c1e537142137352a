import Timetable.Relational.Fault
import Timetable.Server.Fault
import Timetable.Text

/-!
# Failures

A request that cannot be carried out ends with a `Failure`, which names its cause. `Failure.kind`
sorts the causes by what a caller may do about them, and `Failure.text` words them.
-/

namespace Timetable

/-- What can be wrong with a configuration. -/
inductive ConfigFault
  /-- The document cannot be read from a file. -/
  | cannotLoad (why : String)
  /-- The document cannot be read from a text. -/
  | cannotParse (why : String)
  | unsupportedNode
  | cannotSerialize (why : String)
  | invalid (why : String)
  | emptyDatabasePath
  | emptyConnectionUri
  | negativeLoopInterval
  | negativeHorizon
deriving DecidableEq, Repr

/-- The text of a configuration fault. -/
def ConfigFault.message : ConfigFault → String
  | cannotLoad why => "Failed to load YAML config: " ++ why
  | cannotParse why => "Failed to parse YAML config: " ++ why
  | unsupportedNode => "Unsupported YAML node"
  | cannotSerialize why => "Failed to serialize YAML to JSON: " ++ why
  | invalid why => "Invalid configuration: " ++ why
  | emptyDatabasePath => "database.sqlite.path must not be empty"
  | emptyConnectionUri => "database.postgres.connection_uri must not be empty"
  | negativeLoopInterval => "scheduler.loop_interval must not be negative"
  | negativeHorizon => "scheduler.horizon must not be negative"

/-- Why a request cannot be carried out. -/
inductive Failure
  | deploymentNotFound (id : String)
  /-- A store refused what `context` names. -/
  | refused (context : String) (refusal : Refusal)
  | intervalNotPositive
  /-- A stored schedule has an interval that no grid can have. -/
  | invalidInterval (scheduleId : String)
  | invalidUuid (text : String)
  /-- A time has no text in the details of a state. -/
  | unwritableTime
  | noLinkStrategy (dialect : String)
  /-- The configuration asks for a server, which a standard build leaves out. -/
  | serverNotBuilt
  | config (fault : ConfigFault)
  | commitAfterRollback
  | alreadyCommitted
  /-- The relational engine could not carry out a command. -/
  | engine (fault : Relational.Fault)
  /-- The relational engine could not make sense of a statement. -/
  | preparing (fault : Relational.Fault)
  | server (fault : Server.Fault)
  /-- A lock was given back by a transaction that does not hold it. -/
  | lockNotHeld
  /-- The request has to wait until another transaction ends. -/
  | waiting
  /-- Work that nobody knows how to do. -/
  | unknownWork (name : String)
deriving DecidableEq, Repr

namespace Failure

/-- The groups of failures that a caller can tell apart. -/
inductive Kind
  | notFound
  | alreadyExists
  | invalidState
  | invalidArgument
  | configuration
  | unsupported
  | server
  | logic
  | runtime
  /-- The request makes no sense. -/
  | senseless
deriving DecidableEq, Repr

/-- The group of the failures that a refusal leads to. -/
def Kind.ofCode : Code → Kind
  | .alreadyExists => .alreadyExists
  | .notFound => .notFound
  | .conflict | .serializationFailure => .invalidState
  | .unsupported => .unsupported
  | .busy | .constraintViolation | .ioError | .corruption | .internalError => .runtime

/-- The group of a failure. -/
def kind : Failure → Kind
  | deploymentNotFound _ => .notFound
  | refused _ refusal => .ofCode refusal.code
  | intervalNotPositive | invalidInterval _ | invalidUuid _ => .invalidArgument
  | noLinkStrategy _ | serverNotBuilt | config _ => .configuration
  | commitAfterRollback | alreadyCommitted => .logic
  | server fault => if fault.kind = .foreign then .runtime else .server
  | unwritableTime | engine _ | preparing _ | lockNotHeld | waiting => .runtime
  | unknownWork _ => .senseless

/-- The words for a failure, of which only those before the first U+0000 are shown. -/
def message : Failure → String
  | deploymentNotFound id => "deployment " ++ id ++ " not found"
  | refused context refusal =>
    if refusal.message = "" then context else context ++ ": " ++ refusal.message
  | intervalNotPositive => "interval must be positive"
  | invalidInterval id => "schedule " ++ id ++ " has an invalid interval"
  | invalidUuid text => "Invalid UUID string: " ++ text
  | unwritableTime => "serialize state details: "
  | noLinkStrategy dialect => "no state link strategy for database dialect '" ++ dialect ++ "'"
  | serverNotBuilt => "postgres backend requested but not enabled at build time"
  | config fault => fault.message
  | commitAfterRollback => "commit after rollback"
  | alreadyCommitted => "transaction already committed"
  | engine fault => fault.message
  | preparing fault => "sqlite prepare: " ++ fault.message
  | server fault => fault.message
  | lockNotHeld => "Operation not permitted"
  | waiting => "waiting for another transaction"
  | unknownWork name => "unknown step " ++ name

/-- What is shown of a failure. -/
def text (f : Failure) : String := Text.untilNul f.message

end Failure

end Timetable
