import Timetable.Binary64.Reader
import Timetable.Failure
import Timetable.Instant
import Timetable.Scheduling
import Timetable.Text

/-!
# Configurations

A configuration says where records are kept, how often and how far ahead to schedule, and how to
log. It comes from a document, a tree of texts. `Node.toValue` gives the texts of the tree their
types, `Config.load` takes what a reader of documents delivers, and `Config.validate` tests the
result.
-/

namespace Timetable

/-! ### Documents -/

/-- A node of a document. -/
inductive Node
  /-- A node that stands for nothing at all. -/
  | undefined
  | null
  | scalar (text : String)
  | sequence (nodes : List Node)
  | mapping (entries : List (String × Node))

/-- A typed value. -/
inductive Value
  | null
  | flag (b : Bool)
  | number (x : Binary64)
  | text (s : String)
  | list (values : List Value)
  | record (fields : List (String × Value))

/-- The value of a text: a truth value or a number if it reads as one, else a text. A text that
begins with U+0000 reads as zero. -/
def Value.ofScalar (s : String) : Value :=
  if s = "true" then .flag true
  else if s = "false" then .flag false
  else if s = "" then .text s
  else
    match (Text.untilNul s).toList with
    | [] => .number ⟨0⟩
    | cs =>
      match Binary64.parse? cs with
      | some x => .number x
      | none => .text s

mutual

/-- The value of a node; an undefined node has none. -/
def Node.toValue : Node → Except ConfigFault Value
  | .undefined => .error .unsupportedNode
  | .null => .ok .null
  | .scalar s => .ok (.ofScalar s)
  | .sequence nodes => (Node.listToValues nodes).map .list
  | .mapping entries => (Node.entriesToValues entries).map .record

/-- The values of nodes. -/
def Node.listToValues : List Node → Except ConfigFault (List Value)
  | [] => .ok []
  | n :: ns => do
    let v ← n.toValue
    let vs ← Node.listToValues ns
    return v :: vs

/-- The values of named nodes. -/
def Node.entriesToValues : List (String × Node) → Except ConfigFault (List (String × Value))
  | [] => .ok []
  | (k, n) :: ns => do
    let v ← n.toValue
    let vs ← Node.entriesToValues ns
    return (k, v) :: vs

end

/-! ### What a configuration says -/

namespace Config

/-- Where records are kept. -/
inductive Database
  | unspecified
  | memory
  | file (path : String) (busyTimeout : Nat)
  | server (uri : String) (maxConnections : Nat)
deriving DecidableEq, Repr

/-- When and how runs are scheduled. -/
structure Scheduler where
  enabled : Bool
  loopInterval : Option Span
  /-- The most occurrences of a schedule in a sweep; zero leaves it at the usual number. -/
  maxRuns : Nat
  horizon : Option Span
  /-- The number of the link strategy. -/
  linkChoice : Int
deriving DecidableEq, Repr

/-- How to log. -/
structure Logging where
  level : String
  pattern : String
deriving DecidableEq, Repr

end Config

/-- A configuration. -/
structure Config where
  database : Config.Database
  scheduler : Config.Scheduler
  logging : Config.Logging
deriving DecidableEq, Repr

namespace Config

/-- The configuration that says nothing. -/
def default : Config := ⟨.unspecified, ⟨false, none, 0, none, 0⟩, ⟨"", ""⟩⟩

/-- Whether a length of time has a negative part. -/
def isNegative (s : Span) : Bool := s.seconds < 0 || s.nanos < 0

/-- The first fault of a configuration, if it has one. -/
def fault? (c : Config) : Option ConfigFault :=
  match c.database with
  | .file "" _ => some .emptyDatabasePath
  | .server "" _ => some .emptyConnectionUri
  | _ =>
    if c.scheduler.loopInterval.any isNegative then some .negativeLoopInterval
    else if c.scheduler.horizon.any isNegative then some .negativeHorizon
    else none

/-- A configuration without faults, or its first fault. -/
def validate (c : Config) : Except Failure Unit :=
  match c.fault? with
  | some fault => .error (.config fault)
  | none => .ok ()

/-- What a reader delivers for a document. -/
structure Document where
  /-- The tree of the document, or why it cannot be read. -/
  tree : Except String Node
  /-- Why the value of the tree cannot be written. -/
  unwritable : Option String
  /-- The configuration that the written value stands for, or why it stands for none. -/
  config : Except String Config

/-- Where a document comes from. -/
inductive Source
  | path
  | text
deriving DecidableEq, Repr

/-- The fault of a document that cannot be read. -/
def Source.fault : Source → String → ConfigFault
  | .path => .cannotLoad
  | .text => .cannotParse

/-- The value of a document, if it has one, and its configuration. An empty document has the
configuration that says nothing. -/
def load (source : Source) (d : Document) : Option Value × Except Failure Config :=
  match d.tree with
  | .error why => (none, .error (.config (source.fault (Text.untilNul why))))
  | .ok .null => (none, .ok default)
  | .ok node =>
    match node.toValue with
    | .error fault => (none, .error (.config fault))
    | .ok value =>
      (some value,
        match d.unwritable, d.config with
        | some why, _ => .error (.config (.cannotSerialize why))
        | none, .error why => .error (.config (.invalid why))
        | none, .ok c => c.validate.map fun _ => c)

/-- How a sweep goes about its work under a configuration. -/
def sweepOptions (c : Scheduler) : SweepOptions where
  pageSize := SweepOptions.defaultPageSize
  maxRuns := if c.maxRuns = 0 then none else some (UInt64.ofNat c.maxRuns)
  horizon := c.horizon.map Span.millis

/-- The milliseconds between two sweeps under a configuration. -/
def sweepInterval (c : Scheduler) : Int :=
  (c.loopInterval.map Span.millis).getD Worker.defaultInterval

end Config

end Timetable
