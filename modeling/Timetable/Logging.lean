import Timetable.Config
import Timetable.Text

/-!
# Setting up the log

`Logging.Settings.resolve` takes level and pattern from the environment, else from the
configuration, else the usual ones. `Logging.setUp` makes a logger unless there is one, and makes
it the one that everybody uses.
-/

namespace Timetable.Logging

/-- What the environment says about the log; a variable may be set to nothing. -/
structure Environment where
  level : Option String
  pattern : Option String

/-- The level and the pattern of a logger. -/
structure Settings where
  level : String
  pattern : String
deriving DecidableEq, Repr

/-- A text, or the usual one if it is empty. -/
def orUsual (s usual : String) : String := if s = "" then usual else s

/-- The settings under an environment and a configuration. What the environment says ends at its
first U+0000. -/
def Settings.resolve (e : Environment) (c : Config.Logging) : Settings where
  level := (e.level.map Text.untilNul).getD (orUsual c.level "info")
  pattern :=
    (e.pattern.map Text.untilNul).getD (orUsual c.pattern "%Y-%m-%dT%H:%M:%S.%e%z [%^%l%$] %v")

/-- The name of the logger. -/
def loggerName : String := "flowsched"

/-- What is done to the loggers. -/
inductive Step
  | create (name : String)
  | makeDefault (name : String) (settings : Settings)
  | flushOn (level : Log.Level)
  | shutdown
deriving DecidableEq, Repr

/-- Whether the logger exists, and what has been done. -/
structure Registry where
  present : Bool
  steps : List Step

/-- A registry without loggers. -/
def Registry.empty : Registry := ⟨false, []⟩

/-- Makes the logger unless there is one, and makes it the one that everybody uses. -/
def setUp (e : Environment) (c : Config.Logging) (r : Registry) : Registry :=
  ⟨true, r.steps ++ (if r.present then [] else [.create loggerName]) ++
    [.makeDefault loggerName (.resolve e c), .flushOn .warning]⟩

/-- Removes all loggers. -/
def shutDown (r : Registry) : Registry := ⟨false, r.steps ++ [.shutdown]⟩

end Timetable.Logging
