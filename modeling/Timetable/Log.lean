/-!
# Log entries

An entry has a level, a message and named fields, and is written on one line: `Log.Entry.line`.
-/

namespace Timetable.Log

/-- How serious an entry is. -/
inductive Level
  | debug
  | info
  | warning
  | error
deriving DecidableEq, Repr

/-- The word for a level. -/
def Level.name : Level → String
  | debug => "debug"
  | info => "info"
  | warning => "warn"
  | error => "err"

/-- A named value of an entry. -/
structure Field where
  key : String
  value : String
deriving DecidableEq, Repr

namespace Field

/-- A field that holds a text. -/
def text (key value : String) : Field := ⟨key, value⟩

/-- A field that holds a number. -/
def number (key : String) (n : Int) : Field := ⟨key, toString n⟩

/-- A field that holds a truth value. -/
def flag (key : String) (b : Bool) : Field := ⟨key, if b then "true" else "false"⟩

end Field

/-- A message with its level and its fields. -/
structure Entry where
  level : Level
  message : String
  fields : List Field := []
deriving DecidableEq, Repr

/-- The line of an entry: level, message and the fields as `key=value`. -/
def Entry.line (e : Entry) : String :=
  " ".intercalate (e.level.name :: e.message :: e.fields.map fun f => f.key ++ "=" ++ f.value)

end Timetable.Log
