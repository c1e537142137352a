import Timetable.Failure
import Timetable.Relational.Engine
import Timetable.Relational.Locator

/-!
# Database files

A `Disk` says what stands in the files beside the program. `Disk.find` looks for the database under
a path, and `Disk.save` writes it back.
-/

namespace Timetable

/-- What stands in a file. -/
inductive Medium
  | database (file : Relational.File)
  /-- Something else than a database. -/
  | junk

/-- A file without tables. -/
def Relational.File.blank : Relational.File := ⟨.none, false⟩

/-- A file whose tables cannot be read. -/
def Relational.File.unreadable : Relational.File := ⟨.empty, true⟩

/-- What stands in which file. -/
structure Disk where
  files : List (Relational.Path × Medium)

namespace Disk

/-- A disk without files. -/
def empty : Disk := ⟨[]⟩

/-- The database under a path, to which the client is going to add tables. One that does not exist
is made if that is allowed. -/
def find (d : Disk) (path : String) : Except Failure Relational.File := do
  let l ← (Relational.Locator.ofPath path).mapError .engine
  match l.place with
  | .client => if l.isReadOnly then throw (.engine .readOnly) else return .blank
  | .file name =>
    match d.files.lookup name with
    | some (.database file) => if l.isReadOnly then throw (.engine .readOnly) else return file
    | some .junk => throw (.engine .notADatabase)
    | none =>
      if l.access ≠ .create then throw (.engine .cannotOpen)
      else if l.isReadOnly then throw (.engine .readOnly)
      else return .blank

/-- Writes the database under a path back. -/
def save (d : Disk) (path : String) (file : Relational.File) : Disk :=
  match Relational.Locator.ofPath path with
  | .ok ⟨.file name, _, _⟩ => ⟨(name, .database file) :: d.files.filter fun e => e.1 ≠ name⟩
  | _ => d

end Disk

end Timetable
