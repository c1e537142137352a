import Timetable.Relational.Fault
import Timetable.Text

/-!
# Where a database is

`Locator.ofPath` reads the path of a database. An empty path, or `:memory:`, means a database that
only its client sees. Other paths are names of files, and of these the program can open only the
ones beside it; a path that begins with `file:` is an `Address`.
-/

namespace Timetable.Relational

/-- Where a database is. -/
inductive Place
  /-- Nowhere but in its client, and gone with it. -/
  | client
  /-- In a file beside the program. -/
  | file (name : Path)
deriving DecidableEq, Repr

/-- Where a database is, and what may be done with it there. -/
structure Locator where
  place : Place
  access : Access
  /-- Whether the database is taken never to change, even if it has to be made. -/
  isImmutable : Bool
deriving DecidableEq, Repr

namespace Locator

/-- How many bytes the name of a database may have, so that a file with the same name and the
ending `-journal` can stand beside it. -/
def longestName : Nat := Walk.longestElement - "-journal".utf8ByteSize

/-- How many bytes the path of a file may have, for the same reason. -/
def longestPath : Nat := 512 - "-journal".utf8ByteSize

/-- How many bytes the name of a database in memory may have. -/
def longestMemoryName : Nat := 1024 - "-journal".utf8ByteSize

/-- Whether a path means a database of its own for each client. -/
def isPrivate (p : Path) : Bool := p = [] || p = Path.ofText ":memory:"

/-- Whether there is something under a path in any case: a directory that holds the program. -/
def isThere (p : Path) : Bool :=
  p ≠ [] && p.elements.all fun e => e ∈ [[], Path.point, Path.parent]

/-- The file that a path leads to. A directory can be opened only to read from it, which fails, and
the root not even that. -/
def fileName (p : Path) (access : Access) (model : Option Path) : Except Fault Path :=
  match Walk.ofPath p with
  | none => .error .cannotOpen
  | some w =>
    if w.names = [] ∧ p.isAbsolute ∨ longestPath < w.length then .error .cannotOpen
    else if model.any (!isThere ·) then .error .ioError
    else
      match w.isOutside, w.names with
      | false, [name] => .ok name
      | _, [] => .error (if access = .read then .ioError else .cannotOpen)
      | _, _ => .error .cannotOpen

/-- Where a path leads that means a file. Nothing stands beside a database that never changes. -/
def ofFile (p : Path) (access : Access) (isImmutable : Bool) (model : Option Path) :
    Except Fault Locator := do
  let name ← fileName p access model
  if name.length ≤ longestName ∨ isImmutable then
    return ⟨.file name, access, isImmutable⟩
  else throw .cannotOpen

/-- Where an address leads. -/
def ofAddress (cs : List Char) : Except Fault Locator := do
  let address ← (Address.ofText cs).mapError .badAddress
  let settings ← address.settings.mapError .badAddress
  match settings.mode with
  | .memory => return ⟨.client, .create, false⟩
  | .access access =>
    if isPrivate address.path then return ⟨.client, access, false⟩
    else if settings.system ≠ Settings.memorySystem then
      ofFile address.path access address.isImmutable address.model?
    else if address.path.length ≤ longestMemoryName then
      return ⟨.client, access, address.isImmutable⟩
    else throw .cannotOpen

/-- Where a path leads. It ends at its first U+0000. -/
def ofPath (path : String) : Except Fault Locator :=
  let path := Text.untilNul path
  match "file:".toList.isPrefixOf? path.toList with
  | some address => ofAddress address
  | none =>
    let p := Path.ofText path
    if isPrivate p then .ok ⟨.client, .create, false⟩ else ofFile p .create false none

/-- Whether nobody can write to a database. -/
def isReadOnly (l : Locator) : Bool := l.access = .read || l.isImmutable

end Locator

end Timetable.Relational
