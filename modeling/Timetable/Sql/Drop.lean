import Timetable.Sql.Token

/-!
# Statements that drop tables

`Drop.ofText` reads statements separated by semicolons, each of the form

    DROP TABLE [IF EXISTS] [schema .] table

Each statement is read by itself, since a text may begin with good statements and go wrong later. A
token that stands behind a statement is kept with it, since the table is looked for before the
token is refused. `Token.statements` finds the statements without looking at what they say
(`flatten_statements`).
-/

namespace Timetable.Sql

/-- Why a text is no statement. -/
inductive SyntaxFault
  /-- A token that cannot stand where it stands. -/
  | unexpected (token : String)
  | unrecognized (piece : String)
  /-- The text ends too early. -/
  | incomplete
deriving DecidableEq, Repr

/-- The words for a fault. -/
def SyntaxFault.message : SyntaxFault → String
  | unexpected token => "near \"" ++ token ++ "\": syntax error"
  | unrecognized piece => "unrecognized token: \"" ++ piece ++ "\""
  | incomplete => "incomplete input"

/-! ### Statements -/

/-- Whether a token separates statements. -/
def Token.isSemicolon (t : Token) : Bool := t.text = [';']

/-- The tokens of each statement, with the semicolon behind it. -/
def Token.statements : List Token → List (List Token)
  | [] => []
  | t :: ts =>
    if t.isSemicolon then [t] :: statements ts
    else
      match statements ts with
      | [] => [[t]]
      | s :: more => (t :: s) :: more

/-- Every token belongs to one statement. -/
theorem Token.flatten_statements (ts : List Token) : (Token.statements ts).flatten = ts := by
  induction ts with
  | nil => rfl
  | cons t ts ih =>
    rw [statements]
    split
    · simp [ih]
    · split <;> simp_all

/-! ### Reading -/

/-- The name of a table, perhaps with that of the schema that it is in. -/
structure TablePath where
  schema : Option String
  table : String
deriving DecidableEq, Repr

namespace TablePath

/-- The text of a path, with a point between the names. -/
protected def toString (p : TablePath) : String :=
  match p.schema with
  | some schema => schema ++ "." ++ p.table
  | none => p.table

end TablePath

/-- A statement that drops a table. -/
structure Drop where
  path : TablePath
  /-- Whether it does not matter if there is no such table. -/
  ifExists : Bool
  /-- The token that stands where the statement should end. -/
  excess : Option String
deriving DecidableEq, Repr

/-- Reads something from the first tokens of a statement. -/
abbrev Reader (α : Type) := StateT (List Token) (Except SyntaxFault) α

namespace Reader

/-- Fails at the first token. -/
def fail : Reader α := do
  match ← get with
  | [] => throw .incomplete
  | t :: _ =>
    let text := String.ofList t.text
    throw (if t.kind = .broken then .unrecognized text else .unexpected text)

/-- Reads a word. -/
def word (w : String) : Reader Unit := do
  match ← get with
  | t :: ts => if t.isWord w then set ts else fail
  | [] => fail

/-- Reads a token with a text, if it comes first. -/
def mark? (c : Char) : Reader Bool := do
  match ← get with
  | t :: ts => if t.text = [c] then set ts; return true else return false
  | [] => return false

/-- Reads a name. -/
def name : Reader String := do
  match ← get with
  | t :: ts =>
    match t.name? with
    | some n => set ts; return n
    | none => fail
  | [] => fail

/-- Reads the condition that the table exists, if there is one. -/
def ifExists : Reader Bool := do
  if ((← get).head?.map (·.isWord "if")).getD false then
    word "if"
    word "exists"
    return true
  else
    return false

/-- Reads the name of a table. -/
def tablePath : Reader TablePath := do
  let first ← name
  if ← mark? '.' then
    return ⟨some first, ← name⟩
  else
    return ⟨none, first⟩

/-- Reads the end of a statement, or the token that stands there instead. -/
def finish : Reader (Option String) := do
  match ← get with
  | t :: _ =>
    if t.isSemicolon then return none
    else if t.kind = .broken then fail
    else return some (String.ofList t.text)
  | [] => return none

/-- Reads a whole statement. -/
def drop : Reader Drop := do
  word "drop"
  word "table"
  let ifExists ← ifExists
  let path ← tablePath
  let excess ← finish
  return ⟨path, ifExists, excess⟩

end Reader

namespace Drop

/-- Reads a statement; one without tokens means nothing. -/
def ofTokens? (ts : List Token) : Option (Except SyntaxFault Drop) :=
  if ts.all Token.isSemicolon then none else some ((Reader.drop ts).map Prod.fst)

/-- What the statements of a text say. -/
def ofText (s : String) : List (Except SyntaxFault Drop) :=
  (Token.statements (Token.ofText s)).filterMap ofTokens?

end Drop

end Timetable.Sql
