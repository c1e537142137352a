import Timetable.Failure

/-!
# Ways to point runs at their new states

Both strategies touch exactly the runs that own one of the given states. `updateJoin` goes through
the states and sets the run of each; `correlatedSubquery` goes through the owning runs and looks
for a state of each. A configuration may choose one; otherwise the dialect of the store decides.
-/

namespace Timetable

/-- How runs are pointed at their new states. -/
inductive LinkStrategy
  | updateJoin
  | correlatedSubquery
deriving DecidableEq, Repr

namespace LinkStrategy

/-- The name of a strategy. -/
def name : LinkStrategy → String
  | updateJoin => "update-join"
  | correlatedSubquery => "correlated-subquery"

/-- The strategy with a number. -/
def ofNumber? : Int → Option LinkStrategy
  | 0 => some updateJoin
  | 1 => some correlatedSubquery
  | _ => none

/-- The strategy that is followed if a number asks for one; each number but that of `updateJoin`
asks for the other. -/
def ofRequest (n : Int) : LinkStrategy := if n = 0 then updateJoin else correlatedSubquery

/-- The name of the strategy with a number. -/
def nameOfNumber (n : Int) : String := ((ofNumber? n).map name).getD "unknown"

/-- The strategy that a configuration chooses; most numbers leave the choice to the dialect. -/
def ofChoice? : Int → Option LinkStrategy
  | 1 => some updateJoin
  | 2 => some correlatedSubquery
  | _ => none

/-- The strategy that suits a dialect. -/
def ofDialect? (dialect : String) : Option LinkStrategy :=
  if dialect = "postgresql" ∨ dialect = "memory" then some updateJoin
  else if dialect = "sqlite" then some correlatedSubquery
  else none

/-- The strategy for a dialect under a configured choice, which comes first. -/
def resolve (dialect : String) (choice : Int) : Except Failure LinkStrategy :=
  match ofChoice? choice, ofDialect? dialect with
  | some s, _ => .ok s
  | none, some s => .ok s
  | none, none => .error (.noLinkStrategy dialect)

end LinkStrategy

end Timetable
