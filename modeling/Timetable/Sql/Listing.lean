import Timetable.LinkStrategy
import Timetable.Sql.Placeholder

/-!
# Statements about listed ids

A statement about ids has a list with a placeholder for each of them, and some statements have the
list twice. A `Listing` is such a statement without the list: the words before it, between its
places and behind it.
-/

namespace Timetable.Sql

/-- The words of a statement, between every two of which the list of placeholders stands. -/
structure Listing where
  words : List String

namespace Listing

/-- The text of a statement with lists of so many placeholders. -/
def text (l : Listing) (style : PlaceholderStyle) (count : Nat) : String :=
  (placeholders style count 1).intercalate l.words

/-- Asks for those of some runs that have no state. -/
def statelessRuns : Listing :=
  ⟨["SELECT flow_run.id FROM flow_run LEFT OUTER JOIN flow_run_state ON flow_run.id = " ++
      "flow_run_state.flow_run_id WHERE flow_run_state.id IS NULL AND flow_run.id IN (",
    ");"]⟩

/-- Points the owners of some states at them. The second list of a correlated subquery says which
runs are changed, the first one to which states. -/
def links : LinkStrategy → Listing
  | .updateJoin =>
    ⟨["UPDATE flow_run SET state_id = flow_run_state.id FROM flow_run_state WHERE " ++
        "flow_run_state.flow_run_id = flow_run.id AND flow_run_state.id IN (",
      ");"]⟩
  | .correlatedSubquery =>
    ⟨["UPDATE flow_run SET state_id = (SELECT flow_run_state.id FROM flow_run_state WHERE " ++
        "flow_run_state.flow_run_id = flow_run.id AND flow_run_state.id IN (",
      ") LIMIT 1) WHERE flow_run.id IN (SELECT flow_run_id FROM flow_run_state WHERE id IN (",
      "));"]⟩

end Listing

end Timetable.Sql
