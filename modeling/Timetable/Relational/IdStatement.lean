import Timetable.Relational.Tables
import Timetable.Sql.Listing

/-!
# Ids bound to a statement

The relational store writes its lists with question marks, which take the bound values in their
order. A statement that has its list twice has twice as many question marks as ids, so the ids are
bound in two rounds.
-/

namespace Timetable.Relational

open Text (untilNul)

/-- A statement about listed ids, with the values of its question marks. -/
structure IdStatement where
  listing : Sql.Listing
  /-- How many question marks each list has. -/
  count : Nat
  /-- The values of all question marks, in their order. -/
  values : List String

namespace IdStatement

/-- The text of a statement. -/
def sql (q : IdStatement) : String := q.listing.text .question q.count

/-- The ids in the list at a place. -/
def listAt (q : IdStatement) (place : Nat) : List String :=
  (q.values.drop (place * q.count)).take q.count

/-- A statement to which some ids are bound in some rounds. -/
def bind (listing : Sql.Listing) (rounds : Nat) (ids : List String) : IdStatement :=
  ⟨listing, ids.length, (List.replicate rounds (ids.map untilNul)).flatten⟩

/-- The statement that asks for those of some runs that have no state. -/
def statelessRuns (ids : List String) : IdStatement := bind .statelessRuns 1 ids

/-- In how many rounds the ids of states are bound. -/
def linkRounds : LinkStrategy → Nat
  | .updateJoin => 1
  | .correlatedSubquery => 2

/-- The statement that points the owners of some states at them. -/
def links (strategy : LinkStrategy) (ids : List String) : IdStatement :=
  bind (.links strategy) (linkRounds strategy) ids

/-- The runs without states that a statement finds. -/
def find (q : IdStatement) (t : Tables) : List String := t.statelessRunIds (q.listAt 0)

/-- What a statement makes of the tables. -/
def link (strategy : LinkStrategy) (q : IdStatement) (t : Tables) : Tables :=
  match strategy with
  | .updateJoin => t.linkStates .updateJoin (q.listAt 0)
  | .correlatedSubquery => t.correlate (q.listAt 0) (q.listAt 1)

end IdStatement

end Timetable.Relational
