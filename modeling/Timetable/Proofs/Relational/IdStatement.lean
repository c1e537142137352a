import Timetable.Relational.IdStatement

/-!
# What is bound to a statement about ids

Each list of a statement about ids denotes the ids that were bound in its round (`listAt_bind`), up
to their first U+0000. So both lists of the statement that links are the same, and what it does is
what `Tables.linkStates` does with one list (`link_links`).
-/

namespace Timetable.Relational

open Text (untilNul)

namespace Tables

/-- There is a state to point a run at unless it owns none of those that are listed. -/
theorem chosenState_eq_none_iff {strategy : LinkStrategy} {listed : Nat} {owned : List String} :
    chosenState strategy listed owned = Option.none ↔ owned = [] := by
  have hmerge : ∀ le : String → String → Bool, owned.mergeSort le = [] ↔ owned = [] := by
    intro le
    rw [← List.length_eq_zero_iff, List.length_mergeSort, List.length_eq_zero_iff]
  cases strategy with
  | updateJoin => rw [chosenState, List.getLast?_eq_none_iff, hmerge]
  | correlatedSubquery =>
    rw [chosenState]
    split
    · rw [List.head?_eq_none_iff, hmerge]
    · exact List.head?_eq_none_iff

/-- With the same ids in both lists, the runs that are changed are those that own a listed state. -/
theorem correlate_self (t : Tables) (ids : List String) :
    t.correlate ids ids = t.linkStates .correlatedSubquery ids := by
  rw [correlate, linkStates]
  generalize t.stateRows.filter (fun s => s.id ∈ ids) = states
  have howner : ∀ r : FlowRun, r.id ∉ states.map RunState.runId ↔
      (states.filter (·.runId == r.id)).map RunState.id = [] := by
    intro r
    simp
  congr 2
  refine List.map_congr_left fun r _ => ?_
  by_cases howns : r.id ∈ states.map RunState.runId
  · rw [if_pos howns]
    split
    · next id hid => rw [hid]
    · next hnone => exact absurd howns ((howner r).2 (chosenState_eq_none_iff.1 hnone))
  · rw [if_neg howns, (howner r).1 howns, chosenState_eq_none_iff.2 rfl]

end Tables

namespace IdStatement

/-- In whichever round ids are bound, the list of that place denotes them. -/
theorem listAt_bind {listing : Sql.Listing} {rounds place : Nat} (h : place < rounds)
    (ids : List String) : (bind listing rounds ids).listAt place = ids.map untilNul := by
  show ((List.replicate rounds (ids.map untilNul)).flatten.drop (place * ids.length)).take
    ids.length = ids.map untilNul
  rw [← List.length_map untilNul]
  generalize ids.map untilNul = bound
  induction place generalizing rounds with
  | zero =>
    obtain ⟨rounds, rfl⟩ := Nat.exists_eq_add_one.2 h
    rw [List.replicate_succ, List.flatten_cons, Nat.zero_mul, List.drop_zero, List.take_left]
  | succ place ih =>
    obtain ⟨rounds, rfl⟩ := Nat.exists_eq_add_one.2 (Nat.zero_lt_of_lt h)
    rw [List.replicate_succ, List.flatten_cons, Nat.succ_mul, Nat.add_comm, ← List.drop_drop,
      List.drop_left]
    exact ih (Nat.lt_of_succ_lt_succ h)

theorem find_statelessRuns (ids : List String) :
    (statelessRuns ids).find = Tables.statelessRunIds (ids.map untilNul) := by
  funext t
  rw [find, statelessRuns, listAt_bind (Nat.zero_lt_succ _)]

theorem link_links (strategy : LinkStrategy) (ids : List String) (t : Tables) :
    (links strategy ids).link strategy t = t.linkStates strategy (ids.map untilNul) := by
  cases strategy with
  | updateJoin =>
    rw [links, link, linkRounds, listAt_bind (Nat.zero_lt_succ _)]
  | correlatedSubquery =>
    rw [links, link, linkRounds, listAt_bind (Nat.zero_lt_succ _), listAt_bind (Nat.lt_succ_self _),
      Tables.correlate_self]

end IdStatement

end Timetable.Relational
