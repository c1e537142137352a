import Timetable.Repository

/-!
# Storing candidates exactly once

`materialize` stores the runs of candidates whose keys are new and gives a first state to every
run that has none, be it new or left behind by an earlier attempt. It returns the runs to which it
gave one. A candidate that is listed twice counts once.
-/

namespace Timetable

/-- The first candidate of each of the given run ids, in the order of the candidates. -/
def firstCandidates (runIds : List String) : List Candidate → List Candidate
  | [] => []
  | c :: cs =>
    if c.run.id ∈ runIds then c :: firstCandidates (runIds.filter (· ≠ c.run.id)) cs
    else firstCandidates runIds cs

/-- Goes on only if the store did what `context` names. -/
def demand (context : String) (x : Action σ Outcome) : Action σ Unit := do
  let outcome ← x
  .ofExcept (outcome.orFail context)

/-- Stores candidates: their runs, a first state for each run without one, and the links to those
states. -/
def materialize [Repository σ τ] (strategy : LinkStrategy) (candidates : List Candidate) :
    Action (σ × τ) (List FlowRun) := do
  if candidates.isEmpty then
    return []
  demand "insert flow runs" (Repository.insertRuns (candidates.map Candidate.unlinkedRun))
  let (outcome, stateless) ← Repository.statelessRunIds (candidates.map fun c => c.run.id)
  .ofExcept (Outcome.orFail "find new flow runs" outcome)
  if stateless.isEmpty then
    return []
  let fresh := firstCandidates stateless candidates
  demand "insert initial states" (Repository.insertStates (fresh.map Candidate.firstState))
  demand "link initial states" (Repository.linkStates strategy (fresh.map fun c => c.state.id))
  return fresh.map Candidate.linkedRun

end Timetable
