import Timetable.Proofs.Keyed.Ledger

/-!
# Both link strategies do the same

One strategy walks the listed states, the other walks the runs that own one of them and searches the
states of each. As long as no run owns two of the listed states, both leave the tables that
`Tables.Linked` describes, and there is only one such (`linkStates_eq`). Storing candidates lists the
first states of different runs, so it does not depend on the strategy at all (`materialize_congr`).
-/

namespace Timetable.Keyed

namespace Tables

open OrderedMap

variable {t u v : Tables} {ids : List String}

/-- Each run that owns a listed state has been pointed at that state, and nothing else has changed. -/
structure Linked (t : Tables) (ids : List String) (u : Tables) : Prop where
  owner : ∀ {a s r}, a ∈ ids → t.states.get? a = some s → t.runs.get? s.runId = some r →
    u.runs.get? s.runId = some { r with stateId := some a }
  other : ∀ {runId}, (∀ a ∈ ids, ∀ s, t.states.get? a = some s → s.runId ≠ runId) →
    u.runs.get? runId = t.runs.get? runId
  not_cleared : ∀ {runId r}, t.runs.get? runId = some r → r.stateId.isSome = true →
    ∃ q, u.runs.get? runId = some q ∧ q.stateId.isSome = true
  frame : ∃ runs, u = { t with runs }

/-- Linking points the owners of the listed states at them. -/
theorem linked_linkStates (ht : t.WellFormed) (h : t.OnePerRun ids) (strategy : LinkStrategy) :
    t.Linked ids (t.linkStates strategy ids) where
  owner := by
    intro a s r ha hs hr
    have howns : t.owns s.runId a = true := owns_iff.2 ⟨s, hs, rfl⟩
    have hlisted : t.listedState ids s.runId = some a :=
      (listedState_eq_some_iff ht h).2 ⟨ha, howns⟩
    rw [get?_runs_linkStates ht h, hr, hlisted]
    rfl
  other := by
    intro runId hother
    have hlisted : t.listedState ids runId = none := by
      rw [listedState_eq_none_iff ht]
      intro a ha
      rw [← Bool.not_eq_true, owns_iff]
      rintro ⟨s, hs, hrun⟩
      exact hother a ha s hs hrun
    rw [get?_runs_linkStates ht h, hlisted]
    exact Option.map_id'
  not_cleared := by
    intro runId r hr hsome
    refine ⟨r.pointAt (t.listedState ids runId), by rw [get?_runs_linkStates ht h, hr]; rfl, ?_⟩
    cases t.listedState ids runId with
    | none => exact hsome
    | some a => rfl
  frame := linkStates_frame t strategy ids

/-- As long as no run owns two of the listed states, the strategy does not matter. -/
theorem linkStates_eq (ht : t.WellFormed) (h : t.OnePerRun ids) (strategy other : LinkStrategy) :
    t.linkStates strategy ids = t.linkStates other ids := by
  obtain ⟨runs, hruns⟩ := linkStates_frame t strategy ids
  obtain ⟨others, hothers⟩ := linkStates_frame t other ids
  have hget : ∀ id, (t.linkStates strategy ids).runs.get? id =
      (t.linkStates other ids).runs.get? id := by
    intro id
    rw [get?_runs_linkStates ht h strategy, get?_runs_linkStates ht h other]
  rw [hruns, hothers] at hget ⊢
  rw [show runs = others from ext_get? hget]

/-- Of two listed states of one run, one strategy picks the last that is listed and the other the
oldest. -/
example :
    let t := ((empty.insertRuns [Ledger.plainRun "run" "monday"]).2.insertStates
      [⟨"first", "run", RunState.scheduled, "", "", 0⟩, ⟨"second", "run", 3, "", "", 0⟩]).2
    ((t.linkStates .updateJoin ["first", "second"]).runs.get? "run").map FlowRun.stateId =
        some (some "second") ∧
      ((t.linkStates .correlatedSubquery ["first", "second"]).runs.get? "run").map
        FlowRun.stateId = some (some "first") := by
  decide

/-- Storing candidates does not depend on the strategy. -/
theorem materialize_congr (ht : t.WellFormed) (strategy other : LinkStrategy)
    (cs : List Candidate) : t.materialize strategy cs = t.materialize other cs := by
  have hlink : ((t.insertRuns (submitted cs)).2.insertStates (t.newStates cs)).1 = .ok () →
      (t.unlinked cs).linkStates strategy (t.newStateIds cs) =
        (t.unlinked cs).linkStates other (t.newStateIds cs) := fun hstates =>
    linkStates_eq (wellFormed_unlinked ht) (onePerRun_newStateIds hstates) strategy other
  rw [unlinked] at hlink
  -- the strategies come in only after runs and states have been accepted
  rw [materialize_eq ht, materialize_eq ht]
  rcases hu : t.insertRuns (submitted cs) with ⟨e | ⟨⟩, u⟩
  · rfl
  · rw [hu] at hlink
    rcases hv : u.insertStates (t.newStates cs) with ⟨e | ⟨⟩, v⟩
    · simp only [hv]
    · rw [hv] at hlink
      simp only [hv, hlink rfl]

end Tables

namespace Ledger

open Tables

/-- Whatever the strategy, linking points the owners of the listed states at them and does nothing
else, and storing candidates ends the same way with the same tables. -/
theorem strategies_agree (l : Ledger) (tx : Transaction) (ht : tx.working.WellFormed) :
    (∀ ids, tx.working.OnePerRun ids → ∃ u, tx.working.Linked ids u ∧ ∀ strategy,
      (Repository.linkStates strategy ids).run (l, tx) =
        (.ok (.ok ()), l, { tx with working := u })) ∧
    ∀ cs, ∃ r u, ∀ strategy,
      (Timetable.materialize strategy cs).run (l, tx) = (r, l, { tx with working := u }) := by
  constructor
  · intro ids h
    refine ⟨tx.working.linkStates .updateJoin ids, linked_linkStates ht h .updateJoin, ?_⟩
    intro strategy
    rw [← linkStates_eq ht h strategy]
    rfl
  · intro cs
    refine ⟨(tx.working.materialize .updateJoin cs).1, (tx.working.materialize .updateJoin cs).2, ?_⟩
    intro strategy
    rw [← materialize_congr ht strategy]
    exact run_materialize ht strategy cs

/-- A state may be listed more than once, and a listed id may be nobody's. -/
theorem strategies_agree_leftover : ∃ u, leftover.Linked ["completed", "unknown", "completed"] u ∧
    ∀ strategy, (Repository.linkStates strategy ["completed", "unknown", "completed"]).run
      ((⟨leftover, true⟩, ⟨leftover, .active⟩) : Ledger × Transaction) =
        (.ok (.ok ()), ⟨leftover, true⟩, ⟨u, .active⟩) := by
  have ht : leftover.WellFormed := (wellFormed_empty.insertRuns _).insertStates _
  have hunknown : leftover.states.get? "unknown" = none := by decide
  have hone : leftover.OnePerRun ["completed", "unknown", "completed"] := by
    have hcompleted : ∀ a ∈ ["completed", "unknown", "completed"], ∀ s,
        leftover.states.get? a = some s → a = "completed" := by
      intro a ha s hs
      simp only [List.mem_cons, List.not_mem_nil, or_false] at ha
      rcases ha with rfl | rfl | rfl
      · rfl
      · rw [hunknown] at hs
        cases hs
      · rfl
    intro a ha b hb s q hs hq _
    rw [hcompleted a ha s hs, hcompleted b hb q hq]
  exact (strategies_agree ⟨leftover, true⟩ ⟨leftover, .active⟩ ht).1 _ hone

end Ledger

end Timetable.Keyed
