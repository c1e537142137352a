import Timetable.Proofs.Keyed.Strategies
import Timetable.Proofs.Sound

/-!
# Storing the same candidates again

An attempt to store candidates may stop after some of its writes (`Tables.afterWrites`). Runs that
are stored already are ignored the next time, so a second attempt goes on where only runs have been
written. It takes a run for new only if the run has no state; once the states are there, nothing is
new any more and the second attempt does nothing (`materialize_of_settled`), not even link the runs
that the first one has not linked: `materialize_afterWrites`.
-/

namespace Timetable

/-- A run is stored and owns one state; it points at that state if it is linked, and at nothing
otherwise. -/
def OwnsOne (runs : List FlowRun) (states : List RunState) (runId : String) (linked : Bool) :
    Prop :=
  ∃ r ∈ runs, r.id = runId ∧ ∃ s, states.filter (·.runId == runId) = [s] ∧
    r.stateId = if linked then some s.id else none

/-- It does not matter in which order the rows stand. -/
theorem OwnsOne.perm {runs runs' : List FlowRun} {states states' : List RunState} {runId : String}
    {linked : Bool} (h : OwnsOne runs states runId linked) (hruns : runs.Perm runs')
    (hstates : states.Perm states') : OwnsOne runs' states' runId linked := by
  obtain ⟨r, hr, hid, s, hs, hlink⟩ := h
  have hperm := hstates.filter (·.runId == runId)
  rw [hs] at hperm
  exact ⟨r, hruns.mem_iff.1 hr, hid, s, List.perm_singleton.1 hperm.symm, hlink⟩

/-- Where every run waits in its one state, one that is stored is linked. -/
theorem Sound.ownsOne {runs : List FlowRun} {states : List RunState} (h : Sound runs states)
    {r : FlowRun} (hr : r ∈ runs) : OwnsOne runs states r.id true := by
  obtain ⟨s, hs, -, hlink⟩ := h.one_state r hr
  exact ⟨r, hr, rfl, s, hs, hlink⟩

namespace Keyed.Tables

open OrderedMap

variable {t u : Tables} {cs : List Candidate} {strategy again : LinkStrategy}
  {created : List FlowRun}

/-! ### Runs whose keys are stored -/

/-- Runs whose keys are all stored are ignored. -/
theorem insertRuns_of_contains {rs : List FlowRun}
    (h : ∀ r ∈ rs, t.runKeys.contains r.key = true) : t.insertRuns rs = (.ok (), t) := by
  induction rs with
  | nil => rfl
  | cons r rs ih =>
    obtain ⟨hr, hrs⟩ := List.forall_mem_cons.1 h
    rw [insertRuns, insertRun_eq_ok.2 (.inl ⟨hr, rfl⟩)]
    exact ih hrs

/-- The second time, the runs of a batch are ignored. -/
theorem insertRuns_insertRuns {rs : List FlowRun} (h : (t.insertRuns rs).1 = .ok ()) :
    (t.insertRuns rs).2.insertRuns rs = (.ok (), (t.insertRuns rs).2) :=
  insertRuns_of_contains fun r hr => (contains_runKeys_insertRuns h).2 (.inr ⟨r, hr, rfl⟩)

/-- To have inserted the runs of candidates before makes no difference to storing them. -/
theorem materialize_insertRuns (h : (t.insertRuns (submitted cs)).1 = .ok ()) :
    (t.insertRuns (submitted cs)).2.materialize strategy cs = t.materialize strategy cs := by
  rw [materialize, materialize, insertRuns_insertRuns h]
  rcases hu : t.insertRuns (submitted cs) with ⟨e | ⟨⟩, u⟩
  · rw [hu] at h
    cases h
  · rfl

/-! ### Nothing left to do -/

/-- The keys of candidates are stored, and the runs of candidates that are stored have states. -/
structure Settled (t : Tables) (cs : List Candidate) : Prop where
  keys : ∀ c ∈ cs, t.runKeys.contains c.unlinkedRun.key = true
  states : ∀ c ∈ cs, t.runs.contains c.run.id = true → ∃ s ∈ t.states.values, s.runId = c.run.id

/-- With the keys stored, no run is fresh, so one that counts as new would be stored and without
states. -/
theorem Settled.not_isNew (h : t.Settled cs) (ht : t.WellFormed) (runId : String) :
    ¬ t.IsNew cs runId := by
  rintro ⟨⟨c, hc, rfl⟩, hstored | ⟨before, r, after, hsplit, hfresh, -⟩, hnone⟩
  · obtain ⟨s, hs, hrun⟩ := h.states c hc hstored
    exact hnone s hs hrun
  · have hr : r ∈ submitted cs := by simp [hsplit]
    obtain ⟨d, hd, rfl⟩ := List.mem_map.1 hr
    obtain ⟨q, hq, hkey⟩ := (ht.runKey_iff _).1 (h.keys d hd)
    exact hfresh q (List.mem_append_left _ hq) hkey

/-- Candidates with nothing left to do are stored without any effect. -/
theorem materialize_of_settled (h : t.Settled cs) (ht : t.WellFormed) :
    t.materialize strategy cs = (.ok [], t) := by
  have hruns : t.insertRuns (submitted cs) = (.ok (), t) := by
    refine insertRuns_of_contains fun r hr => ?_
    obtain ⟨c, hc, rfl⟩ := List.mem_map.1 hr
    exact h.keys c hc
  have hnil : t.newCandidates cs = [] := by
    rw [newCandidates, List.filter_eq_nil_iff]
    intro c hc
    simpa using h.not_isNew ht c.run.id
  simp only [materialize_eq ht, hruns, newStates, hnil, List.map_nil, insertStates, linkStates_nil]

theorem contains_runs_linkStates (t : Tables) (strategy : LinkStrategy) (ids : List String)
    (runId : String) : (t.linkStates strategy ids).runs.contains runId = t.runs.contains runId := by
  refine linkStates_keeps (P := fun u => u.runs.contains runId = t.runs.contains runId) ?_ strategy
    ids rfl
  intro u id stateId hu
  rw [← hu]
  exact contains_modify _ _ _ _

theorem Settled.linkStates (h : t.Settled cs) (strategy : LinkStrategy) (ids : List String) :
    (t.linkStates strategy ids).Settled cs where
  keys := by
    obtain ⟨runs, hu⟩ := linkStates_frame t strategy ids
    rw [hu]
    exact h.keys
  states := by
    intro c hc hstored
    rw [contains_runs_linkStates] at hstored
    obtain ⟨runs, hu⟩ := linkStates_frame t strategy ids
    rw [hu]
    exact h.states c hc hstored

section Accepted

variable (ht : t.WellFormed) (hruns : (t.insertRuns (submitted cs)).1 = .ok ())
  (hstates : ((t.insertRuns (submitted cs)).2.insertStates (t.newStates cs)).1 = .ok ())

include ht hruns hstates in
/-- As soon as their states are there, candidates have nothing left to do. -/
theorem settled_unlinked : (t.unlinked cs).Settled cs where
  keys := by
    intro c hc
    obtain ⟨states, statesByRun, hu⟩ :=
      insertStates_frame (t.insertRuns (submitted cs)).2 (t.newStates cs)
    rw [unlinked, hu]
    exact (contains_runKeys_insertRuns hruns).2 (.inr ⟨_, List.mem_map_of_mem hc, rfl⟩)
  states := by
    intro c hc hstored
    rw [runs_insertStates, contains_runs_insertRuns ht hruns] at hstored
    -- a run that had no state before is new, and what is new has got its first state
    by_cases hold : ∃ s ∈ t.states.values, s.runId = c.run.id
    · obtain ⟨s, hs, hrun⟩ := hold
      obtain ⟨id, hid⟩ := mem_values.1 hs
      exact ⟨s, mem_values.2 ⟨id, (get?_states_unlinked hstates).2 (.inl hid)⟩, hrun⟩
    · have hnew : t.IsNew cs c.run.id := ⟨⟨c, hc, rfl⟩, hstored, fun s hs e => hold ⟨s, hs, e⟩⟩
      obtain ⟨d, hd, hdc⟩ := exists_newCandidate hnew
      exact ⟨d.firstState, mem_values.2 ⟨_, get?_state_of_newCandidate hstates hd⟩, hdc⟩

end Accepted

/-! ### Attempts that stop -/

/-- The tables after an attempt to store candidates that stops after a number of writes: of the
runs, of the states, and of the links between them. -/
def afterWrites (t : Tables) (strategy : LinkStrategy) (cs : List Candidate) : Nat → Tables
  | 0 => t
  | 1 => (t.insertRuns (submitted cs)).2
  | 2 => t.unlinked cs
  | _ + 3 => (t.materialize strategy cs).2

theorem afterWrites_nil (t : Tables) (strategy : LinkStrategy) (n : Nat) :
    t.afterWrites strategy [] n = t := by
  match n with
  | 0 | 1 | 2 => rfl
  | n + 3 => rw [afterWrites, materialize_nil]

/-- With nothing new, no states and no links are written. -/
theorem afterWrites_of_newCandidates_eq_nil (hnil : t.newCandidates cs = [])
    (hu : (t.materialize strategy cs).2 = (t.unlinked cs).linkStates strategy (t.newStateIds cs))
    (n : Nat) : t.afterWrites strategy cs (n + 1) = (t.insertRuns (submitted cs)).2 := by
  have hstates : t.unlinked cs = (t.insertRuns (submitted cs)).2 := by
    rw [unlinked, newStates, hnil]
    rfl
  rcases n with _ | _ | n
  · rfl
  · exact hstates
  · rw [afterWrites, hu, newStateIds, hnil, List.map_nil, linkStates_nil, hstates]

theorem WellFormed.materialize (ht : t.WellFormed)
    (h : (t.materialize strategy cs).1 = .ok created) :
    (t.materialize strategy cs).2.WellFormed := (materialized_of_ok ht h).wellFormed

theorem settled_materialize (ht : t.WellFormed) (h : (t.materialize strategy cs).1 = .ok created) :
    (t.materialize strategy cs).2.Settled cs := by
  obtain ⟨hruns, hstates, -, hu⟩ := materialize_eq_ok ht h
  rw [hu]
  exact (settled_unlinked ht hruns hstates).linkStates strategy _

/-- A second attempt succeeds wherever the first one has stopped. It comes to the same tables as one
that does not stop, unless the first one has written the states and not linked them: then these
tables stay as they are. -/
theorem materialize_afterWrites (ht : t.WellFormed)
    (h : (t.materialize strategy cs).1 = .ok created) (again : LinkStrategy) (n : Nat) :
    (t.afterWrites strategy cs n).materialize again cs =
      (.ok (if n < 2 then created else []),
        if n = 2 then t.unlinked cs else (t.materialize strategy cs).2) := by
  obtain ⟨hruns, hstates, -, hu⟩ := materialize_eq_ok ht h
  have hsame : t.materialize again cs = (.ok created, (t.materialize strategy cs).2) := by
    rw [materialize_congr ht again strategy, ← h]
  match n with
  | 0 => exact hsame
  | 1 =>
    rw [afterWrites, materialize_insertRuns hruns]
    exact hsame
  | 2 => exact materialize_of_settled (settled_unlinked ht hruns hstates) (wellFormed_unlinked ht)
  | n + 3 =>
    rw [afterWrites, materialize_of_settled (settled_materialize ht h) (ht.materialize h),
      if_neg (by omega), if_neg (by omega)]

/-- Where nothing is stored, a single candidate clashes with nothing. -/
theorem not_clash_singleton (hruns : t.runs = .empty) (hstates : t.states = .empty)
    (c : Candidate) : ¬ t.Clash [c] := by
  have hsub : (t.newStates [c]).Sublist [c.firstState] :=
    (List.filter_sublist.trans (firsts_sublist [c])).map Candidate.firstState
  rintro (⟨before, r, after, hsplit, -, htaken⟩ | ⟨before, s, after, hsplit, htaken⟩)
  · have hbefore : before = [] := by
      cases before with
      | nil => rfl
      | cons p before => simp at hsplit
    subst hbefore
    rcases htaken with hstored | hsomewhere
    · simp [hruns] at hstored
    · exact Somewhere.nil hsomewhere
  · rw [hsplit] at hsub
    have hbefore : before = [] := by
      have hlength := hsub.length_le
      simp only [List.length_append, List.length_cons, List.length_nil] at hlength
      exact List.length_eq_zero_iff.1 (by omega)
    subst hbefore
    rcases htaken with hstored | ⟨q, hq, -⟩
    · simp [hstates] at hstored
    · cases hq

theorem exists_materialize_singleton (ht : t.WellFormed) (hruns : t.runs = .empty)
    (hstates : t.states = .empty) (strategy : LinkStrategy) (c : Candidate) :
    ∃ created, (t.materialize strategy [c]).1 = .ok created := by
  cases hresult : (t.materialize strategy [c]).1 with
  | error e =>
    exact absurd ((materialize_refused_iff ht strategy [c]).1 ⟨e, hresult⟩)
      (not_clash_singleton hruns hstates c)
  | ok created => exact ⟨created, rfl⟩

/-! ### What the second attempt leaves -/

/-- A candidate whose key is stored among healthy rows has its run there. -/
theorem Healthy.exists_run (h : t.Healthy) {c : Candidate} (hc : c.Genuine)
    (hkey : t.runKeys.contains c.unlinkedRun.key = true) :
    ∃ r ∈ t.runs.values, r.id = c.run.id := by
  obtain ⟨r, hr, hrkey⟩ := (h.wellFormed.runKey_iff _).1 hkey
  have hnamed : c.unlinkedRun.Named := hc.id_eq
  exact ⟨r, hr, (h.named r hr).id_eq hnamed hrkey⟩

section Rerun

variable (h : t.Healthy) (hcs : ∀ c ∈ cs, c.Genuine)
  (hok : (t.materialize strategy cs).1 = .ok created)

include h hcs hok in
/-- An attempt that does not stop links the run of each candidate to its one state. -/
theorem ownsOne_materialize {c : Candidate} (hc : c ∈ cs) :
    OwnsOne (t.materialize strategy cs).2.runs.values (t.materialize strategy cs).2.states.values
      c.run.id true := by
  have hhealthy := h.of_materialized hcs (materialized_of_ok h.wellFormed hok)
  have hkey := (settled_materialize h.wellFormed hok).keys c hc
  obtain ⟨r, hr, hid⟩ := hhealthy.exists_run (hcs c hc) hkey
  rw [← hid]
  exact hhealthy.sound.ownsOne hr

include h hok in
/-- What is stored when an attempt stops before it links was stored before, or points at nothing. -/
theorem get?_runs_unlinked {runId : String} {r : FlowRun}
    (hr : (t.unlinked cs).runs.get? runId = some r) :
    t.runs.get? runId = some r ∨ t.runs.get? runId = none ∧ r.stateId = none := by
  obtain ⟨hruns, -, -, -⟩ := materialize_eq_ok h.wellFormed hok
  rw [runs_insertStates] at hr
  have hiff : ∀ q, (t.insertRuns (submitted cs)).2.runs.get? runId = some q ↔ _ := fun q =>
    get?_runs_insertRuns h.wellFormed hruns
  cases hold : t.runs.get? runId with
  | some p =>
    rw [(hiff p).2 (.inl hold)] at hr
    exact .inl hr
  | none =>
    rcases (hiff r).1 hr with hr | ⟨before, q, after, hsplit, -, rfl, -⟩
    · rw [hold] at hr
      cases hr
    · have hmem : q ∈ submitted cs := by simp [hsplit]
      obtain ⟨c, -, rfl⟩ := List.mem_map.1 hmem
      exact .inr ⟨rfl, rfl⟩

include h hcs hok in
/-- An attempt that stops before it links leaves every candidate's run with its one state, and
points none of the runs at it that have not been stored before. -/
theorem ownsOne_unlinked {c : Candidate} (hc : c ∈ cs) :
    OwnsOne (t.unlinked cs).runs.values (t.unlinked cs).states.values c.run.id
      (t.runs.contains c.run.id) := by
  have hmaterialized := materialized_of_ok h.wellFormed hok
  obtain ⟨hruns, hstates, -, hu⟩ := materialize_eq_ok h.wellFormed hok
  obtain ⟨r, hr, hid, s, hs, hlink⟩ := ownsOne_materialize h hcs hok hc
  have hget := (h.of_materialized hcs hmaterialized).wellFormed.holds_runs.get?_of_mem hr
  -- linking leaves the states alone, and no run goes away
  have hstates_eq : (t.unlinked cs).states = (t.materialize strategy cs).2.states := by
    obtain ⟨runs, hframe⟩ := linkStates_frame (t.unlinked cs) strategy (t.newStateIds cs)
    rw [hu, hframe]
  have hstored : (t.unlinked cs).runs.contains c.run.id = true := by
    rw [← contains_runs_linkStates _ strategy (t.newStateIds cs), ← hu, contains_iff]
    exact ⟨r, hid ▸ hget⟩
  obtain ⟨q, hq⟩ := contains_iff.1 hstored
  have hqid : q.id = c.run.id := (wellFormed_unlinked h.wellFormed).run_id hq
  refine ⟨q, mem_values.2 ⟨_, hq⟩, hqid, s, by rw [hstates_eq]; exact hs, ?_⟩
  rcases get?_runs_unlinked h hok hq with hold | ⟨hnone, hnull⟩
  · have hnot : ¬ t.IsNew cs c.run.id := by
      intro hnew
      rw [h.get?_of_isNew hnew] at hold
      cases hold
    have hrq : some r = some q := by
      rw [← hget, hid, hmaterialized.other_run _ hnot, hold]
    rw [contains_iff.2 ⟨q, hold⟩, ← Option.some.inj hrq]
    exact hlink
  · rw [contains_eq_false_iff.2 hnone]
    exact hnull

end Rerun

end Keyed.Tables

end Timetable
