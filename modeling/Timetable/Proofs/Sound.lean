import Timetable.Proofs.Keyed.Materialize
import Timetable.Proofs.Occurrence

/-!
# What scheduling keeps true of runs and states

`Sound` says of the rows of runs and of states that every run waits in the one state that it owns.
Storing generated candidates keeps this true and takes nothing away: the rows afterwards are the
rows from before, the runs that are returned, and one state for each of these
(`perm_runs`, `perm_states`). No two keys need to have different ids for that; if two with the same id
meet, storing is refused.
-/

namespace Timetable

/-- Every run owns one state, in which it waits and to which it points; runs have keys of their own,
and states belong to runs. -/
structure Sound (runs : List FlowRun) (states : List RunState) : Prop where
  nodup_keys : (runs.map FlowRun.key).Nodup
  one_state : ∀ r ∈ runs, ∃ s, states.filter (·.runId == r.id) = [s] ∧
    s.kind = RunState.scheduled ∧ r.stateId = some s.id
  state_run : ∀ s ∈ states, ∃ r ∈ runs, r.id = s.runId

/-- A run has the id that its key determines. -/
def FlowRun.Named (r : FlowRun) : Prop := r.id = Occurrence.runId r.flowId r.idempotencyKey

theorem FlowRun.Named.id_eq {r q : FlowRun} (hr : r.Named) (hq : q.Named) (h : r.key = q.key) :
    r.id = q.id := by
  injection h with hflow hkey
  rw [hr, hq, hflow, hkey]

theorem Sound.nil : Sound [] [] := ⟨List.nodup_nil, by simp, by simp⟩

/-- It does not matter in which order the rows stand. -/
theorem Sound.perm {runs runs' : List FlowRun} {states states' : List RunState}
    (h : Sound runs states) (hruns : runs.Perm runs') (hstates : states.Perm states') :
    Sound runs' states' where
  nodup_keys := (hruns.map FlowRun.key).nodup_iff.1 h.nodup_keys
  one_state := by
    intro r hr
    obtain ⟨s, hs, hkind, hlink⟩ := h.one_state r (hruns.mem_iff.2 hr)
    have hperm := hstates.filter (·.runId == r.id)
    rw [hs] at hperm
    exact ⟨s, List.perm_singleton.1 hperm.symm, hkind, hlink⟩
  state_run := by
    intro s hs
    obtain ⟨r, hr, hrun⟩ := h.state_run s (hstates.mem_iff.2 hs)
    exact ⟨r, hruns.mem_iff.1 hr, hrun⟩

/-- A first candidate stands before all others of its run. -/
theorem exists_split_of_mem_firsts {c : Candidate} :
    ∀ {cs : List Candidate}, c ∈ firsts cs →
      ∃ before after, cs = before ++ c :: after ∧ ∀ d ∈ before, d.run.id ≠ c.run.id
  | d :: cs, h => by
    rw [firsts, List.mem_cons, List.mem_filter] at h
    rcases h with rfl | ⟨hc, hne⟩
    · exact ⟨[], cs, rfl, by simp⟩
    · obtain ⟨before, after, rfl, hbefore⟩ := exists_split_of_mem_firsts hc
      refine ⟨d :: before, after, rfl, ?_⟩
      rw [List.forall_mem_cons]
      exact ⟨fun e => by simp [e] at hne, hbefore⟩

namespace Keyed.Tables

open OrderedMap

variable {t u : Tables} {strategy : LinkStrategy} {cs : List Candidate} {created : List FlowRun}

/-- The runs and states of tables are sound. -/
structure Healthy (t : Tables) : Prop where
  wellFormed : t.WellFormed
  sound : Sound t.runs.values t.states.values
  named : ∀ r ∈ t.runs.values, r.Named

/-- A run that is stored has a state, so one that is new is not stored. -/
theorem Healthy.get?_of_isNew (h : t.Healthy) {runId : String} (hnew : t.IsNew cs runId) :
    t.runs.get? runId = none := by
  cases hr : t.runs.get? runId with
  | none => rfl
  | some r =>
    obtain ⟨s, hs, -⟩ := h.sound.one_state r (mem_values.2 ⟨runId, hr⟩)
    have hmem : s ∈ t.states.values.filter (·.runId == r.id) := by
      rw [hs]
      simp
    obtain ⟨hs, hrun⟩ := List.mem_filter.1 hmem
    rw [beq_iff_eq, h.wellFormed.run_id hr] at hrun
    exact absurd hrun (hnew.2.2 s hs)

/-- The first of the new candidates of a run is the one whose run is recorded. -/
theorem Healthy.recorded (h : t.Healthy) (hcs : ∀ c ∈ cs, c.Genuine) {c : Candidate}
    (hc : c ∈ t.newCandidates cs) : t.Recorded cs c.unlinkedRun := by
  have hnone := h.get?_of_isNew (isNew_of_mem_newCandidates hc)
  have hnamed : c.unlinkedRun.Named := (hcs c (mem_of_mem_newCandidates hc)).id_eq
  obtain ⟨before, after, hsplit, hbefore⟩ := exists_split_of_mem_firsts (List.mem_filter.1 hc).1
  refine .inr ⟨before.map Candidate.unlinkedRun, c.unlinkedRun, after.map Candidate.unlinkedRun,
    by simp [submitted, hsplit], ?_, rfl⟩
  intro q hq hkey
  -- a run with the same key has the same id, so it is neither stored nor submitted before
  rcases List.mem_append.1 hq with hq | hq
  · have hid : q.id = c.run.id := (h.named q hq).id_eq hnamed hkey
    obtain ⟨k, hk⟩ := mem_values.1 hq
    rw [← hid, h.wellFormed.run_id hk, hk] at hnone
    cases hnone
  · obtain ⟨d, hd, rfl⟩ := List.mem_map.1 hq
    have hdcs : d ∈ cs := by simp [hsplit, hd]
    exact hbefore d hd (FlowRun.Named.id_eq (hcs d hdcs).id_eq hnamed hkey)

section Grown

variable (h : t.Healthy) (hcs : ∀ c ∈ cs, c.Genuine) (hu : Materialized t cs created u)

include h hcs hu in
theorem mem_runs_iff {r : FlowRun} :
    r ∈ u.runs.values ↔ r ∈ t.runs.values ∨ r ∈ created := by
  have hnew : ∀ c ∈ t.newCandidates cs, u.runs.get? c.run.id = some c.linkedRun := fun c hc =>
    hu.new_run c hc c.unlinkedRun (h.recorded hcs hc) rfl
  rw [hu.created_eq, List.mem_map]
  constructor
  · intro hr
    obtain ⟨id, hid⟩ := mem_values.1 hr
    -- a run that is not new is as it was, and one that is new is the one that is returned
    by_cases hisnew : t.IsNew cs id
    · obtain ⟨c, hc, rfl⟩ := exists_newCandidate hisnew
      rw [hnew c hc] at hid
      exact .inr ⟨c, hc, Option.some.inj hid⟩
    · rw [hu.other_run id hisnew] at hid
      exact .inl (mem_values.2 ⟨id, hid⟩)
  · rintro (hr | ⟨c, hc, rfl⟩)
    · obtain ⟨id, hid⟩ := mem_values.1 hr
      have hold : ¬ t.IsNew cs id := by
        intro hisnew
        rw [h.get?_of_isNew hisnew] at hid
        cases hid
      rw [← hu.other_run id hold] at hid
      exact mem_values.2 ⟨id, hid⟩
    · exact mem_values.2 ⟨_, hnew c hc⟩

include hu in
theorem mem_states_iff {s : RunState} :
    s ∈ u.states.values ↔ s ∈ t.states.values ∨ s ∈ t.newStates cs := by
  simp only [mem_values, hu.state_iff, exists_or]
  refine or_congr_right ⟨?_, fun hs => ⟨s.id, hs, rfl⟩⟩
  rintro ⟨id, hs, -⟩
  exact hs

include h hu in
/-- A run that is returned has not been stored before. -/
theorem id_ne_of_mem_created {r q : FlowRun} (hr : r ∈ t.runs.values) (hq : q ∈ created) :
    r.id ≠ q.id := by
  rw [hu.created_eq] at hq
  obtain ⟨c, hc, rfl⟩ := List.mem_map.1 hq
  intro e
  have hnone := h.get?_of_isNew (isNew_of_mem_newCandidates hc)
  have hsome : t.runs.get? r.id = some r := h.wellFormed.holds_runs.get?_of_mem hr
  rw [e] at hsome
  exact absurd (hnone.symm.trans hsome) (by simp)

include h hcs hu in
/-- The stored runs are those from before and those that are returned. -/
theorem perm_runs : u.runs.values.Perm (t.runs.values ++ created) := by
  have hcreated : (created.map FlowRun.id).Nodup := by
    rw [hu.created_eq, List.map_map]
    exact nodup_newCandidates t cs
  have hids : ((t.runs.values ++ created).map FlowRun.id).Nodup := by
    rw [List.map_append, List.nodup_append]
    refine ⟨h.wellFormed.holds_runs.nodup, hcreated, ?_⟩
    intro a ha b hb
    obtain ⟨r, hr, rfl⟩ := List.mem_map.1 ha
    obtain ⟨q, hq, rfl⟩ := List.mem_map.1 hb
    exact id_ne_of_mem_created h hu hr hq
  rw [List.perm_ext_iff_of_nodup hu.wellFormed.holds_runs.nodup.of_map hids.of_map]
  intro r
  rw [mem_runs_iff h hcs hu, List.mem_append]

include h hu in
/-- The stored states are those from before and those of the new candidates. -/
theorem perm_states : u.states.values.Perm (t.states.values ++ t.newStates cs) := by
  have hnew : ((t.newStates cs).map RunState.runId).Nodup := by
    rw [newStates, List.map_map]
    exact nodup_newCandidates t cs
  have hnodup : (t.states.values ++ t.newStates cs).Nodup := by
    rw [List.nodup_append]
    refine ⟨?_, hnew.of_map, ?_⟩
    · exact h.wellFormed.holds_states.nodup.of_map
    rintro s hs q hq rfl
    obtain ⟨c, hc, rfl⟩ := List.mem_map.1 hq
    exact (isNew_of_mem_newCandidates hc).2.2 _ hs rfl
  rw [List.perm_ext_iff_of_nodup hu.wellFormed.holds_states.nodup.of_map hnodup]
  intro s
  rw [mem_states_iff hu, List.mem_append]

include h hu in
/-- A run from before owns no new state. -/
theorem filter_newStates_of_mem {r : FlowRun} (hr : r ∈ t.runs.values) :
    (t.newStates cs).filter (·.runId == r.id) = [] := by
  rw [List.filter_eq_nil_iff]
  intro s hs e
  obtain ⟨c, hc, rfl⟩ := List.mem_map.1 hs
  have hcreated : c.linkedRun ∈ created := by
    rw [hu.created_eq]
    exact List.mem_map.2 ⟨c, hc, rfl⟩
  exact id_ne_of_mem_created h hu hr hcreated (beq_iff_eq.1 e).symm

/-- A new run owns no state from before. -/
theorem filter_states_of_mem_newCandidates {c : Candidate} (hc : c ∈ t.newCandidates cs) :
    t.states.values.filter (·.runId == c.run.id) = [] := by
  rw [List.filter_eq_nil_iff]
  intro s hs e
  exact (isNew_of_mem_newCandidates hc).2.2 s hs (beq_iff_eq.1 e)

include h hcs hu in
/-- What is stored after generated candidates have been stored is sound. -/
theorem sound_of_materialized :
    Sound (t.runs.values ++ created) (t.states.values ++ t.newStates cs) where
  nodup_keys := ((perm_runs h hcs hu).map FlowRun.key).nodup_iff.1 hu.wellFormed.nodup_keys
  one_state := by
    intro r hr
    rw [List.filter_append]
    rcases List.mem_append.1 hr with hr | hr
    · obtain ⟨s, hs, hrest⟩ := h.sound.one_state r hr
      rw [hs, filter_newStates_of_mem h hu hr]
      exact ⟨s, rfl, hrest⟩
    · rw [hu.created_eq] at hr
      obtain ⟨c, hc, rfl⟩ := List.mem_map.1 hr
      have hold : t.states.values.filter (·.runId == c.linkedRun.id) = [] :=
        filter_states_of_mem_newCandidates hc
      have hmine : (t.newStates cs).filter (·.runId == c.linkedRun.id) = [c.firstState] :=
        filter_newStates hc
      rw [hold, hmine]
      exact ⟨c.firstState, rfl, (hcs c (mem_of_mem_newCandidates hc)).kind_eq, rfl⟩
  state_run := by
    intro s hs
    rcases List.mem_append.1 hs with hs | hs
    · obtain ⟨r, hr, hrun⟩ := h.sound.state_run s hs
      exact ⟨r, List.mem_append_left _ hr, hrun⟩
    · obtain ⟨c, hc, rfl⟩ := List.mem_map.1 hs
      refine ⟨c.linkedRun, List.mem_append_right _ ?_, rfl⟩
      rw [hu.created_eq]
      exact List.mem_map.2 ⟨c, hc, rfl⟩

include h hcs hu in
/-- Storing generated candidates leaves healthy tables healthy. -/
theorem Healthy.of_materialized : u.Healthy where
  wellFormed := hu.wellFormed
  sound := (sound_of_materialized h hcs hu).perm (perm_runs h hcs hu).symm (perm_states h hu).symm
  named := by
    intro r hr
    rcases (mem_runs_iff h hcs hu).1 hr with hr | hr
    · exact h.named r hr
    · rw [hu.created_eq] at hr
      obtain ⟨c, hc, rfl⟩ := List.mem_map.1 hr
      exact (hcs c (mem_of_mem_newCandidates hc)).id_eq

end Grown

end Keyed.Tables

end Timetable
