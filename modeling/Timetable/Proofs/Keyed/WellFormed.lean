import Timetable.Keyed.Tables
import Timetable.Proofs.OrderedMap

/-!
# Tables and their indexes agree

`Tables.WellFormed` says that every record stands under its own id, that records refer to records
that are there, and that each index lists exactly what its table holds. Every operation that is
accepted is described by one lemma (`insertDeployment_eq_ok` and its like), and from these follows
that each keeps the tables well formed.
-/

namespace Timetable.Keyed.Tables

open OrderedMap

/-- Every record stands under its id, refers to records that are stored, and is found in the
indexes, which list nothing else. -/
structure WellFormed (t : Tables) : Prop where
  deployment_id : ∀ {id d}, t.deployments.get? id = some d → d.id = id
  name_iff : ∀ n, t.names.contains n = true ↔ ∃ d ∈ t.deployments.values, d.name = n
  name_inj : ∀ {d e}, d ∈ t.deployments.values → e ∈ t.deployments.values → d.name = e.name → d = e
  schedule_id : ∀ {id s}, t.schedules.get? id = some s → s.id = id
  schedule_deployment :
    ∀ {s}, s ∈ t.schedules.values → t.deployments.contains s.deploymentId = true
  schedule_interval : ∀ {s}, s ∈ t.schedules.values → s.intervalSeconds ≠ 0
  run_id : ∀ {id r}, t.runs.get? id = some r → r.id = id
  runKey_iff : ∀ k, t.runKeys.contains k = true ↔ ∃ r ∈ t.runs.values, r.key = k
  key_inj : ∀ {r q}, r ∈ t.runs.values → q ∈ t.runs.values → r.key = q.key → r = q
  state_id : ∀ {id s}, t.states.get? id = some s → s.id = id
  state_run : ∀ {s}, s ∈ t.states.values → t.runs.contains s.runId = true
  mem_stateIds : ∀ runId id, id ∈ t.stateIds runId ↔ ∃ s, t.states.get? id = some s ∧ s.runId = runId
  nodup_stateIds : ∀ runId, (t.stateIds runId).Nodup

theorem wellFormed_empty : empty.WellFormed where
  deployment_id h := by cases h
  name_iff n := by simp [empty]
  name_inj h := by simp [empty] at h
  schedule_id h := by cases h
  schedule_deployment h := by simp [empty] at h
  schedule_interval h := by simp [empty] at h
  run_id h := by cases h
  runKey_iff k := by simp [empty]
  key_inj h := by simp [empty] at h
  state_id h := by cases h
  state_run h := by simp [empty] at h
  mem_stateIds runId id := by simp [empty, stateIds]
  nodup_stateIds runId := by simp [empty, stateIds]

/-! ### What an accepted operation does -/

section Accepted

variable {t u : Tables}

theorem insertDeployment_eq_ok {d : Deployment} :
    t.insertDeployment d = .ok u ↔
      t.deployments.get? d.id = none ∧ t.names.contains d.name = false ∧
        u = { t with
          deployments := t.deployments.insert d.id d
          names := t.names.insert d.name () } := by
  rw [insertDeployment, ← contains_eq_false_iff]
  cases t.deployments.contains d.id <;> cases t.names.contains d.name <;> simp [eq_comm]

theorem deleteDeployment_eq_ok {id : String} :
    t.deleteDeployment id = .ok u ↔
      ∃ d, t.deployments.get? id = some d ∧
        u = { t with
          deployments := t.deployments.erase id
          names := t.names.erase d.name
          schedules := t.schedules.filter fun _ s => s.deploymentId ≠ id } := by
  rw [deleteDeployment]
  cases t.deployments.get? id <;> simp [eq_comm]

theorem insertSchedule_eq_ok {s : Schedule} :
    t.insertSchedule s = .ok u ↔
      t.deployments.contains s.deploymentId = true ∧ t.schedules.get? s.id = none ∧
        s.intervalSeconds ≠ 0 ∧ u = { t with schedules := t.schedules.insert s.id s } := by
  rw [insertSchedule, ← contains_eq_false_iff]
  cases t.deployments.contains s.deploymentId <;> cases t.schedules.contains s.id <;>
    by_cases h : s.intervalSeconds = 0 <;> simp [h, eq_comm]

theorem deleteSchedule_eq_ok {id : String} :
    t.deleteSchedule id = .ok u ↔
      t.schedules.contains id = true ∧ u = { t with schedules := t.schedules.erase id } := by
  rw [deleteSchedule]
  cases t.schedules.contains id <;> simp [eq_comm]

theorem insertRun_eq_ok {r : FlowRun} :
    t.insertRun r = .ok u ↔
      t.runKeys.contains r.key = true ∧ u = t ∨
        t.runKeys.contains r.key = false ∧ t.runs.get? r.id = none ∧
          u = { t with runs := t.runs.insert r.id r, runKeys := t.runKeys.insert r.key () } := by
  rw [insertRun, ← contains_eq_false_iff]
  cases t.runKeys.contains r.key <;> cases t.runs.contains r.id <;> simp [eq_comm]

theorem insertState_eq_ok {s : RunState} :
    t.insertState s = .ok u ↔
      t.runs.contains s.runId = true ∧ t.states.get? s.id = none ∧
        u = { t with
          states := t.states.insert s.id s
          statesByRun := t.statesByRun.insert s.runId (t.stateIds s.runId ++ [s.id]) } := by
  rw [insertState, ← contains_eq_false_iff]
  cases t.runs.contains s.runId <;> cases t.states.contains s.id <;> simp [eq_comm]

end Accepted

/-! ### Every operation keeps the tables well formed -/

namespace WellFormed

variable {t u : Tables}

theorem holds_runs (ht : t.WellFormed) : Holds t.runs FlowRun.id t.runs.values :=
  .values fun _ _ => ht.run_id

theorem holds_states (ht : t.WellFormed) : Holds t.states RunState.id t.states.values :=
  .values fun _ _ => ht.state_id

theorem nodup_keys (ht : t.WellFormed) : (t.runs.values.map FlowRun.key).Nodup :=
  ht.holds_runs.nodup.of_map.map_on fun _ hr _ hq => ht.key_inj hr hq

theorem indexes_names (ht : t.WellFormed) : Indexes t.names Deployment.name t.deployments :=
  ⟨ht.name_iff, ht.name_inj⟩

theorem indexes_runKeys (ht : t.WellFormed) : Indexes t.runKeys FlowRun.key t.runs :=
  ⟨ht.runKey_iff, ht.key_inj⟩

/-- The index lists the states that belong to a run, in whatever rows they stand. -/
theorem perm_states_of_run (ht : t.WellFormed) {rows : List RunState}
    (h : Holds t.states RunState.id rows) (runId : String) :
    ((t.stateIds runId).filterMap t.states.get?).Perm (rows.filter (·.runId == runId)) := by
  have hnodup : ((t.stateIds runId).filterMap t.states.get?).Nodup := by
    refine (ht.nodup_stateIds runId).filterMap ?_
    intro a b s hs hs'
    rw [← ht.state_id hs, ht.state_id hs']
  rw [List.perm_ext_iff_of_nodup hnodup (h.nodup.of_map.filter _)]
  intro s
  simp only [List.mem_filterMap, ht.mem_stateIds, h.get?_iff, List.mem_filter, beq_iff_eq]
  constructor
  · rintro ⟨id, ⟨q, ⟨hq, hqid⟩, hrun⟩, hs, hsid⟩
    obtain rfl : q = s := List.inj_on_of_nodup_map h.nodup hq hs (hqid.trans hsid.symm)
    exact ⟨hs, hrun⟩
  · rintro ⟨hs, hrun⟩
    exact ⟨s.id, ⟨s, ⟨hs, rfl⟩, hrun⟩, hs, rfl⟩

theorem insertDeployment (ht : t.WellFormed) {d : Deployment} (h : t.insertDeployment d = .ok u) :
    u.WellFormed := by
  obtain ⟨hid, hname, rfl⟩ := insertDeployment_eq_ok.1 h
  have hindex := ht.indexes_names.insert hid hname
  exact {
    ht with
    deployment_id := id_eq_of_insert ht.deployment_id
    name_iff := hindex.contains_iff
    name_inj := hindex.inj
    schedule_deployment := by
      intro s hs
      rw [contains_insert]
      exact .inr (ht.schedule_deployment hs) }

theorem deleteDeployment (ht : t.WellFormed) {id : String} (h : t.deleteDeployment id = .ok u) :
    u.WellFormed := by
  obtain ⟨d, hd, rfl⟩ := deleteDeployment_eq_ok.1 h
  have hindex := ht.indexes_names.erase ht.deployment_id hd
  exact {
    ht with
    deployment_id := id_eq_of_erase ht.deployment_id
    name_iff := hindex.contains_iff
    name_inj := hindex.inj
    schedule_id := id_eq_of_filter ht.schedule_id
    schedule_deployment := by
      -- the schedules of the deployment go with it, so those that stay belong to another one
      intro s hs
      obtain ⟨hs, hne⟩ := mem_values_filter.1 hs
      rw [contains_erase]
      exact ⟨by simpa using hne, ht.schedule_deployment hs⟩
    schedule_interval := fun hs => ht.schedule_interval (mem_values_filter.1 hs).1 }

theorem insertSchedule (ht : t.WellFormed) {s : Schedule} (h : t.insertSchedule s = .ok u) :
    u.WellFormed := by
  obtain ⟨hd, hid, hinterval, rfl⟩ := insertSchedule_eq_ok.1 h
  exact {
    ht with
    schedule_id := id_eq_of_insert ht.schedule_id
    schedule_deployment := by
      intro q hq
      rcases (mem_values_insert hid).1 hq with hq | rfl
      · exact ht.schedule_deployment hq
      · exact hd
    schedule_interval := by
      intro q hq
      rcases (mem_values_insert hid).1 hq with hq | rfl
      · exact ht.schedule_interval hq
      · exact hinterval }

theorem deleteSchedule (ht : t.WellFormed) {id : String} (h : t.deleteSchedule id = .ok u) :
    u.WellFormed := by
  obtain ⟨-, rfl⟩ := deleteSchedule_eq_ok.1 h
  exact {
    ht with
    schedule_id := id_eq_of_erase ht.schedule_id
    schedule_deployment := fun hs => ht.schedule_deployment (mem_values_of_erase hs)
    schedule_interval := fun hs => ht.schedule_interval (mem_values_of_erase hs) }

theorem insertRun (ht : t.WellFormed) {r : FlowRun} (h : t.insertRun r = .ok u) :
    u.WellFormed := by
  rcases insertRun_eq_ok.1 h with ⟨-, rfl⟩ | ⟨hkey, hid, rfl⟩
  · -- a run whose key is taken is ignored
    exact ht
  have hindex := ht.indexes_runKeys.insert hid hkey
  exact {
    ht with
    run_id := id_eq_of_insert ht.run_id
    runKey_iff := hindex.contains_iff
    key_inj := hindex.inj
    state_run := by
      intro s hs
      rw [contains_insert]
      exact .inr (ht.state_run hs) }

theorem insertState (ht : t.WellFormed) {s : RunState} (h : t.insertState s = .ok u) :
    u.WellFormed := by
  obtain ⟨hrun, hid, rfl⟩ := insertState_eq_ok.1 h
  have hfresh : s.id ∉ t.stateIds s.runId := by
    intro hm
    obtain ⟨q, hq, -⟩ := (ht.mem_stateIds _ _).1 hm
    rw [hid] at hq
    cases hq
  exact {
    ht with
    state_id := id_eq_of_insert ht.state_id
    state_run := by
      intro q hq
      rcases (mem_values_insert hid).1 hq with hq | rfl
      · exact ht.state_run hq
      · exact hrun
    mem_stateIds := by
      intro runId id
      simp only [stateIds, get?_insert]
      have hold := ht.mem_stateIds runId id
      rw [stateIds] at hold
      -- the list of the run that the state belongs to grows, and no other list does
      by_cases hr : runId = s.runId
      · subst hr
        simp only [↓reduceIte, Option.getD_some, List.mem_append, List.mem_singleton]
        rw [hold]
        by_cases hk : id = s.id
        · simp [hk]
        · simp [hk]
      · rw [if_neg hr, hold]
        by_cases hk : id = s.id
        · subst hk
          simp [hid, Ne.symm hr]
        · simp [hk]
    nodup_stateIds := by
      intro runId
      simp only [stateIds, get?_insert]
      have hold := ht.nodup_stateIds runId
      split
      · next hr =>
        subst hr
        rw [Option.getD_some, ← stateIds, List.nodup_append]
        refine ⟨hold, by simp, ?_⟩
        intro a ha b hb e
        rw [List.mem_singleton.1 hb] at e
        exact hfresh (e ▸ ha)
      · exact hold }

/-- Setting the state that a run is in touches nothing that an index is about. -/
theorem setState (ht : t.WellFormed) (runId : String) (stateId : Option String) :
    (t.setState runId stateId).WellFormed := by
  have hindex : Indexes t.runKeys FlowRun.key (t.runs.modify runId ({ · with stateId })) :=
    ht.indexes_runKeys.modify ht.run_id (fun _ => rfl) fun _ => rfl
  exact {
    ht with
    run_id := id_eq_of_modify ht.run_id fun _ => rfl
    runKey_iff := hindex.contains_iff
    key_inj := hindex.inj
    state_run := by
      intro s hs
      rw [Tables.setState, contains_modify]
      exact ht.state_run hs }

end WellFormed

end Timetable.Keyed.Tables
