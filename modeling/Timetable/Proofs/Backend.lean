import Timetable.Proofs.Materialize
import Timetable.Proofs.Sound
import Timetable.Proofs.Transactions

/-!
# Stores to which runs are scheduled

A `Backend` is a store that works on copies whose runs and states are those of keyed tables. In its
transactions, catalogue changes leave runs and states alone, generating candidates changes nothing,
and storing them ends as it does for the keyed tables, if the store knows how to link. Scheduling
therefore adds to healthy contents exactly the runs that are returned, and leaves no key of a
candidate out (`Backend.Healthy.run_materialize`).
-/

namespace Timetable

/-- A request that changes the deployments or the schedules. -/
inductive Change
  | insertDeployment (d : Deployment)
  | deleteDeployment (id : String)
  | insertSchedule (s : Schedule)
  | deleteSchedule (id : String)

/-- Makes a change, or refuses it. -/
def Change.request [Repository σ τ] : Change → Action (σ × τ) Outcome
  | insertDeployment d => Repository.insertDeployment d
  | deleteDeployment id => Repository.deleteDeployment id
  | insertSchedule s => Repository.insertSchedule s
  | deleteSchedule id => Repository.deleteSchedule id

/-- A store that works on copies, the runs and states of which are those of keyed tables. -/
structure Backend (σ : Type) {τ : Type} [Repository σ τ] (κ : Type) extends Copying σ κ where
  runs : κ → List FlowRun
  states : κ → List RunState
  /-- The keyed tables have the runs and states of the contents. -/
  Shows : κ → Keyed.Tables → Prop
  /-- The candidates that the store keeps as they are. -/
  fits : Candidate → Prop
  /-- The strategies by which the store links. -/
  knows : LinkStrategy → Prop
  wellFormed : ∀ {w t}, Shows w t → t.WellFormed
  perm_runs : ∀ {w t}, Shows w t → t.runs.values.Perm (runs w)
  perm_states : ∀ {w t}, Shows w t → t.states.values.Perm (states w)
  run_change : ∀ {w t} c (change : Change), Shows w t → ∃ o w' t',
    change.request.run (busy c w) = (.ok o, busy c w') ∧ Shows w' t' ∧
      runs w' = runs w ∧ states w' = states w
  run_listDeployments : ∀ {w t} c offset limit, Shows w t → ∃ page,
    (Repository.listDeployments offset limit).run (busy c w) = (page, busy c w)
  run_generate : ∀ {w t} c (r : Request) now, Shows w t → ∃ x,
    (r.generate now).run (busy c w) = (x, busy c w) ∧
      ∀ cs, x = .ok cs → ∀ candidate ∈ cs, candidate.Genuine ∧ fits candidate
  run_materialize : ∀ {w t} c strategy {cs : List Candidate}, Shows w t →
    (∀ candidate ∈ cs, fits candidate) → ∃ x w',
    (materialize strategy cs).run (busy c w) = (x, busy c w') ∧
      Ending Shows (fun _ _ => True) (knows strategy) (t.materialize strategy cs) x w'

namespace Backend

variable {σ τ κ : Type} [Repository σ τ] (B : Backend σ κ) {c w w' : κ}

/-- The contents show keyed tables, their runs and states are sound, and each run has the id that its
key determines. -/
structure Healthy (w : κ) : Prop where
  shows : ∃ t, B.Shows w t
  sound : Sound (B.runs w) (B.states w)
  named : ∀ r ∈ B.runs w, r.Named

/-- Contents have got more runs, and what was there before is still there. -/
structure Grown (w : κ) (created : List FlowRun) (w' : κ) : Prop where
  healthy : B.Healthy w'
  perm_runs : (B.runs w').Perm (B.runs w ++ created)
  states_subset : B.states w ⊆ B.states w'

/-- Candidates have been stored: each of the runs that there are more is that of a candidate, and the
keys of all candidates are there. -/
structure Added (w : κ) (cs : List Candidate) (created : List FlowRun) (w' : κ) : Prop
    extends B.Grown w created w' where
  exists_candidate : ∀ r ∈ created, ∃ candidate ∈ cs, candidate.linkedRun = r
  exists_run : ∀ candidate ∈ cs, ∃ r ∈ B.runs w', r.key = candidate.run.key

variable {B}

theorem Healthy.tables (h : B.Healthy w) {t : Keyed.Tables} (ht : B.Shows w t) : t.Healthy where
  wellFormed := B.wellFormed ht
  sound := h.sound.perm (B.perm_runs ht).symm (B.perm_states ht).symm
  named := fun r hr => h.named r ((B.perm_runs ht).mem_iff.1 hr)

theorem healthy_of_tables {t : Keyed.Tables} (ht : B.Shows w t) (h : t.Healthy) : B.Healthy w where
  shows := ⟨t, ht⟩
  sound := h.sound.perm (B.perm_runs ht) (B.perm_states ht)
  named := fun r hr => h.named r ((B.perm_runs ht).mem_iff.2 hr)

/-- Contents without runs are healthy, since a state would belong to a run. -/
theorem healthy_of_runs_eq_nil {t : Keyed.Tables} (ht : B.Shows w t) (h : B.runs w = []) :
    B.Healthy w := by
  have hruns : t.runs.values = [] := by
    have hperm := B.perm_runs ht
    rw [h] at hperm
    exact hperm.eq_nil
  have hstates : t.states.values = [] := by
    rw [List.eq_nil_iff_forall_not_mem]
    intro s hs
    obtain ⟨r, hr⟩ := OrderedMap.contains_iff.1 ((B.wellFormed ht).state_run hs)
    have hmem : r ∈ t.runs.values := OrderedMap.mem_values.2 ⟨_, hr⟩
    simp [hruns] at hmem
  refine healthy_of_tables ht ⟨B.wellFormed ht, ?_, ?_⟩
  · rw [hruns, hstates]
    exact .nil
  · simp [hruns]

/-- Generated candidates that are accepted are stored, and the runs that are returned are new. -/
theorem Healthy.run_materialize (h : B.Healthy w) (c : κ) (strategy : LinkStrategy)
    {cs : List Candidate} (hcs : ∀ candidate ∈ cs, candidate.Genuine ∧ B.fits candidate) :
    ∃ x w', (materialize strategy cs).run (B.busy c w) = (x, B.busy c w') ∧
      ∀ created, x = .ok created → B.Added w cs created w' := by
  obtain ⟨t, ht⟩ := h.shows
  obtain ⟨x, w', hrun, hending⟩ :=
    B.run_materialize c strategy ht fun candidate hc => (hcs candidate hc).2
  refine ⟨x, w', hrun, ?_⟩
  rintro created rfl
  obtain ⟨hcreated, ht', -⟩ := hending.of_ok
  have hgenuine : ∀ candidate ∈ cs, candidate.Genuine := fun candidate hc =>
    (hcs candidate hc).1
  have hmaterialized := Keyed.Tables.materialized_of_ok (B.wellFormed ht) hcreated
  have hruns := Keyed.Tables.perm_runs (h.tables ht) hgenuine hmaterialized
  have hstates := Keyed.Tables.perm_states (h.tables ht) hmaterialized
  exact {
    healthy := healthy_of_tables ht' ((h.tables ht).of_materialized hgenuine hmaterialized)
    perm_runs := (B.perm_runs ht').symm.trans (hruns.trans ((B.perm_runs ht).append_right created))
    states_subset := by
      intro s hs
      rw [← (B.perm_states ht').mem_iff, hstates.mem_iff, List.mem_append]
      exact .inl ((B.perm_states ht).mem_iff.2 hs)
    exists_candidate := by
      intro r hr
      rw [hmaterialized.created_eq] at hr
      obtain ⟨candidate, hc, rfl⟩ := List.mem_map.1 hr
      exact ⟨candidate, Keyed.Tables.mem_of_mem_newCandidates hc, rfl⟩
    exists_run := by
      intro candidate hc
      obtain ⟨r, hr, hkey⟩ := Keyed.Tables.exists_run_of_ok (B.wellFormed ht) hcreated hc
      exact ⟨r, (B.perm_runs ht').mem_iff.1 hr, hkey⟩ }

end Backend

end Timetable
