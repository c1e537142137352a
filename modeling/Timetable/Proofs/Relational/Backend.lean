import Timetable.Proofs.Backend
import Timetable.Proofs.Relational.Batches

/-!
# The relational store as a backend

Its contents are rows; what they show are keyed tables with the same runs and states. Whatever is
stored has been bound, so no text of a deployment or of a schedule holds U+0000, and neither does a
candidate that is made of them.
-/

namespace Timetable.Relational

open Text

/-- The rows of runs and states are those of keyed tables, and the texts of the other rows have been
bound. -/
structure Shows (w : Tables) (t : Keyed.Tables) : Prop where
  runs : MirrorsRuns w w t
  deployments : ∀ d ∈ w.deploymentRows, ∀ x ∈ d.texts, NulFree x
  schedules : ∀ s ∈ w.scheduleRows, ∀ x ∈ s.texts, NulFree x

theorem shows_empty : Shows Tables.empty Keyed.Tables.empty where
  runs := Mirrors.empty.toMirrorsRuns
  deployments := by
    intro d hd
    cases hd
  schedules := by
    intro s hs
    cases hs

/-- Tables as the program keeps them: all are there, states belong to runs, and the texts of
deployments and schedules have been bound. -/
structure Tables.Kept (w : Tables) : Prop where
  whole : w.Whole
  state_run : ∀ s ∈ w.stateRows, ∃ r ∈ w.runRows, r.id = s.runId
  deployments : ∀ d ∈ w.deploymentRows, ∀ x ∈ d.texts, NulFree x
  schedules : ∀ s ∈ w.scheduleRows, ∀ x ∈ s.texts, NulFree x

/-- Tables without runs have no states either, so they show empty tables. -/
theorem Tables.Kept.shows {w : Tables} (h : w.Kept) (hruns : w.runRows = []) :
    Shows w Keyed.Tables.empty where
  runs := by
    have hstates : w.stateRows = [] := by
      rw [List.eq_nil_iff_forall_not_mem]
      intro s hs
      obtain ⟨r, hr, -⟩ := h.state_run s hs
      rw [hruns] at hr
      cases hr
    exact {
      whole := h.whole
      deployments_eq := rfl
      schedules_eq := rfl
      wellFormed := Keyed.Tables.wellFormed_empty
      runs := by
        rw [hruns]
        exact .empty
      states := by
        rw [hstates]
        exact .empty }
  deployments := h.deployments
  schedules := h.schedules

theorem eq_of_insertDeployment {w w' : Tables} {d : Deployment} (h : w.insertDeployment d = .ok w') :
    w' = { w with deployments := some (w.deploymentRows ++ [d]) } := by
  simp only [Tables.insertDeployment] at h
  split at h
  · cases h
  split at h
  · cases h
  · exact (Except.ok.inj h).symm

/-- A schedule is inserted if its interval is positive as a signed word, no schedule has its id and
its deployment is there. -/
theorem insertSchedule_eq_ok_iff {w w' : Tables} {s : Schedule} : w.insertSchedule s = .ok w' ↔
    0 < signed s.intervalSeconds ∧ (∀ q ∈ w.scheduleRows, q.id ≠ s.id) ∧
      (∃ d ∈ w.deploymentRows, d.id = s.deploymentId) ∧
      w' = { w with schedules := some (w.scheduleRows ++ [s]) } := by
  have hany : (w.scheduleRows.any (·.id == s.id)) = true ↔
      ¬ ∀ q ∈ w.scheduleRows, q.id ≠ s.id := by simp
  have hthere : (!w.deploymentRows.any (·.id == s.deploymentId)) = true ↔
      ¬ ∃ d ∈ w.deploymentRows, d.id = s.deploymentId := by simp
  simp only [Tables.insertSchedule, hany, hthere]
  by_cases hinterval : signed s.intervalSeconds ≤ 0
  · rw [if_pos hinterval]
    exact iff_of_false (by simp) fun h => absurd h.1 (Int.not_lt.2 hinterval)
  rw [if_neg hinterval]
  by_cases hid : ∀ q ∈ w.scheduleRows, q.id ≠ s.id
  · rw [if_neg (not_not_intro hid)]
    by_cases hdeployment : ∃ d ∈ w.deploymentRows, d.id = s.deploymentId
    · rw [if_neg (not_not_intro hdeployment), Except.ok.injEq]
      exact ⟨fun h => ⟨Int.not_le.1 hinterval, hid, hdeployment, h.symm⟩, fun h => h.2.2.2.symm⟩
    · rw [if_pos hdeployment]
      exact iff_of_false (by simp) fun h => hdeployment h.2.2.1
  · rw [if_pos hid]
    exact iff_of_false (by simp) fun h => hid h.2.1

theorem eq_of_insertSchedule {w w' : Tables} {s : Schedule} (h : w.insertSchedule s = .ok w') :
    w' = { w with schedules := some (w.scheduleRows ++ [s]) } :=
  (insertSchedule_eq_ok_iff.1 h).2.2.2

theorem id_ne_of_insertDeployment {w w' : Tables} {d : Deployment}
    (h : w.insertDeployment d = .ok w') : ∀ e ∈ w.deploymentRows, e.id ≠ d.id := by
  simp only [Tables.insertDeployment] at h
  split at h
  · cases h
  split at h
  · cases h
  · next hid => exact ne_of_not_any hid

theorem id_ne_of_insertSchedule {w w' : Tables} {s : Schedule}
    (h : w.insertSchedule s = .ok w') : ∀ q ∈ w.scheduleRows, q.id ≠ s.id :=
  (insertSchedule_eq_ok_iff.1 h).2.1

/-- What a change may make of tables: nothing else, if it is refused. -/
inductive Tables.Alters (w : Tables) : Tables → Prop
  | refused : Alters w w
  | insertDeployment {d : Deployment} {w' : Tables}
    (h : w.insertDeployment (Database.bindDeployment d) = .ok w') : Alters w w'
  | deleteDeployment (id : String) : Alters w (w.deleteDeployment id).2
  | insertSchedule {s : Schedule} {w' : Tables}
    (h : w.insertSchedule (Database.bindSchedule s) = .ok w') : Alters w w'
  | deleteSchedule (id : String) : Alters w (w.deleteSchedule id).2

/-- A change to the catalogue leaves runs and states alone. -/
theorem Tables.Alters.frame {w w' : Tables} (h : w.Alters w') :
    w'.runs = w.runs ∧ w'.states = w.states := by
  cases h with
  | refused => exact ⟨rfl, rfl⟩
  | insertDeployment h =>
    rw [eq_of_insertDeployment h]
    exact ⟨rfl, rfl⟩
  | deleteDeployment id => exact ⟨rfl, rfl⟩
  | insertSchedule h =>
    rw [eq_of_insertSchedule h]
    exact ⟨rfl, rfl⟩
  | deleteSchedule id => exact ⟨rfl, rfl⟩

namespace Shows

variable {c w w' : Tables} {t t' : Keyed.Tables}

/-- Rows of deployments and schedules may come and go, as long as their texts have been bound. -/
theorem of_catalogue (h : Shows w t) (hwhole : w'.Whole) (hruns : w'.runs = w.runs)
    (hstates : w'.states = w.states)
    (hdeployments : ∀ d ∈ w'.deploymentRows, ∀ x ∈ d.texts, NulFree x)
    (hschedules : ∀ s ∈ w'.scheduleRows, ∀ x ∈ s.texts, NulFree x) : Shows w' t where
  runs := {
    whole := hwhole
    deployments_eq := rfl
    schedules_eq := rfl
    wellFormed := h.runs.wellFormed
    runs := by
      rw [Tables.runRows, hruns]
      exact h.runs.runs
    states := by
      rw [Tables.stateRows, hstates]
      exact h.runs.states }
  deployments := hdeployments
  schedules := hschedules

/-- What is done to runs and states leaves the other rows alone. -/
theorem of_runs (h : Shows w t) (h' : MirrorsRuns w w' t') : Shows w' t' where
  runs := { h' with deployments_eq := rfl, schedules_eq := rfl }
  deployments := by
    rw [Tables.deploymentRows, h'.deployments_eq]
    exact h.deployments
  schedules := by
    rw [Tables.scheduleRows, h'.schedules_eq]
    exact h.schedules

theorem insertDeployment (h : Shows w t) {d : Deployment}
    (hw : w.insertDeployment (Database.bindDeployment d) = .ok w') : Shows w' t := by
  rw [eq_of_insertDeployment hw]
  refine h.of_catalogue { h.runs.whole with deployments := rfl } rfl rfl ?_ h.schedules
  intro e he
  rcases List.mem_append.1 he with he | he
  · exact h.deployments e he
  · rw [List.mem_singleton.1 he, Database.bindDeployment_eq, Deployment.texts_mapTexts]
    exact List.forall_mem_map.2 fun x _ => nulFree_untilNul x

theorem insertSchedule (h : Shows w t) {s : Schedule}
    (hw : w.insertSchedule (Database.bindSchedule s) = .ok w') : Shows w' t := by
  rw [eq_of_insertSchedule hw]
  refine h.of_catalogue { h.runs.whole with schedules := rfl } rfl rfl h.deployments ?_
  intro q hq
  rcases List.mem_append.1 hq with hq | hq
  · exact h.schedules q hq
  · rw [List.mem_singleton.1 hq, Database.bindSchedule_eq, Schedule.texts_mapTexts]
    exact List.forall_mem_map.2 fun x _ => nulFree_untilNul x

theorem deleteDeployment (h : Shows w t) (id : String) : Shows (w.deleteDeployment id).2 t := by
  have hwhole : (w.deleteDeployment id).2.Whole := {
    h.runs.whole with
    deployments := rfl
    schedules := Option.isSome_map.trans h.runs.whole.schedules }
  refine h.of_catalogue hwhole rfl rfl (fun d hd => ?_) fun s hs => ?_
  · exact h.deployments d (List.mem_of_mem_filter hd)
  · rw [Mirrors.scheduleRows_deleteDeployment] at hs
    split at hs
    · exact h.schedules s (List.mem_of_mem_filter hs)
    · exact h.schedules s hs

theorem deleteSchedule (h : Shows w t) (id : String) : Shows (w.deleteSchedule id).2 t := by
  refine h.of_catalogue { h.runs.whole with schedules := rfl } rfl rfl h.deployments ?_
  exact fun s hs => h.schedules s (List.mem_of_mem_filter hs)

/-- What a change stores has been bound. -/
theorem alters (h : Shows w t) (ha : w.Alters w') : Shows w' t := by
  cases ha with
  | refused => exact h
  | insertDeployment hw => exact h.insertDeployment hw
  | deleteDeployment id => exact h.deleteDeployment id
  | insertSchedule hw => exact h.insertSchedule hw
  | deleteSchedule id => exact h.deleteSchedule id

end Shows

namespace Database

variable {v : Version} {c w : Tables} {t : Keyed.Tables}

theorem run_request (hw : w.Whole) (change : Change) : ∃ o w',
    change.request.run ((copying v).busy c w) = (.ok o, (copying v).busy c w') ∧ w.Alters w' := by
  cases change with
  | insertDeployment d =>
    have hrun : (change [.deployment] [] (Tables.insertDeployment (bindDeployment d))).run
      ((copying v).busy c w) = _ := run_change hw rfl
    cases hu : Tables.insertDeployment (bindDeployment d) w with
    | error fault =>
      rw [hu] at hrun
      exact ⟨_, w, hrun, .refused⟩
    | ok u =>
      rw [hu] at hrun
      exact ⟨_, u, hrun, .insertDeployment hu⟩
  | deleteDeployment id => exact ⟨_, _, run_delete hw rfl, .deleteDeployment _⟩
  | insertSchedule s =>
    cases hu : Tables.insertSchedule (bindSchedule s) w with
    | error fault =>
      obtain ⟨e, hrun⟩ := run_insertSchedule_of_error (c := c) hw hu
      exact ⟨_, w, hrun, .refused⟩
    | ok u => exact ⟨_, u, run_insertSchedule_of_ok hw hu, .insertSchedule hu⟩
  | deleteSchedule id => exact ⟨_, _, run_delete hw rfl, .deleteSchedule _⟩

/-- An undisturbed database is a backend. -/
def backend (v : Version) : Backend Database Tables where
  toCopying := copying v
  runs w := w.runRows
  states w := w.stateRows
  Shows := Shows
  fits candidate := ∀ x ∈ candidate.texts, NulFree x
  knows strategy := v.knows strategy = true
  wellFormed h := h.runs.wellFormed
  perm_runs h := h.runs.runs.perm_values
  perm_states h := h.runs.states.perm_values
  run_change := by
    intro w t c change h
    obtain ⟨o, w', hrun, halters⟩ := run_request (c := c) h.runs.whole change
    obtain ⟨hruns, hstates⟩ := halters.frame
    exact ⟨o, w', t, hrun, h.alters halters, by rw [Tables.runRows, hruns, Tables.runRows],
      by rw [Tables.stateRows, hstates, Tables.stateRows]⟩
  run_listDeployments := by
    intro w t c offset limit h
    exact ⟨_, run_read h.runs.whole rfl rfl⟩
  run_generate := by
    intro w t c r now h
    obtain ⟨x, hrun, hgenuine⟩ := run_generate (r := r) (s := (copying v).busy c w)
      (run_query h.runs.whole rfl) (run_query h.runs.whole rfl) now
    refine ⟨x, hrun, fun cs hcs candidate hc => ?_⟩
    obtain ⟨hgenuine, hfits⟩ := hgenuine cs hcs candidate hc
    refine ⟨hgenuine, hfits (fun d hd => ?_) fun s hs => ?_⟩
    · exact h.deployments d (List.mem_of_find?_eq_some hd)
    · rw [Tables.listSchedules, List.mem_mergeSort] at hs
      exact h.schedules s (List.mem_of_mem_filter hs)
  run_materialize := by
    intro w t c strategy cs h hcs
    obtain ⟨x, _, hrun, ⟨_, w', rfl, -⟩, hending⟩ :=
      (tracks v c w).run_materialize ⟨w, rfl, h.runs⟩ hcs strategy
    refine ⟨x, w', hrun, hending.mono (fun _ _ => id) ?_⟩
    rintro ⟨u, hbusy, h'⟩
    cases hbusy
    exact h.of_runs h'

end Database

end Timetable.Relational
