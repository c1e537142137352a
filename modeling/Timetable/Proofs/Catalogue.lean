import Timetable.Proofs.Keys
import Timetable.Proofs.Relational.Backend
import Timetable.Proofs.Service

/-!
# What a backend finds

A `Catalogue` says which deployment and which schedules the transactions of a backend find under an
id; a schedule is told by its id wherever it is listed, and the lists that it is in belong to one
deployment. Schedules have ids of their own and runs are occurrences of their schedules because no
request leads to contents where this is not so: a backend may be restricted to the contents where it
is so (`Backend.restrict`), and then all that is known about backends is known about these contents.
-/

namespace Timetable

/-- The key of a run is that of an occurrence of its schedule. -/
def FlowRun.Timed (r : FlowRun) : Prop :=
  ∃ t, r.idempotencyKey = Occurrence.idempotencyKey r.scheduleId t

theorem timed_of_candidate {d : Deployment} {s : Schedule} {createdAt : UInt64} {t : Instant}
    {c : Candidate} (h : Occurrence.candidate d s createdAt t = .ok c) : c.run.Timed := by
  obtain ⟨text, -, rfl⟩ := Occurrence.candidate_eq_ok.1 h
  exact ⟨t, rfl⟩

section Generate

variable {σ τ : Type} [Repository σ τ] {r : Request} {now : Instant} {s s' : σ × τ}
  {cs : List Candidate}

/-- What is generated are occurrences, whatever the store has found. -/
theorem exists_ofSchedules_of_generate (h : (r.generate now).run s = (.ok cs, s')) :
    ∃ d ss, r.ofSchedules now d ss = .ok cs := by
  obtain ⟨found, s₁, -, h⟩ := Action.run_bind_eq_ok h
  cases found with
  | none => cases h
  | some d =>
    obtain ⟨ss, s₂, -, h⟩ := Action.run_bind_eq_ok h
    exact ⟨d, ss, congrArg Prod.fst h⟩

/-- With a deployment and its schedules at hand, generating is a matter of arithmetic. -/
theorem run_generate_of_some {d : Deployment} {ss : List Schedule}
    (hfind : (Repository.findDeployment r.deploymentId).run s = (.ok (some d), s))
    (hlist : (Repository.listSchedules r.deploymentId).run s = (.ok ss, s)) (now : Instant) :
    (r.generate now).run s = (r.ofSchedules now d ss, s) := by
  rw [Request.generate, Action.run_bind_of_ok hfind]
  exact Action.run_bind_of_ok hlist

end Generate

namespace Backend

variable {σ τ κ : Type} [Repository σ τ]

/-! ### Fewer contents -/

/-- A backend of which only some contents and some candidates matter, since no request leads from
these to others. -/
def restrict (B : Backend σ κ) (P : κ → Prop) (Q : Candidate → Prop)
    (hchange : ∀ {w t} c (change : Change), B.Shows w t → P w → ∃ o w' t',
      change.request.run (B.busy c w) = (.ok o, B.busy c w') ∧ B.Shows w' t' ∧ P w' ∧
        B.runs w' = B.runs w ∧ B.states w' = B.states w)
    (hgenerate : ∀ {w t} c (r : Request) now cs, B.Shows w t → P w →
      (r.generate now).run (B.busy c w) = (.ok cs, B.busy c w) → ∀ candidate ∈ cs, Q candidate)
    (hmaterialize : ∀ {w t} c strategy {cs : List Candidate}, B.Shows w t → P w →
      (∀ candidate ∈ cs, B.fits candidate ∧ Q candidate) → ∃ x w',
      (materialize strategy cs).run (B.busy c w) = (x, B.busy c w') ∧
        Ending (fun w t => B.Shows w t ∧ P w) (fun _ _ => True) (B.knows strategy)
          (t.materialize strategy cs) x w') : Backend σ κ where
  toCopying := B.toCopying
  runs := B.runs
  states := B.states
  Shows w t := B.Shows w t ∧ P w
  fits candidate := B.fits candidate ∧ Q candidate
  knows := B.knows
  wellFormed h := B.wellFormed h.1
  perm_runs h := B.perm_runs h.1
  perm_states h := B.perm_states h.1
  run_change c change h := by
    obtain ⟨o, w', t', hrun, h', hP, hruns, hstates⟩ := hchange c change h.1 h.2
    exact ⟨o, w', t', hrun, ⟨h', hP⟩, hruns, hstates⟩
  run_listDeployments c offset limit h := B.run_listDeployments c offset limit h.1
  run_generate c r now h := by
    obtain ⟨x, hrun, hgenuine⟩ := B.run_generate c r now h.1
    refine ⟨x, hrun, fun cs hcs candidate hc => ?_⟩
    rw [hcs] at hrun
    obtain ⟨hgenuine, hfits⟩ := hgenuine cs hcs candidate hc
    exact ⟨hgenuine, hfits, hgenerate c r now cs h.1 h.2 hrun candidate hc⟩
  run_materialize c strategy cs h hcs := hmaterialize c strategy h.1 h.2 hcs

/-- The contents in which every run is an occurrence of its schedule. -/
def timed (B : Backend σ κ) : Backend σ κ :=
  B.restrict (fun w => ∀ r ∈ B.runs w, r.Timed) (fun candidate => candidate.run.Timed)
    (by
      intro w t c change h hw
      obtain ⟨o, w', t', hrun, h', hruns, hstates⟩ := B.run_change c change h
      exact ⟨o, w', t', hrun, h', hruns ▸ hw, hruns, hstates⟩)
    (by
      intro w t c r now cs _ _ hrun candidate hc
      obtain ⟨d, ss, hcs⟩ := exists_ofSchedules_of_generate hrun
      obtain ⟨s, -, time, hcandidate⟩ := exists_occurrence hcs hc
      exact timed_of_candidate hcandidate)
    (by
      intro w t c strategy cs h hw hcs
      obtain ⟨x, w', hrun, hending⟩ :=
        B.run_materialize c strategy h fun candidate hc => (hcs candidate hc).1
      refine ⟨x, w', hrun, hending.mono (fun _ _ => id) fun h' => ⟨h', fun r hr => ?_⟩⟩
      refine Keyed.Tables.runs_materialize (fun _ _ hr => hr) (fun r hr => ?_)
        (fun candidate hc => (hcs candidate hc).2) strategy r ((B.perm_runs h').mem_iff.2 hr)
      exact hw r ((B.perm_runs h).mem_iff.1 hr))

theorem Healthy.timed {B : Backend σ κ} {w : κ} (h : B.timed.Healthy w) :
    ∀ r ∈ B.timed.runs w, r.Timed := by
  obtain ⟨t, -, hw⟩ := h.shows
  exact hw

/-! ### What is found -/

/-- What the transactions of a backend find under the id of a deployment. -/
structure Catalogue (B : Backend σ κ) where
  deployment : κ → String → Option Deployment
  schedules : κ → String → List Schedule
  run_findDeployment : ∀ {w t} c id, B.Shows w t →
    (Repository.findDeployment id).run (B.busy c w) = (.ok (deployment w id), B.busy c w)
  run_listSchedules : ∀ {w t} c id, B.Shows w t →
    (Repository.listSchedules id).run (B.busy c w) = (.ok (schedules w id), B.busy c w)
  /-- A schedule is told by its id. -/
  schedule_eq : ∀ {w t id id' s s'}, B.Shows w t → s ∈ schedules w id → s' ∈ schedules w id' →
    s.id = s'.id → s = s'
  /-- The lists that a schedule is in belong to one deployment. -/
  deployment_eq : ∀ {w t id id' s}, B.Shows w t → s ∈ schedules w id → s ∈ schedules w id' →
    deployment w id = deployment w id'

end Backend

/-- What ledgers find are the records of their tables. -/
def Keyed.Ledger.catalogue : Keyed.Ledger.backend.timed.Catalogue where
  deployment t id := t.deployments.get? id
  schedules t id := t.listSchedules id
  run_findDeployment _ _ _ := rfl
  run_listSchedules _ _ _ := rfl
  schedule_eq := by
    rintro t _ id id' s s' ⟨⟨rfl, ht⟩, -⟩ hs hs' heq
    exact ht.schedule_eq (Keyed.Tables.mem_listSchedules.1 hs).1
      (Keyed.Tables.mem_listSchedules.1 hs').1 heq
  deployment_eq := by
    rintro t _ id id' s - hs hs'
    rw [← (Keyed.Tables.mem_listSchedules.1 hs).2, (Keyed.Tables.mem_listSchedules.1 hs').2]

namespace Relational

open Text

/-- No two rows of schedules share an id. -/
def Tables.Orderly (w : Tables) : Prop := (w.scheduleRows.map Schedule.id).Nodup

theorem Tables.mem_listSchedules {w : Tables} {s : Schedule} {deploymentId : String} :
    s ∈ w.listSchedules deploymentId ↔ s ∈ w.scheduleRows ∧ s.deploymentId = deploymentId := by
  rw [listSchedules, List.mem_mergeSort, List.mem_filter, beq_iff_eq]

theorem Tables.any_id_of_insertSchedule {w w' : Tables} {s : Schedule}
    (h : w.insertSchedule s = .ok w') : w.scheduleRows.any (·.id == s.id) = false := by
  simp only [Tables.insertSchedule] at h
  split at h
  · cases h
  split at h
  · cases h
  · next hfresh => exact Bool.eq_false_iff.2 hfresh

/-- A schedule is inserted under a new id only. -/
theorem Tables.Alters.orderly {w w' : Tables} (h : w.Alters w') (hw : w.Orderly) : w'.Orderly := by
  cases h with
  | refused => exact hw
  | insertDeployment h =>
    rw [eq_of_insertDeployment h]
    exact hw
  | deleteDeployment id =>
    rw [Orderly, Mirrors.scheduleRows_deleteDeployment]
    split
    · exact hw.sublist (List.filter_sublist.map _)
    · exact hw
  | insertSchedule h =>
    have hfresh := any_id_of_insertSchedule h
    rw [List.any_eq_false] at hfresh
    rw [eq_of_insertSchedule h]
    show ((w.scheduleRows ++ [_]).map Schedule.id).Nodup
    rw [List.map_append, List.map_singleton, List.nodup_append]
    refine ⟨hw, List.nodup_singleton _, fun id hid id' hid' heq => ?_⟩
    obtain ⟨q, hq, rfl⟩ := List.mem_map.1 hid
    rw [List.mem_singleton] at hid'
    exact hfresh q hq (beq_iff_eq.2 (heq.trans hid'))
  | deleteSchedule id => exact hw.sublist (List.filter_sublist.map _)

namespace Database

/-- The contents in which no two schedules share an id. -/
def orderly (v : Version) : Backend Database Tables :=
  (backend v).restrict Tables.Orderly (fun _ => True)
    (by
      intro w t c change h hw
      obtain ⟨o, w', hrun, halters⟩ := run_request (c := c) h.runs.whole change
      obtain ⟨hruns, hstates⟩ := halters.frame
      refine ⟨o, w', t, hrun, h.alters halters, halters.orderly hw, ?_, ?_⟩
      · show w'.runRows = w.runRows
        rw [Tables.runRows, hruns, Tables.runRows]
      · show w'.stateRows = w.stateRows
        rw [Tables.stateRows, hstates, Tables.stateRows])
    (fun _ _ _ _ _ _ _ _ _ => trivial)
    (by
      intro w t c strategy cs h hw hcs
      obtain ⟨x, _, hrun, ⟨_, w', rfl, -⟩, hending⟩ :=
        (tracks v c w).run_materialize ⟨w, rfl, h.runs⟩ (fun candidate hc => (hcs candidate hc).1)
          strategy
      refine ⟨x, w', hrun, hending.mono (fun _ _ => id) ?_⟩
      rintro ⟨u, hbusy, h'⟩
      cases hbusy
      refine ⟨h.of_runs h', ?_⟩
      rw [Tables.Orderly, Tables.scheduleRows, h'.schedules_eq]
      exact hw)

/-- What databases find are rows under the id as it is bound. -/
def catalogue (v : Version) : (orderly v).timed.Catalogue where
  deployment w id := w.deploymentRows.find? (·.id == untilNul id)
  schedules w id := w.listSchedules (untilNul id)
  run_findDeployment c id h := run_query h.1.1.runs.whole rfl
  run_listSchedules c id h := run_query h.1.1.runs.whole rfl
  schedule_eq := by
    rintro w t id id' s s' ⟨⟨-, hw⟩, -⟩ hs hs' heq
    exact List.inj_on_of_nodup_map hw (Tables.mem_listSchedules.1 hs).1
      (Tables.mem_listSchedules.1 hs').1 heq
  deployment_eq := by
    rintro w t id id' s - hs hs'
    rw [← (Tables.mem_listSchedules.1 hs).2, (Tables.mem_listSchedules.1 hs').2]

end Database

end Relational

end Timetable
