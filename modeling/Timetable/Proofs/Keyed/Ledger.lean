import Timetable.Keyed.Ledger
import Timetable.Proofs.Backend

/-!
# Transactions over keyed tables

A ledger works on copies (`Ledger.copying`), and a transaction does to its working tables what the
operations on tables do. So storing candidates in a transaction is storing them in its working
tables (`run_materialize`), about which everything is known: `materialize_spec`.
-/

namespace Timetable.Keyed

open Tables

namespace Ledger

/-- A ledger is at rest while it is not locked. -/
def copying : Copying Ledger Tables where
  resting t := ⟨t, false⟩
  busy t u := (⟨t, true⟩, ⟨u, .active⟩)
  run_begin_resting _ := rfl
  run_begin_busy _ _ := rfl
  run_commit_busy _ _ := ⟨_, rfl, fun _ => rfl⟩
  run_rollback_busy _ _ := ⟨_, rfl, fun _ => rfl⟩
  release_busy _ _ := rfl

variable {l : Ledger} {phase : Phase} {t : Tables}

/-- A transaction, open or not, follows its working tables. -/
theorem tracks (l : Ledger) (phase : Phase) :
    Tracks (fun s t => s = (l, ⟨t, phase⟩) ∧ t.WellFormed) Eq (fun _ => True) (fun _ => True)
      where
  wellFormed h := h.2
  insertRuns := by
    rintro s t cs ⟨rfl, ht⟩ -
    refine ⟨_, _, rfl, ?_, rfl, ht.insertRuns _⟩
    rcases (t.insertRuns (submitted cs)).1 with e | ⟨⟩
    · exact .refused rfl
    · exact .done
  statelessRunIds := by
    rintro s t cs ⟨rfl, ht⟩ -
    exact ⟨_, rfl, fun id => Iff.rfl⟩
  insertStates := by
    rintro s t cs ⟨rfl, ht⟩ -
    refine ⟨_, _, rfl, ?_, rfl, ht.insertStates _⟩
    rcases (t.insertStates (cs.map Candidate.firstState)).1 with e | ⟨⟩
    · exact .refused rfl
    · exact .done
  linkStates := by
    rintro s t cs strategy - ⟨rfl, ht⟩ - -
    exact ⟨_, rfl, rfl, ht.linkStates strategy _⟩
  linkStates_refused _ hknows := absurd trivial hknows

/-- Storing candidates in a transaction is storing them in its working tables. -/
theorem run_materialize (ht : t.WellFormed) (strategy : LinkStrategy) (cs : List Candidate) :
    (Timetable.materialize strategy cs).run (l, ⟨t, phase⟩) =
      ((t.materialize strategy cs).1, l, ⟨(t.materialize strategy cs).2, phase⟩) := by
  obtain ⟨r, s, hrun, -, hending⟩ :=
    (tracks l phase).run_materialize ⟨rfl, ht⟩ (fun _ _ => trivial) strategy
  obtain ⟨halike, rfl, -⟩ := hending.of_links (.inl trivial)
  rw [hrun, halike.eq]

/-! ### A backend -/

/-- Tables are well formed and have the runs and states that others had. -/
def KeepsRuns (t u : Tables) : Prop := u.WellFormed ∧ u.runs = t.runs ∧ u.states = t.states

theorem run_change_of_ok {f : Tables → Except Refusal Tables} {u : Tables} (h : f t = .ok u) :
    (Ledger.change f).run (l, ⟨t, phase⟩) = (.ok (.ok ()), l, ⟨u, phase⟩) := by
  simp only [Action.run, Ledger.change, h]

theorem run_change_of_error {f : Tables → Except Refusal Tables} {e : Refusal} (h : f t = .error e) :
    (Ledger.change f).run (l, ⟨t, phase⟩) = (.ok (.error e), l, ⟨t, phase⟩) := by
  simp only [Action.run, Ledger.change, h]

/-- An operation on tables is done in a transaction to its working tables, or refused. -/
theorem run_change {f : Tables → Except Refusal Tables} (ht : t.WellFormed)
    (hf : ∀ u, f t = .ok u → KeepsRuns t u) : ∃ o u,
    (Ledger.change f).run (l, ⟨t, phase⟩) = (.ok o, l, ⟨u, phase⟩) ∧ KeepsRuns t u := by
  cases hft : f t with
  | ok u => exact ⟨_, u, run_change_of_ok hft, hf u hft⟩
  | error e => exact ⟨_, t, run_change_of_error hft, ht, rfl, rfl⟩

/-- A change to the catalogue of deployments and schedules leaves runs and states alone. -/
theorem run_request (ht : t.WellFormed) (change : Change) : ∃ o u,
    change.request.run (l, (⟨t, phase⟩ : Transaction)) = (.ok o, l, ⟨u, phase⟩) ∧
      KeepsRuns t u := by
  cases change with
  | insertDeployment d =>
    refine run_change (f := (·.insertDeployment d)) ht fun u hu => ?_
    refine ⟨ht.insertDeployment hu, ?_⟩
    obtain ⟨-, -, rfl⟩ := insertDeployment_eq_ok.1 hu
    exact ⟨rfl, rfl⟩
  | deleteDeployment id =>
    refine run_change (f := (·.deleteDeployment id)) ht fun u hu => ?_
    refine ⟨ht.deleteDeployment hu, ?_⟩
    obtain ⟨d, -, rfl⟩ := deleteDeployment_eq_ok.1 hu
    exact ⟨rfl, rfl⟩
  | insertSchedule s =>
    refine run_change (f := (·.insertSchedule s)) ht fun u hu => ?_
    refine ⟨ht.insertSchedule hu, ?_⟩
    obtain ⟨-, -, -, rfl⟩ := insertSchedule_eq_ok.1 hu
    exact ⟨rfl, rfl⟩
  | deleteSchedule id =>
    refine run_change (f := (·.deleteSchedule id)) ht fun u hu => ?_
    refine ⟨ht.deleteSchedule hu, ?_⟩
    obtain ⟨-, rfl⟩ := deleteSchedule_eq_ok.1 hu
    exact ⟨rfl, rfl⟩

/-- A ledger is a backend, the contents of which are keyed tables themselves. -/
def backend : Backend Ledger Tables where
  toCopying := copying
  runs t := t.runs.values
  states t := t.states.values
  Shows t u := t = u ∧ u.WellFormed
  fits _ := True
  knows _ := True
  wellFormed h := h.2
  perm_runs := by
    rintro t _ ⟨rfl, -⟩
    exact .refl _
  perm_states := by
    rintro t _ ⟨rfl, -⟩
    exact .refl _
  run_change := by
    rintro t _ c change ⟨rfl, ht⟩
    obtain ⟨o, u, hrun, hu, hruns, hstates⟩ := run_request ht change
    exact ⟨o, u, u, hrun, ⟨rfl, hu⟩, by rw [hruns], by rw [hstates]⟩
  run_listDeployments _ _ _ _ := ⟨_, rfl⟩
  run_generate := by
    rintro t _ c r now ⟨rfl, ht⟩
    obtain ⟨x, hrun, hgenuine⟩ := run_generate (r := r) (s := copying.busy c t) rfl rfl now
    exact ⟨x, hrun, fun cs hcs candidate hc => ⟨(hgenuine cs hcs candidate hc).1, trivial⟩⟩
  run_materialize := by
    rintro t _ c strategy cs ⟨rfl, ht⟩ -
    obtain ⟨x, _, hrun, ⟨u, rfl, -⟩, hending⟩ :=
      (tracks ⟨c, true⟩ .active).run_materialize ⟨rfl, ht⟩ (fun _ _ => trivial) strategy
    refine ⟨x, u, hrun, hending.mono (fun _ _ _ => trivial) ?_⟩
    rintro ⟨hbusy, hu⟩
    cases hbusy
    exact ⟨rfl, hu⟩

/-- Storing candidates is refused exactly if they clash, and only because something of theirs exists
already; otherwise it does what it should. -/
theorem materialize_spec (l : Ledger) (tx : Transaction) (ht : tx.working.WellFormed)
    (strategy : LinkStrategy) (cs : List Candidate) : ∃ r u,
    (Timetable.materialize strategy cs).run (l, tx) = (r, l, { tx with working := u }) ∧
      ((∃ e, r = .error e) ↔ tx.working.Clash cs) ∧
      (∀ e, r = .error e → e.kind = .alreadyExists) ∧
      ∀ created, r = .ok created → Materialized tx.working cs created u := by
  refine ⟨_, _, run_materialize ht strategy cs, ?_, ?_, ?_⟩
  · exact materialize_refused_iff ht strategy cs
  · intro e he
    exact kind_of_materialize_error ht he
  · intro created hcreated
    exact materialized_of_ok ht hcreated

/-- A run of a deployment, told apart by id and key. -/
def plainRun (id key : String) : FlowRun :=
  ⟨id, "flow", "deployment", "", key, "", "schedule", true, none, 0⟩

/-- Tables with a run that was left without a state and one that has moved on. -/
def leftover : Tables :=
  ((Tables.empty.insertRuns [plainRun "left" "monday", plainRun "moved" "tuesday"]).2.insertStates
    [⟨"completed", "moved", 3, "", "", 0⟩]).2

/-- A candidate with its first state. -/
def plainCandidate (id key stateId : String) : Candidate :=
  ⟨plainRun id key, ⟨stateId, id, RunState.scheduled, "", "", 0⟩, ⟨0⟩⟩

/-- The run that was left and the one that is new are returned, each of them once. -/
theorem materialize_spec_leftover : leftover.WellFormed ∧ ∃ u : Tables,
    (Timetable.materialize .correlatedSubquery
      [plainCandidate "moved" "tuesday" "s1", plainCandidate "new" "friday" "s2",
        plainCandidate "left" "monday" "s3", plainCandidate "new" "friday" "s4"]).run
      ((⟨leftover, true⟩, ⟨leftover, .active⟩) : Ledger × Transaction) =
        (.ok [{ plainRun "new" "friday" with stateId := some "s2" },
          { plainRun "left" "monday" with stateId := some "s3" }],
          ⟨leftover, true⟩, ⟨u, .active⟩) ∧ u.WellFormed := by
  have ht : leftover.WellFormed := (wellFormed_empty.insertRuns _).insertStates _
  obtain ⟨r, u, hrun, hrefused, -, hdone⟩ :=
    materialize_spec ⟨leftover, true⟩ ⟨leftover, .active⟩ ht .correlatedSubquery
      [plainCandidate "moved" "tuesday" "s1", plainCandidate "new" "friday" "s2",
        plainCandidate "left" "monday" "s3", plainCandidate "new" "friday" "s4"]
  refine ⟨ht, u, ?_⟩
  cases r with
  | error e => exact absurd (hrefused.1 ⟨e, rfl⟩) (by decide)
  | ok created =>
    have hdone := hdone created rfl
    rw [hrun, hdone.created_eq]
    exact ⟨rfl, hdone.wellFormed⟩

end Ledger

end Timetable.Keyed
