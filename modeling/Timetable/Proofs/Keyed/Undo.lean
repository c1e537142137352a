import Mathlib.Logic.Relation
import Timetable.Proofs.Keyed.Consistent

/-!
# Deleting what was created

A deployment that is deleted leaves nothing behind: after it has been created, whatever schedules
were then added for it or removed again, its deletion brings the old tables back
(`Tables.deletion_undoes_creation`). What carries this through the calls in between is that they
touch no table but that of the schedules, and in it nothing but schedules of this deployment
(`Tables.Beside`). That the first tables are well formed is needed for a start: a schedule of a
deployment that is not there would go with the one that is created under this id.
-/

namespace Timetable.Keyed.Tables

open OrderedMap

variable {t u v : Tables} {d : Deployment} {id : String}

/-! ### Single calls -/

theorem adopt_eq_ok {r : Except Refusal Tables} : t.adopt r = (.ok (), u) ↔ r = .ok u := by
  cases r <;> simp [adopt]

/-- Tables that are refused are not gone over to. -/
theorem adopt_eq_error {r : Except Refusal Tables} {e : Refusal} :
    t.adopt r = (.error e, u) ↔ (t.adopt r).1 = .error e ∧ u = t := by
  cases r <;> simp [adopt, eq_comm]

/-- Two tables have the same runs, under the same keys, and the same states of them in the same
order. -/
structure SameRuns (t u : Tables) : Prop where
  runs : u.runs = t.runs
  runKeys : u.runKeys = t.runKeys
  states : u.states = t.states
  statesByRun : u.statesByRun = t.statesByRun

theorem SameRuns.refl (t : Tables) : t.SameRuns t := ⟨rfl, rfl, rfl, rfl⟩

/-- A change touches deployments, their names and schedules, and nothing else. -/
theorem sameRuns_write (t : Tables) (c : Change) : t.SameRuns (t.write (.change c)).2 := by
  cases c with
  | insertDeployment d =>
    refine adopt_keeps (P := t.SameRuns) (.refl t) fun u hu => ?_
    obtain ⟨-, -, rfl⟩ := insertDeployment_eq_ok.1 hu
    exact ⟨rfl, rfl, rfl, rfl⟩
  | deleteDeployment id =>
    refine adopt_keeps (P := t.SameRuns) (.refl t) fun u hu => ?_
    obtain ⟨d, -, rfl⟩ := deleteDeployment_eq_ok.1 hu
    exact ⟨rfl, rfl, rfl, rfl⟩
  | insertSchedule s =>
    refine adopt_keeps (P := t.SameRuns) (.refl t) fun u hu => ?_
    obtain ⟨-, -, -, rfl⟩ := insertSchedule_eq_ok.1 hu
    exact ⟨rfl, rfl, rfl, rfl⟩
  | deleteSchedule id =>
    refine adopt_keeps (P := t.SameRuns) (.refl t) fun u hu => ?_
    obtain ⟨-, rfl⟩ := deleteSchedule_eq_ok.1 hu
    exact ⟨rfl, rfl, rfl, rfl⟩

/-- In well formed tables, there are no schedules of a deployment that is not there. -/
theorem WellFormed.filter_schedule (ht : t.WellFormed) (hid : t.deployments.get? id = none)
    (k : String) : (t.schedules.get? k).filter (·.deploymentId ≠ id) = t.schedules.get? k := by
  cases hk : t.schedules.get? k with
  | none => rfl
  | some s =>
    have hs : t.deployments.contains s.deploymentId = true :=
      ht.schedule_deployment (mem_values.2 ⟨k, hk⟩)
    have hne : s.deploymentId ≠ id := by
      rintro rfl
      exact not_contains_iff.2 hid hs
    exact Option.filter_some_pos (by simpa using hne)

/-- The deletion of a deployment takes the schedules of this deployment and no others. -/
theorem schedules_deleteDeployment (hid : t.deployments.contains id = true) (k : String) :
    (t.write (.change (.deleteDeployment id))).2.schedules.get? k =
      (t.schedules.get? k).filter (·.deploymentId ≠ id) := by
  obtain ⟨d, hd⟩ := contains_iff.1 hid
  have hdelete := adopt_eq_ok (t := t).2 (deleteDeployment_eq_ok.2 ⟨d, hd, rfl⟩)
  rw [write, hdelete, get?_filter]

theorem write_deleteDeployment_of_not_contains (hid : t.deployments.contains id = false) :
    t.write (.change (.deleteDeployment id)) = (.error (.noDeployment id), t) := by
  apply adopt_eq_error.2
  rw [deleteDeployment, contains_eq_false_iff.1 hid]
  exact ⟨rfl, rfl⟩

/-! ### Calls in between -/

/-- One call about the schedules of a deployment: a schedule is added for it, or one that such a
call has added is removed, and either may be refused. With the tables goes a list of the ids that
have been added. -/
inductive Arranges (id : String) : Tables × List String → Tables × List String → Prop
  | added {t u s ids} (hs : s.deploymentId = id)
      (h : t.write (.change (.insertSchedule s)) = (.ok (), u)) :
      Arranges id (t, ids) (u, s.id :: ids)
  | notAdded {t u s ids e} (hs : s.deploymentId = id)
      (h : t.write (.change (.insertSchedule s)) = (.error e, u)) : Arranges id (t, ids) (u, ids)
  | removed {t u k ids answer} (hk : k ∈ ids)
      (h : t.write (.change (.deleteSchedule k)) = (answer, u)) : Arranges id (t, ids) (u, ids)

/-- Beside the schedules of a deployment, tables are the same as when it had been created, and
schedules are the same as before. Ids that were added had not been taken before. -/
structure Beside (t u : Tables) (id : String) (v : Tables) (ids : List String) : Prop where
  frame : v = { u with schedules := v.schedules }
  schedules : ∀ k, (v.schedules.get? k).filter (·.deploymentId ≠ id) = t.schedules.get? k
  fresh : ∀ k ∈ ids, t.schedules.get? k = none

theorem Beside.start (ht : t.WellFormed) (h : t.insertDeployment d = .ok u) :
    Beside t u d.id u [] := by
  obtain ⟨hid, -, rfl⟩ := insertDeployment_eq_ok.1 h
  exact ⟨rfl, ht.filter_schedule hid, fun k hk => (nomatch hk)⟩

theorem Beside.step {x y : Tables × List String} (h : Beside t u id x.1 x.2)
    (hstep : Arranges id x y) : Beside t u id y.1 y.2 := by
  cases hstep with
  | @added v w s ids hs hadd =>
    obtain ⟨-, hfree, -, rfl⟩ := insertSchedule_eq_ok.1 (adopt_eq_ok.1 hadd)
    -- the id was free, so nothing of old stood under it
    have hfresh : t.schedules.get? s.id = none := by
      rw [← h.schedules s.id, hfree]
      rfl
    refine ⟨?_, ?_, ?_⟩
    · exact congrArg (fun w : Tables => { w with schedules := v.schedules.insert s.id s }) h.frame
    · intro k
      rw [get?_insert]
      split
      · next hk =>
        rw [hk, hfresh]
        exact Option.filter_some_neg (by simpa using hs)
      · exact h.schedules k
    · intro k hk
      rcases List.mem_cons.1 hk with rfl | hk
      · exact hfresh
      · exact h.fresh k hk
  | notAdded hs hrefused =>
    obtain ⟨-, rfl⟩ := adopt_eq_error.1 hrefused
    exact h
  | @removed v w k ids answer hk hremove =>
    have hw : w = (v.adopt (v.deleteSchedule k)).2 := (congrArg Prod.snd hremove).symm
    rw [hw]
    refine adopt_keeps (P := fun w => Beside t u id w ids) h fun w hdelete => ?_
    obtain ⟨-, rfl⟩ := deleteSchedule_eq_ok.1 hdelete
    refine ⟨?_, ?_, h.fresh⟩
    · exact congrArg (fun w : Tables => { w with schedules := v.schedules.erase k }) h.frame
    · intro l
      rw [get?_erase]
      split
      · next hl =>
        rw [hl, h.fresh k hk]
        rfl
      · exact h.schedules l

theorem Beside.calls {x y : Tables × List String} (h : Beside t u id x.1 x.2)
    (hcalls : Relation.ReflTransGen (Arranges id) x y) : Beside t u id y.1 y.2 := by
  induction hcalls with
  | refl => exact h
  | tail _ hstep ih => exact ih.step hstep

/-- From tables that differ in nothing but schedules of the deployment, its deletion leads back. -/
theorem Beside.delete {ids : List String} (h : Beside t u d.id v ids)
    (hinsert : t.insertDeployment d = .ok u) :
    v.write (.change (.deleteDeployment d.id)) = (.ok (), t) := by
  obtain ⟨hid, hname, rfl⟩ := insertDeployment_eq_ok.1 hinsert
  have hdeployments : (t.deployments.insert d.id d).erase d.id = t.deployments := by
    apply ext_get?
    intro k
    rw [get?_erase, get?_insert]
    split
    · next hk => rw [hk, hid]
    · rfl
  have hnames : (t.names.insert d.name ()).erase d.name = t.names := by
    apply ext_get?
    intro n
    rw [get?_erase, get?_insert]
    split
    · next hn => rw [hn, contains_eq_false_iff.1 hname]
    · rfl
  have hschedules : (v.schedules.filter fun _ s => s.deploymentId ≠ d.id) = t.schedules := by
    apply ext_get?
    intro k
    rw [get?_filter]
    exact h.schedules k
  apply adopt_eq_ok.2
  apply deleteDeployment_eq_ok.2
  refine ⟨d, ?_, ?_⟩
  · rw [h.frame, get?_insert, if_pos rfl]
  · rw [h.frame]
    show t = _
    simp only [hdeployments, hnames, hschedules]

/-- A deployment that has been created in well formed tables goes without a trace: whatever
schedules have been added for it and removed again, its deletion is accepted and leads back to the
tables that there were, in which a deployment of this id and this name can be created. No change
touches runs or states. In any tables, the deletion of a deployment that is there takes its
schedules and no others; if it is not there, nothing happens, and in well formed tables it has no
schedules. -/
theorem deletion_undoes_creation (t : Tables) :
    (∀ (d : Deployment) (u v : Tables) (ids : List String), t.WellFormed →
      t.write (.change (.insertDeployment d)) = (.ok (), u) →
      Relation.ReflTransGen (Arranges d.id) (u, []) (v, ids) →
        v.write (.change (.deleteDeployment d.id)) = (.ok (), t) ∧
          ∀ e : Deployment, e.id = d.id → e.name = d.name →
            (t.write (.change (.insertDeployment e))).1 = .ok ()) ∧
      (∀ c : Change, t.SameRuns (t.write (.change c)).2) ∧
      (∀ id, t.deployments.contains id = true ∨ t.WellFormed → ∀ k,
        (t.write (.change (.deleteDeployment id))).2.schedules.get? k =
          (t.schedules.get? k).filter (·.deploymentId ≠ id)) ∧
      ∀ id, t.deployments.contains id = false →
        t.write (.change (.deleteDeployment id)) = (.error (.noDeployment id), t) := by
  refine ⟨fun d u v ids ht hcreate hcalls => ⟨?_, ?_⟩, t.sameRuns_write, ?_,
    fun id => write_deleteDeployment_of_not_contains⟩
  · have hinsert := adopt_eq_ok.1 hcreate
    exact ((Beside.start ht hinsert).calls hcalls).delete hinsert
  · intro e hid hname
    obtain ⟨hfree, hnew, -⟩ := insertDeployment_eq_ok.1 (adopt_eq_ok.1 hcreate)
    rw [← hid] at hfree
    rw [← hname] at hnew
    exact congrArg Prod.fst (adopt_eq_ok.2 (insertDeployment_eq_ok.2 ⟨hfree, hnew, rfl⟩))
  · intro id hor k
    cases hid : t.deployments.contains id with
    | true => exact schedules_deleteDeployment hid k
    | false =>
      have ht : t.WellFormed := hor.resolve_left (by simp [hid])
      rw [write_deleteDeployment_of_not_contains hid,
        ht.filter_schedule (contains_eq_false_iff.1 hid)]

/-- Tables with a deployment and a schedule of it. -/
def stocked : Tables :=
  ((empty.write (.change (.insertDeployment ⟨"old", "daily", "flow", 0⟩))).2.write
    (.change (.insertSchedule ⟨"kept", "old", 3600, ⟨0⟩, "", 0⟩))).2

/-- A second deployment is created. Of three schedules for it one is refused, since its id is taken,
and one is removed again. The deletion takes the other one and leaves the old one alone. -/
theorem deletion_undoes_creation_stocked : ∃ u v : Tables, stocked.WellFormed ∧
    stocked.write (.change (.insertDeployment ⟨"new", "nightly", "flow", 0⟩)) = (.ok (), u) ∧
    Relation.ReflTransGen (Arranges "new") (u, []) (v, ["b", "a"]) ∧
    v.schedules.keys = ["b", "kept"] ∧
    v.write (.change (.deleteDeployment "new")) = (.ok (), stocked) := by
  let schedule (id : String) : Schedule := ⟨id, "new", 60, ⟨0⟩, "", 0⟩
  let u : Tables := (stocked.write (.change (.insertDeployment ⟨"new", "nightly", "flow", 0⟩))).2
  have hstocked : stocked.WellFormed := (wellFormed_empty.write _).write _
  have hcreate : stocked.write (.change (.insertDeployment ⟨"new", "nightly", "flow", 0⟩)) =
    (.ok (), u) := rfl
  have hadd : Relation.ReflTransGen (Arranges "new") (u, []) (_, ["a"]) :=
    .single (.added (s := schedule "a") rfl (Prod.ext (by decide +kernel) rfl))
  have hrefuse := hadd.tail (.notAdded (s := schedule "kept") (e := .scheduleTaken "kept") rfl
    (Prod.ext (by decide +kernel) rfl))
  have hadd' := hrefuse.tail (.added (s := schedule "b") rfl (Prod.ext (by decide +kernel) rfl))
  have hremove := hadd'.tail (.removed (k := "a") (by decide) rfl)
  have hdelete := ((deletion_undoes_creation stocked).1 _ u _ _ hstocked hcreate hremove).1
  exact ⟨u, _, hstocked, hcreate, hremove, by decide +kernel, hdelete⟩

end Timetable.Keyed.Tables
