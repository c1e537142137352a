import Timetable.Proofs.Keyed.Batches
import Timetable.Proofs.Keyed.Desk
import Timetable.Proofs.Keyed.Links

/-!
# Consistent at any time

Whatever is done through transaction objects, the committed tables and those that each object works
on stay consistent (`consistent_after`): every index lists exactly what is stored, nothing stored
refers to anything that is not, and no listing misses a state. Batches that are refused half-way are
no exception, whether or not what they have stored is committed. A run points at a state of its own,
if no run came with a state.
-/

namespace Timetable.Keyed

open OrderedMap

namespace Tables

variable {t u : Tables}

/-- Tables that agree with their indexes, where each state is listed for one run and is found. -/
structure Consistent (t : Tables) : Prop extends t.WellFormed where
  exists_state : ∀ runId, ∀ id ∈ t.stateIds runId, ∃ s, t.states.get? id = some s
  one_owner : ∀ id a b, id ∈ t.stateIds a → id ∈ t.stateIds b → a = b
  perm_listStates : ∀ runId,
    (t.listStates runId).Perm (t.states.values.filter (·.runId == runId))

theorem WellFormed.consistent (ht : t.WellFormed) : t.Consistent where
  toWellFormed := ht
  exists_state := by
    intro runId id hid
    obtain ⟨s, hs, -⟩ := (ht.mem_stateIds runId id).1 hid
    exact ⟨s, hs⟩
  one_owner := by
    intro id a b ha hb
    obtain ⟨s, hs, rfl⟩ := (ht.mem_stateIds a id).1 ha
    obtain ⟨q, hq, rfl⟩ := (ht.mem_stateIds b id).1 hb
    rw [hs] at hq
    cases hq
    rfl
  perm_listStates := fun runId =>
    (List.mergeSort_perm _ _).trans (ht.perm_states_of_run ht.holds_states runId)

theorem WellFormed.write (ht : t.WellFormed) (w : Write) : (t.write w).2.WellFormed := by
  cases w with
  | change c =>
    cases c with
    | insertDeployment d => exact adopt_keeps ht fun _ => ht.insertDeployment
    | deleteDeployment id => exact adopt_keeps ht fun _ => ht.deleteDeployment
    | insertSchedule s => exact adopt_keeps ht fun _ => ht.insertSchedule
    | deleteSchedule id => exact adopt_keeps ht fun _ => ht.deleteSchedule
  | insertRuns rs => exact ht.insertRuns rs
  | insertStates ss => exact ht.insertStates ss
  | linkStates strategy ids => exact ht.linkStates strategy ids

theorem WellFormed.serve (ht : t.WellFormed) (e : Errand) : (t.serve e).WellFormed := by
  cases e with
  | write w => exact ht.write w
  | read q => exact ht

/-! ### Runs point at their own states -/

/-- A run that points at a state owns it. -/
def PointsHome (t : Tables) : Prop :=
  ∀ id r, t.runs.get? id = some r → ∀ s ∈ r.stateId, t.owns id s = true

theorem pointsHome_empty : empty.PointsHome := by
  intro id r h
  cases h

namespace PointsHome

/-- States may come, and runs and states may stay as they are. -/
theorem mono (h : t.PointsHome) (hruns : u.runs = t.runs)
    (howns : ∀ id s, t.owns id s = true → u.owns id s = true) : u.PointsHome := by
  intro id r hr s hs
  rw [hruns] at hr
  exact howns id s (h id r hr s hs)

/-- What changes neither the runs nor the states leaves runs pointing home. -/
theorem of_frame (h : t.PointsHome) (hruns : u.runs = t.runs) (hstates : u.states = t.states) :
    u.PointsHome :=
  h.mono hruns fun id s hs => by rwa [owns, hstates]

theorem insertRun (h : t.PointsHome) {r : FlowRun} (hr : r.stateId = none)
    (hu : t.insertRun r = .ok u) : u.PointsHome := by
  rcases insertRun_eq_ok.1 hu with ⟨-, rfl⟩ | ⟨-, -, rfl⟩
  · exact h
  intro id q hq s hs
  rw [get?_insert] at hq
  split at hq
  · cases hq
    rw [hr] at hs
    cases hs
  · exact h id q hq s hs

theorem insertState (h : t.PointsHome) {s : RunState} (hu : t.insertState s = .ok u) :
    u.PointsHome := by
  obtain ⟨-, hid, rfl⟩ := insertState_eq_ok.1 hu
  refine h.mono rfl fun id a ha => ?_
  -- the new state takes the place of no other
  obtain ⟨q, hq, hrun⟩ := owns_iff.1 ha
  refine owns_iff.2 ⟨q, ?_, hrun⟩
  rw [get?_insert, if_neg, hq]
  rintro rfl
  rw [hid] at hq
  cases hq

theorem setState (h : t.PointsHome) {runId : String} {stateId : Option String}
    (howns : ∀ s ∈ stateId, t.owns runId s = true) : (t.setState runId stateId).PointsHome := by
  intro id r hr s hs
  rw [get?_runs_setState] at hr
  split at hr
  · next hid =>
    subst hid
    obtain ⟨q, -, rfl⟩ := Option.map_eq_some_iff.1 hr
    exact howns s hs
  · exact h id r hr s hs

theorem linkOwner (h : t.PointsHome) (a : String) : (t.linkOwner a).PointsHome := by
  unfold Tables.linkOwner
  split
  · next s hs =>
    refine h.setState fun b hb => ?_
    cases hb
    exact owns_iff.2 ⟨s, hs, rfl⟩
  · exact h

theorem linkRun (h : t.PointsHome) (ht : t.WellFormed) (ids : List String) (runId : String) :
    (t.linkRun ids runId).PointsHome :=
  h.setState fun _ hs => ht.owns_iff.2 (List.mem_of_find?_eq_some hs)

theorem linkStates (h : t.PointsHome) (ht : t.WellFormed) (strategy : LinkStrategy)
    (ids : List String) : (t.linkStates strategy ids).PointsHome := by
  cases strategy with
  | updateJoin =>
    refine List.foldlRecOn ids Tables.linkOwner (motive := PointsHome) h fun u hu a _ => ?_
    exact hu.linkOwner a
  | correlatedSubquery =>
    refine (List.foldlRecOn (t.owners ids) (Tables.linkRun ids)
      (motive := fun u => u.WellFormed ∧ u.PointsHome) ⟨ht, h⟩ fun u hu runId _ => ?_).2
    exact ⟨hu.1.setState _ _, hu.2.linkRun hu.1 ids runId⟩

/-- Deployments and schedules have nothing to do with it. -/
theorem change (h : t.PointsHome) (c : Change) : (t.write (.change c)).2.PointsHome := by
  cases c with
  | insertDeployment d =>
    refine adopt_keeps h fun u hu => ?_
    obtain ⟨-, -, rfl⟩ := insertDeployment_eq_ok.1 hu
    exact h.of_frame rfl rfl
  | deleteDeployment id =>
    refine adopt_keeps h fun u hu => ?_
    obtain ⟨d, -, rfl⟩ := deleteDeployment_eq_ok.1 hu
    exact h.of_frame rfl rfl
  | insertSchedule s =>
    refine adopt_keeps h fun u hu => ?_
    obtain ⟨-, -, -, rfl⟩ := insertSchedule_eq_ok.1 hu
    exact h.of_frame rfl rfl
  | deleteSchedule id =>
    refine adopt_keeps h fun u hu => ?_
    obtain ⟨-, rfl⟩ := deleteSchedule_eq_ok.1 hu
    exact h.of_frame rfl rfl

end PointsHome

end Tables

end Keyed

/-! ### Through any number of transactions -/

/-- The runs that an errand inserts have no state yet. -/
def Errand.Unlinked : Errand → Prop
  | write (.insertRuns rs) => ∀ r ∈ rs, r.stateId = none
  | write (.change _) | write (.insertStates _) | write (.linkStates _ _) | read _ => True

namespace Keyed

theorem Tables.PointsHome.serve {t : Tables} (h : t.PointsHome) (ht : t.WellFormed) {e : Errand}
    (he : e.Unlinked) : (t.serve e).PointsHome := by
  cases e with
  | read q => exact h
  | write w =>
    cases w with
    | change c => exact h.change c
    | insertRuns rs => exact Tables.insertRuns_keeps (fun r hr h hu => h.insertRun (he r hr) hu) h
    | insertStates ss => exact Tables.insertStates_keeps (fun s _ h hu => h.insertState hu) h
    | linkStates strategy ids => exact h.linkStates ht strategy ids

section Desk

variable {ι : Type} [DecidableEq ι] {P : Tables → Prop} {y : Desk Ledger Transaction ι}

/-- Something is true of the committed tables and of those that each object works on. -/
structure Throughout (P : Tables → Prop) (y : Desk Ledger Transaction ι) : Prop where
  committed : P y.store.committed
  working : ∀ i tx, y.objects i = some tx → P tx.working

namespace Throughout

theorem put (h : Throughout P y) (i : ι) {l : Ledger} {tx : Transaction} (hl : P l.committed)
    (htx : P tx.working) : Throughout P (y.put i (l, tx)) := by
  refine ⟨hl, fun j tx' hj => ?_⟩
  by_cases hij : j = i
  · subst hij
    rw [Desk.objects_put_self] at hj
    cases hj
    exact htx
  · rw [Desk.objects_put_of_ne _ hij] at hj
    exact h.working j tx' hj

theorem drop (h : Throughout P y) (i : ι) {l : Ledger} (hl : P l.committed) :
    Throughout P (y.drop i l) :=
  ⟨hl, fun j tx hj => h.working j tx (Desk.objects_drop_eq_some.1 hj).2⟩

/-- What is true of no records and is kept by each request is kept by each deed. -/
theorem step (h : Throughout P y) (hempty : P .empty) {d : Deed ι}
    (hserve : ∀ i e t, d = .errand i e → P t → P (t.serve e)) : Throughout P (y.step d) := by
  have hturn := turn_step y d
  generalize y.step d = y' at hturn ⊢
  cases hturn with
  | begun hi _ => exact h.put _ h.committed h.committed
  | waiting _ => exact h
  | absent _ _ => exact h
  | served hi => exact h.put _ h.committed (hserve _ _ _ rfl (h.working _ _ hi))
  | committed hi => exact h.put _ (h.working _ _ hi) hempty
  | undone hi => exact h.put _ h.committed hempty
  | ended _ _ _ => exact h
  | dropped _ => exact h.drop _ h.committed
  | discarded _ _ => exact h.drop _ h.committed

theorem after (h : Throughout P y) (hempty : P .empty) {ds : List (Deed ι)}
    (hserve : ∀ d ∈ ds, ∀ i e t, d = .errand i e → P t → P (t.serve e)) :
    Throughout P (y.after ds) := by
  induction ds generalizing y with
  | nil => exact h
  | cons d ds ih =>
    refine ih (h.step hempty (hserve d List.mem_cons_self)) fun d' hd' => ?_
    exact hserve d' (List.mem_cons_of_mem d hd')

omit [DecidableEq ι] in
theorem mono {Q : Tables → Prop} (h : Throughout P y) (hPQ : ∀ t, P t → Q t) : Throughout Q y :=
  ⟨hPQ _ h.committed, fun i tx hi => hPQ _ (h.working i tx hi)⟩

end Throughout

/-- From empty tables on, all tables stay consistent, and runs point at their own states if they came
without one. -/
theorem consistent_after (ds : List (Deed ι)) :
    Throughout Tables.Consistent ((Desk.opening Ledger.empty).after ds) ∧
      ((∀ i, ∀ e ∈ errands i ds, e.Unlinked) →
        Throughout Tables.PointsHome ((Desk.opening Ledger.empty).after ds)) := by
  have hstart : ∀ {P : Tables → Prop}, P .empty →
      Throughout P (Desk.opening Ledger.empty : Desk Ledger Transaction ι) :=
    fun hempty => ⟨hempty, fun i tx h => by cases h⟩
  constructor
  · have hempty := Tables.wellFormed_empty
    have hall : Throughout Tables.WellFormed ((Desk.opening Ledger.empty).after ds) :=
      (hstart hempty).after hempty fun _ _ _ e _ _ ht => ht.serve e
    exact hall.mono fun _ ht => ht.consistent
  · intro hds
    -- that runs point home is kept by linking only because the indexes are right
    have hempty := And.intro Tables.wellFormed_empty Tables.pointsHome_empty
    have hall : Throughout (fun t => t.WellFormed ∧ t.PointsHome)
        ((Desk.opening Ledger.empty).after ds) := by
      refine (hstart hempty).after hempty fun d hd i e t hde ht => ?_
      subst hde
      exact ⟨ht.1.serve e, ht.2.serve ht.1 (hds i e (mem_errands.2 hd))⟩
    exact hall.mono fun _ ht => ht.2

/-- A batch of runs and one of states that are refused half-way, and are committed all the same while
another object waits. -/
def refusedBatches : List (Deed Bool) :=
  [.begin true,
    .errand true (.write (.change (.insertDeployment ⟨"deployment", "plain", "flow", 0⟩))),
    .errand true (.write (.insertRuns [Ledger.plainRun "a" "monday", Ledger.plainRun "b" "tuesday",
      Ledger.plainRun "a" "friday", Ledger.plainRun "c" "sunday"])),
    .begin false,
    .errand true (.write (.insertStates [⟨"s", "a", 1, "", "", 7⟩, ⟨"s", "b", 2, "", "", 8⟩])),
    .errand true (.write (.linkStates .updateJoin ["s"])),
    .commit true,
    .begin false]

/-- What stood before the rows that were refused is committed, and all of it is consistent. -/
theorem consistent_after_refused_batches : (∀ i, ∀ e ∈ errands i refusedBatches, e.Unlinked) ∧
    ((Desk.opening Ledger.empty).after refusedBatches).store.committed.runs.values =
      [{ Ledger.plainRun "a" "monday" with stateId := some "s" }, Ledger.plainRun "b" "tuesday"] ∧
    Throughout Tables.Consistent ((Desk.opening Ledger.empty).after refusedBatches) ∧
    Throughout Tables.PointsHome ((Desk.opening Ledger.empty).after refusedBatches) := by
  have hunlinked : ∀ i, ∀ e ∈ errands i refusedBatches, e.Unlinked := by
    intro i e he
    simp only [mem_errands, refusedBatches, List.mem_cons, List.not_mem_nil, reduceCtorEq,
      Deed.errand.injEq, or_false, false_or] at he
    rcases he with ⟨-, rfl⟩ | ⟨-, rfl⟩ | ⟨-, rfl⟩ | ⟨-, rfl⟩
    · trivial
    · rw [Errand.Unlinked]
      decide
    · trivial
    · trivial
  obtain ⟨hconsistent, hhome⟩ := consistent_after refusedBatches
  exact ⟨hunlinked, by decide +kernel, hconsistent, hhome hunlinked⟩

end Desk

end Keyed

end Timetable
