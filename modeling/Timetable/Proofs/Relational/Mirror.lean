import Timetable.Proofs.Keyed.Timely
import Timetable.Proofs.Relational.Database

/-!
# Rows that mirror keyed tables

Rows of the relational store mirror keyed tables if both hold the same records, in whatever order
the rows stand. Each statement then does to the rows what the operation of the same name does to
the tables: both are accepted or both are refused (`Together`), and what they lead to mirrors each
other again. `MirrorsRuns` is about runs and states alone, which is all that scheduling changes.
-/

namespace Timetable.Relational

open OrderedMap

/-- A count that fits a signed word is ordered as it is. -/
theorem signed_eq {n : UInt64} (h : SignFree n) : signed n = n.toNat := by
  have hlt : 2 * n.toBitVec.toNat < 2 ^ 64 := by
    rw [SignFree] at h
    rw [UInt64.toNat_toBitVec]
    omega
  exact BitVec.toInt_eq_toNat_of_lt hlt

/-- A count that does not fit is negative. -/
theorem signed_eq_sub {n : UInt64} (h : ¬ SignFree n) :
    signed n = n.toNat - 18446744073709551616 := by
  have hge : ¬ 2 * n.toBitVec.toNat < 2 ^ 64 := by
    rw [SignFree] at h
    rw [UInt64.toNat_toBitVec]
    omega
  show n.toBitVec.toInt = _
  rw [BitVec.toInt, if_neg hge]
  rfl

/-- A count is positive as a signed word if it is positive and fits. -/
theorem signed_pos_iff {n : UInt64} : 0 < signed n ↔ 0 < n.toNat ∧ SignFree n := by
  by_cases h : SignFree n
  · rw [signed_eq h, Int.natCast_pos]
    exact (and_iff_left h).symm
  · rw [signed_eq_sub h]
    have hlt := n.toNat_lt
    exact iff_of_false (by omega) fun hn => h hn.2

/-- Nothing is left out exactly if nothing is to be left out. -/
theorem length_sub_filter_eq_zero_iff {p : α → Bool} {l : List α} :
    l.length - (l.filter p).length = 0 ↔ l.filter p = l := by
  rw [Nat.sub_eq_zero_iff_le, ← List.filter_sublist.length_eq]
  exact ⟨Nat.le_antisymm (List.length_filter_le p l), Nat.le_of_eq ∘ Eq.symm⟩

/-- Where nothing is found under an id, all ids are other ones. -/
theorem ne_of_not_any {α : Type} {f : α → String} {id : String} {rows : List α}
    (h : ¬ (rows.any fun a => f a == id) = true) : ∀ a ∈ rows, f a ≠ id :=
  fun a ha e => h (List.any_eq_true.2 ⟨a, ha, beq_iff_eq.2 e⟩)

/-- Two requests are both accepted, and `R` relates what they lead to, or both are refused. -/
inductive Together {α β ε ε' : Type} (R : α → β → Prop) : Except ε α → Except ε' β → Prop
  | accepted {a : α} {b : β} (h : R a b) : Together R (.ok a) (.ok b)
  | refused (e : ε) (e' : ε') : Together R (.error e) (.error e')

theorem Together.both_or_neither {R : α → β → Prop} {x : Except ε α} {y : Except ε' β}
    (h : Together R x y) :
    (∃ a b, x = .ok a ∧ y = .ok b ∧ R a b) ∨ ∃ e e', x = .error e ∧ y = .error e' := by
  cases h with
  | accepted h => exact .inl ⟨_, _, rfl, rfl, h⟩
  | refused e e' => exact .inr ⟨e, e', rfl, rfl⟩

/-- Rows of runs and of states mirror keyed tables; the other rows are those of `base`. -/
structure MirrorsRuns (base w : Tables) (t : Keyed.Tables) : Prop where
  whole : w.Whole
  deployments_eq : w.deployments = base.deployments
  schedules_eq : w.schedules = base.schedules
  wellFormed : t.WellFormed
  runs : Holds t.runs FlowRun.id w.runRows
  states : Holds t.states RunState.id w.stateRows

namespace MirrorsRuns

variable {base w : Tables} {t : Keyed.Tables}

theorem any_key (h : MirrorsRuns base w t) (k : RunKey) :
    w.runRows.any (·.key == k) = t.runKeys.contains k := by
  rw [Bool.eq_iff_iff, h.wellFormed.runKey_iff]
  simp [h.runs.perm_values.mem_iff]

theorem insertRun (h : MirrorsRuns base w t) (r : FlowRun) :
    Together (MirrorsRuns base) (w.insertRun r) (t.insertRun r) := by
  have haccepted : ∀ u, t.insertRun r = .ok u → u.WellFormed := fun _ =>
    h.wellFormed.insertRun
  rw [Tables.insertRun, h.any_key, h.runs.any_eq]
  rw [Keyed.Tables.insertRun] at haccepted ⊢
  cases hkey : t.runKeys.contains r.key with
  | true => exact .accepted h
  | false =>
    cases hid : t.runs.contains r.id with
    | true => exact .refused _ _
    | false =>
      rw [hkey, hid] at haccepted
      exact .accepted {
        h with
        whole := { h.whole with runs := rfl }
        wellFormed := haccepted _ rfl
        runs := h.runs.insert (contains_eq_false_iff.1 hid) }

theorem insertState (h : MirrorsRuns base w t) (s : RunState) :
    Together (MirrorsRuns base) (w.insertState s) (t.insertState s) := by
  have haccepted : ∀ u, t.insertState s = .ok u → u.WellFormed := fun _ =>
    h.wellFormed.insertState
  rw [Tables.insertState, h.states.any_eq, h.runs.any_eq]
  rw [Keyed.Tables.insertState] at haccepted ⊢
  cases hid : t.states.contains s.id with
  | true =>
    -- the refusals may differ if the run is missing too
    cases t.runs.contains s.runId <;> exact .refused _ _
  | false =>
    cases hrun : t.runs.contains s.runId with
    | false => exact .refused _ _
    | true =>
      rw [hid, hrun] at haccepted
      exact .accepted {
        h with
        whole := { h.whole with states := rfl }
        wellFormed := haccepted _ rfl
        states := h.states.insert (contains_eq_false_iff.1 hid) }

/-- The ids of the listed states of a run, as a statement finds them. -/
abbrev listedIds (w : Tables) (ids : List String) (runId : String) : List String :=
  ((w.stateRows.filter (·.id ∈ ids)).filter (·.runId == runId)).map RunState.id

theorem mem_listedIds (h : MirrorsRuns base w t) {ids : List String} {runId a : String} :
    a ∈ listedIds w ids runId ↔ a ∈ ids ∧ t.owns runId a = true := by
  rw [Keyed.Tables.owns_iff]
  simp only [h.states.get?_iff, List.mem_map, List.mem_filter, decide_eq_true_eq, beq_iff_eq]
  constructor
  · rintro ⟨s, ⟨⟨hs, hids⟩, hrun⟩, rfl⟩
    exact ⟨hids, s, ⟨hs, rfl⟩, hrun⟩
  · rintro ⟨hids, s, ⟨hs, rfl⟩, hrun⟩
    exact ⟨s, ⟨⟨hs, hids⟩, hrun⟩, rfl⟩

theorem nodup_listedIds (h : MirrorsRuns base w t) (ids : List String) (runId : String) :
    (listedIds w ids runId).Nodup :=
  h.states.nodup.sublist ((List.filter_sublist.trans List.filter_sublist).map _)

/-- A run that owns at most one of the listed states has only that one to be pointed at. -/
theorem chosenState_eq (h : MirrorsRuns base w t) {ids : List String} (hone : t.OnePerRun ids)
    (strategy : LinkStrategy) (listed : Nat) (runId : String) :
    Tables.chosenState strategy listed (listedIds w ids runId) = t.listedState ids runId := by
  -- both strategies choose the same unless two states are listed, and then they are one
  match hl : listedIds w ids runId with
  | [] =>
    have hnone : t.listedState ids runId = none := by
      rw [Keyed.Tables.listedState_eq_none_iff h.wellFormed]
      intro a ha
      rw [← Bool.not_eq_true]
      intro hr
      have hin : a ∈ listedIds w ids runId := h.mem_listedIds.2 ⟨ha, hr⟩
      simp [hl] at hin
    rw [hnone]
    cases strategy <;> simp [Tables.chosenState]
  | [a] =>
    have hsome : t.listedState ids runId = some a := by
      rw [Keyed.Tables.listedState_eq_some_iff h.wellFormed hone, ← h.mem_listedIds, hl]
      simp
    rw [hsome]
    cases strategy <;> simp [Tables.chosenState]
  | a :: b :: l =>
    have ha : a ∈ listedIds w ids runId := by simp [hl]
    have hb : b ∈ listedIds w ids runId := by simp [hl]
    have hab : a = b := by
      obtain ⟨ha, hra⟩ := h.mem_listedIds.1 ha
      obtain ⟨hb, hrb⟩ := h.mem_listedIds.1 hb
      exact hone.eq_of_owns ha hb hra hrb
    have hnodup := h.nodup_listedIds ids runId
    rw [hl, hab] at hnodup
    simp at hnodup

/-- Linking points each run at the state that is chosen for it, if one is. -/
theorem runRows_linkStates (w : Tables) (strategy : LinkStrategy) (ids : List String) :
    (w.linkStates strategy ids).runRows = w.runRows.map fun r =>
      r.pointAt (Tables.chosenState strategy ids.length (listedIds w ids r.id)) := by
  refine List.map_congr_left fun r _ => ?_
  cases Tables.chosenState strategy ids.length (listedIds w ids r.id) <;> rfl

theorem linkStates (h : MirrorsRuns base w t) {ids : List String} (hone : t.OnePerRun ids)
    (strategy : LinkStrategy) :
    MirrorsRuns base (w.linkStates strategy ids) (t.linkStates strategy ids) := by
  obtain ⟨runs, hframe⟩ := Keyed.Tables.linkStates_frame t strategy ids
  have hlinked := Keyed.Tables.get?_runs_linkStates h.wellFormed hone strategy
  have hrows : (w.linkStates strategy ids).runRows =
      w.runRows.map fun r => r.pointAt (t.listedState ids r.id) := by
    rw [runRows_linkStates]
    exact List.map_congr_left fun r _ => by rw [h.chosenState_eq hone]
  exact {
    h with
    whole := { h.whole with runs := rfl }
    wellFormed := h.wellFormed.linkStates strategy ids
    runs := by
      rw [hrows]
      refine h.runs.map (fun r => r.id_pointAt _) fun k => ?_
      rw [hlinked]
      cases hr : t.runs.get? k with
      | none => rfl
      | some r => rw [Option.map_some, Option.map_some, h.runs.id_eq hr]
    states := by
      rw [hframe]
      exact h.states }

end MirrorsRuns

/-- Rows mirror keyed tables. -/
structure Mirrors (w : Tables) (t : Keyed.Tables) : Prop extends MirrorsRuns w w t where
  deployments : Holds t.deployments Deployment.id w.deploymentRows
  schedules : Holds t.schedules Schedule.id w.scheduleRows

namespace Mirrors

variable {w : Tables} {t : Keyed.Tables}

theorem empty : Mirrors Tables.empty Keyed.Tables.empty where
  whole := Tables.whole_empty
  deployments_eq := rfl
  schedules_eq := rfl
  wellFormed := Keyed.Tables.wellFormed_empty
  runs := .empty
  states := .empty
  deployments := .empty
  schedules := .empty

/-- What is done to runs and states leaves the rest mirrored. -/
theorem of_runs (h : Mirrors w t) {w' : Tables} {u : Keyed.Tables} (h' : MirrorsRuns w w' u)
    (hd : u.deployments = t.deployments) (hs : u.schedules = t.schedules) : Mirrors w' u where
  whole := h'.whole
  deployments_eq := rfl
  schedules_eq := rfl
  wellFormed := h'.wellFormed
  runs := h'.runs
  states := h'.states
  deployments := by
    rw [hd, Tables.deploymentRows, h'.deployments_eq]
    exact h.deployments
  schedules := by
    rw [hs, Tables.scheduleRows, h'.schedules_eq]
    exact h.schedules

theorem any_name (h : Mirrors w t) (n : String) :
    w.deploymentRows.any (·.name == n) = t.names.contains n := by
  rw [Bool.eq_iff_iff, h.wellFormed.name_iff]
  simp [h.deployments.perm_values.mem_iff]

theorem insertDeployment (h : Mirrors w t) (d : Deployment) :
    Together Mirrors (w.insertDeployment d) (t.insertDeployment d) := by
  have haccepted : ∀ u, t.insertDeployment d = .ok u → u.WellFormed := fun _ =>
    h.wellFormed.insertDeployment
  rw [Tables.insertDeployment, h.any_name, h.deployments.any_eq]
  rw [Keyed.Tables.insertDeployment] at haccepted ⊢
  cases hid : t.deployments.contains d.id with
  | true => cases t.names.contains d.name <;> exact .refused _ _
  | false =>
    cases hname : t.names.contains d.name with
    | true => exact .refused _ _
    | false =>
      rw [hid, hname] at haccepted
      exact .accepted {
        h with
        whole := { h.whole with deployments := rfl }
        deployments_eq := rfl
        schedules_eq := rfl
        wellFormed := haccepted _ rfl
        deployments := h.deployments.insert (contains_eq_false_iff.1 hid) }

theorem insertSchedule (h : Mirrors w t) {s : Schedule} (hs : SignFree s.intervalSeconds) :
    Together Mirrors (w.insertSchedule s) (t.insertSchedule s) := by
  have haccepted : ∀ u, t.insertSchedule s = .ok u → u.WellFormed := fun _ =>
    h.wellFormed.insertSchedule
  have hpositive : signed s.intervalSeconds ≤ 0 ↔ s.intervalSeconds = 0 := by
    rw [signed_eq hs, ← UInt64.toNat_inj]
    simp
  rw [Tables.insertSchedule, h.schedules.any_eq, h.deployments.any_eq]
  rw [Keyed.Tables.insertSchedule] at haccepted ⊢
  simp only [hpositive]
  by_cases hinterval : s.intervalSeconds = 0
  · cases t.deployments.contains s.deploymentId <;> cases t.schedules.contains s.id <;>
      simp [hinterval, Together.refused]
  simp only [hinterval, ↓reduceIte] at haccepted ⊢
  cases hid : t.schedules.contains s.id with
  | true => cases t.deployments.contains s.deploymentId <;> exact .refused _ _
  | false =>
    cases hdeployment : t.deployments.contains s.deploymentId with
    | false => exact .refused _ _
    | true =>
      rw [hid, hdeployment] at haccepted
      exact .accepted {
        h with
        whole := { h.whole with schedules := rfl }
        deployments_eq := rfl
        schedules_eq := rfl
        wellFormed := haccepted _ rfl
        schedules := h.schedules.insert (contains_eq_false_iff.1 hid) }

theorem scheduleRows_deleteDeployment (w : Tables) (id : String) :
    (w.deleteDeployment id).2.scheduleRows =
      if w.deploymentRows.any (·.id == id) then w.scheduleRows.filter (·.deploymentId ≠ id)
      else w.scheduleRows := by
  cases hs : w.schedules <;> simp [Tables.deleteDeployment, Tables.scheduleRows, hs]

/-- Deleting counts a deployment exactly if there was one, and leaves the rest alone if not. -/
theorem deleteDeployment (h : Mirrors w t) (id : String) :
    (w.deleteDeployment id).1 = 0 ∧ t.deleteDeployment id = .error (.noDeployment id) ∧
        Mirrors (w.deleteDeployment id).2 t ∨
      (w.deleteDeployment id).1 ≠ 0 ∧ ∃ u, t.deleteDeployment id = .ok u ∧
        Mirrors (w.deleteDeployment id).2 u := by
  have haccepted : ∀ u, t.deleteDeployment id = .ok u → u.WellFormed := fun _ =>
    h.wellFormed.deleteDeployment
  have hzero : (w.deleteDeployment id).1 = 0 ↔ t.deployments.get? id = none :=
    length_sub_filter_eq_zero_iff.trans h.deployments.filter_ne_eq_self_iff
  have hschedules := scheduleRows_deleteDeployment w id
  rw [h.deployments.any_eq] at hschedules
  have hwhole : (w.deleteDeployment id).2.Whole := {
    h.whole with
    deployments := rfl
    schedules := Option.isSome_map.trans h.whole.schedules }
  rw [Keyed.Tables.deleteDeployment] at haccepted ⊢
  cases hid : t.deployments.get? id with
  | none =>
    refine .inl ⟨hzero.2 hid, rfl, ?_⟩
    rw [contains_eq_false_iff.2 hid] at hschedules
    have hrows : (w.deleteDeployment id).2.deploymentRows = w.deploymentRows :=
      h.deployments.filter_ne_eq_self_iff.2 hid
    exact {
      h with
      whole := hwhole
      deployments_eq := rfl
      schedules_eq := rfl
      deployments := by
        rw [hrows]
        exact h.deployments
      schedules := by
        rw [hschedules]
        exact h.schedules }
  | some d =>
    rw [hid] at haccepted
    have hcontains : t.deployments.contains id = true := contains_iff.2 ⟨d, hid⟩
    rw [hcontains] at hschedules
    refine .inr ⟨by simp [hzero, hid], _, rfl, ?_⟩
    exact {
      h with
      whole := hwhole
      deployments_eq := rfl
      schedules_eq := rfl
      wellFormed := haccepted _ rfl
      deployments := h.deployments.erase id
      schedules := by
        rw [hschedules]
        exact h.schedules.filter fun s => s.deploymentId ≠ id }

/-- Deleting counts a schedule exactly if there was one, and leaves the rest alone if not. -/
theorem deleteSchedule (h : Mirrors w t) (id : String) :
    (w.deleteSchedule id).1 = 0 ∧ t.deleteSchedule id = .error (.noSchedule id) ∧
        Mirrors (w.deleteSchedule id).2 t ∨
      (w.deleteSchedule id).1 ≠ 0 ∧ ∃ u, t.deleteSchedule id = .ok u ∧
        Mirrors (w.deleteSchedule id).2 u := by
  have haccepted : ∀ u, t.deleteSchedule id = .ok u → u.WellFormed := fun _ =>
    h.wellFormed.deleteSchedule
  have hzero : (w.deleteSchedule id).1 = 0 ↔ t.schedules.get? id = none :=
    length_sub_filter_eq_zero_iff.trans h.schedules.filter_ne_eq_self_iff
  have hwhole : (w.deleteSchedule id).2.Whole := { h.whole with schedules := rfl }
  rw [Keyed.Tables.deleteSchedule] at haccepted ⊢
  cases hid : t.schedules.contains id with
  | false =>
    have hnone := contains_eq_false_iff.1 hid
    refine .inl ⟨hzero.2 hnone, rfl, ?_⟩
    have hrows : (w.deleteSchedule id).2.scheduleRows = w.scheduleRows :=
      h.schedules.filter_ne_eq_self_iff.2 hnone
    exact {
      h with
      whole := hwhole
      deployments_eq := rfl
      schedules_eq := rfl
      schedules := by
        rw [hrows]
        exact h.schedules }
  | true =>
    rw [hid] at haccepted
    obtain ⟨s, hs⟩ := contains_iff.1 hid
    refine .inr ⟨by simp [hzero, hs], _, rfl, ?_⟩
    exact {
      h with
      whole := hwhole
      deployments_eq := rfl
      schedules_eq := rfl
      wellFormed := haccepted _ rfl
      schedules := h.schedules.erase id }

end Mirrors

end Timetable.Relational
