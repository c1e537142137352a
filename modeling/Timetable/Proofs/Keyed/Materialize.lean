import Timetable.Materialize
import Timetable.Proofs.Keyed.Batches
import Timetable.Proofs.Keyed.Links

/-!
# What storing candidates does to the tables

`Tables.materialize` is `Timetable.materialize` on tables, without transactions. What it does is
said in terms of the tables before and of the candidates alone: which candidates are new
(`newCandidates`), when it is refused (`Clash`, `materialize_refused_iff`), and what stands in the
tables afterwards (`materialized_of_ok`).
-/

namespace Timetable

/-! ### First candidates -/

/-- The candidates whose run has not come before. -/
def firsts : List Candidate → List Candidate
  | [] => []
  | c :: cs => c :: (firsts cs).filter (·.run.id ≠ c.run.id)

theorem firsts_sublist : ∀ cs : List Candidate, (firsts cs).Sublist cs
  | [] => .slnil
  | c :: cs => (List.filter_sublist.trans (firsts_sublist cs)).cons_cons c

theorem nodup_firsts : ∀ cs : List Candidate, ((firsts cs).map fun c => c.run.id).Nodup
  | [] => List.nodup_nil
  | c :: cs => by
    rw [firsts, List.map_cons, List.nodup_cons]
    refine ⟨?_, (nodup_firsts cs).sublist (List.filter_sublist.map _)⟩
    rw [List.mem_map]
    rintro ⟨d, hd, e⟩
    simpa [e] using (List.mem_filter.1 hd).2

/-- Each run of the candidates has a first candidate. -/
theorem exists_mem_firsts {c : Candidate} :
    ∀ {cs : List Candidate}, c ∈ cs → ∃ d ∈ firsts cs, d.run.id = c.run.id
  | d :: cs, h => by
    by_cases hd : d.run.id = c.run.id
    · exact ⟨d, by simp [firsts], hd⟩
    · rcases List.mem_cons.1 h with rfl | h
      · exact absurd rfl hd
      · obtain ⟨e, he, hec⟩ := exists_mem_firsts h
        refine ⟨e, ?_, hec⟩
        rw [firsts, List.mem_cons, List.mem_filter]
        exact .inr ⟨he, by simpa [hec] using Ne.symm hd⟩

/-- Looking for the first candidates of some runs finds those of the first candidates that are
theirs. -/
theorem firstCandidates_eq (ids : List String) (cs : List Candidate) :
    firstCandidates ids cs = (firsts cs).filter (·.run.id ∈ ids) := by
  induction cs generalizing ids with
  | nil => rfl
  | cons c cs ih =>
    rw [firstCandidates, firsts, List.filter_cons]
    split
    · next hc =>
      rw [ih, if_pos (decide_eq_true hc), List.filter_filter]
      simp [Bool.and_comm]
    · next hc =>
      rw [ih, if_neg (by simpa using hc), List.filter_filter]
      congr 1
      funext d
      by_cases hd : d.run.id = c.run.id <;> simp [hd, hc]

/-- Where a field tells elements apart, only one has a given value there. -/
theorem filter_of_nodup_map {α β : Type} [BEq β] [LawfulBEq β] {f : α → β} :
    ∀ {l : List α} {a : α}, (l.map f).Nodup → a ∈ l → (l.filter fun b => f b == f a) = [a]
  | b :: l, a, hl, ha => by
    obtain ⟨hb, hl⟩ := List.nodup_cons.1 hl
    rcases List.mem_cons.1 ha with rfl | ha
    · rw [List.filter_cons_of_pos (by simp), List.cons.injEq, List.filter_eq_nil_iff]
      refine ⟨rfl, fun c hc e => hb ?_⟩
      exact List.mem_map.2 ⟨c, hc, by simpa using e⟩
    · rw [List.filter_cons_of_neg, filter_of_nodup_map hl ha]
      intro e
      rw [beq_iff_eq] at e
      exact hb (List.mem_map.2 ⟨a, ha, e.symm⟩)

namespace Keyed.Tables

open OrderedMap

variable {t u : Tables}

/-- The runs of candidates as they are inserted. -/
abbrev submitted (cs : List Candidate) : List FlowRun := cs.map Candidate.unlinkedRun

/-- Whether a submitted run is there once the runs are inserted, and had no state before. -/
def IsNew (t : Tables) (cs : List Candidate) (runId : String) : Prop :=
  (∃ c ∈ cs, c.run.id = runId) ∧ t.Taken (submitted cs) runId ∧
    ∀ s ∈ t.states.values, s.runId ≠ runId

instance (cs : List Candidate) (runId : String) : Decidable (t.IsNew cs runId) :=
  inferInstanceAs (Decidable (_ ∧ _))

/-- The first candidate of each run that is to be given a state, in the order of the candidates. -/
def newCandidates (t : Tables) (cs : List Candidate) : List Candidate :=
  (firsts cs).filter fun c => t.IsNew cs c.run.id

/-- The first states of the new candidates. -/
abbrev newStates (t : Tables) (cs : List Candidate) : List RunState :=
  (t.newCandidates cs).map Candidate.firstState

/-- A candidate whose key is new has an id that is taken, or a first state has. -/
def Clash (t : Tables) (cs : List Candidate) : Prop :=
  Somewhere (fun before r => t.Fresh before r ∧ t.Taken before r.id) (submitted cs) ∨
    Somewhere (fun before s => t.StateTaken before s.id) (t.newStates cs)

instance (cs : List Candidate) : Decidable (t.Clash cs) := inferInstanceAs (Decidable (_ ∨ _))

/-- Stores candidates in tables. There are no shortcuts for having nothing to do. -/
def materialize (strategy : LinkStrategy) (cs : List Candidate) (t : Tables) :
    Except Failure (List FlowRun) × Tables :=
  match t.insertRuns (submitted cs) with
  | (.error e, u) => (.error (.refused "insert flow runs" e), u)
  | (.ok (), u) =>
    let fresh := firstCandidates (u.statelessRunIds (cs.map fun c => c.run.id)) cs
    match u.insertStates (fresh.map Candidate.firstState) with
    | (.error e, v) => (.error (.refused "insert initial states" e), v)
    | (.ok (), v) =>
      (.ok (fresh.map Candidate.linkedRun), v.linkStates strategy (fresh.map fun c => c.state.id))

/-! ### New candidates -/

theorem nodup_newCandidates (t : Tables) (cs : List Candidate) :
    ((t.newCandidates cs).map fun c => c.run.id).Nodup :=
  (nodup_firsts cs).sublist (List.filter_sublist.map _)

theorem mem_of_mem_newCandidates {cs : List Candidate} {c : Candidate}
    (hc : c ∈ t.newCandidates cs) : c ∈ cs :=
  (firsts_sublist cs).subset (List.mem_filter.1 hc).1

theorem isNew_of_mem_newCandidates {cs : List Candidate} {c : Candidate}
    (hc : c ∈ t.newCandidates cs) : t.IsNew cs c.run.id := by
  simpa using (List.mem_filter.1 hc).2

theorem eq_of_mem_newCandidates {cs : List Candidate} {c d : Candidate}
    (hc : c ∈ t.newCandidates cs) (hd : d ∈ t.newCandidates cs) (h : c.run.id = d.run.id) :
    c = d :=
  List.inj_on_of_nodup_map (t.nodup_newCandidates cs) hc hd h

/-- A run that is there has no states exactly if no stored state is its own. -/
theorem stateIds_eq_nil_iff (ht : t.WellFormed) {runId : String} :
    t.stateIds runId = [] ↔ ∀ s ∈ t.states.values, s.runId ≠ runId := by
  rw [List.eq_nil_iff_forall_not_mem]
  simp only [ht.mem_stateIds]
  constructor
  · intro h s hs e
    obtain ⟨id, hid⟩ := mem_values.1 hs
    exact h id ⟨s, hid, e⟩
  · rintro h id ⟨s, hs, e⟩
    exact h s (mem_values.2 ⟨id, hs⟩) e

theorem stateIds_insertRuns (t : Tables) (rs : List FlowRun) (runId : String) :
    (t.insertRuns rs).2.stateIds runId = t.stateIds runId := by
  obtain ⟨runs, runKeys, h⟩ := insertRuns_frame t rs
  rw [h]
  rfl

/-- What looks like a run without states after the runs are inserted is what is new. -/
theorem firstCandidates_statelessRunIds (ht : t.WellFormed) {cs : List Candidate}
    (h : (t.insertRuns (submitted cs)).1 = .ok ()) :
    firstCandidates
        ((t.insertRuns (submitted cs)).2.statelessRunIds (cs.map fun c => c.run.id)) cs =
      t.newCandidates cs := by
  rw [firstCandidates_eq, newCandidates]
  refine List.filter_congr fun c hc => ?_
  rw [decide_eq_decide, statelessRunIds, List.mem_filter, isStateless, Bool.and_eq_true,
    contains_runs_insertRuns ht h, stateIds_insertRuns, List.isEmpty_iff, stateIds_eq_nil_iff ht,
    List.mem_map, IsNew]

theorem materialize_eq (ht : t.WellFormed) (strategy : LinkStrategy) (cs : List Candidate) :
    t.materialize strategy cs =
      match t.insertRuns (submitted cs) with
      | (.error e, u) => (.error (.refused "insert flow runs" e), u)
      | (.ok (), u) =>
        match u.insertStates (t.newStates cs) with
        | (.error e, v) => (.error (.refused "insert initial states" e), v)
        | (.ok (), v) =>
          (.ok ((t.newCandidates cs).map Candidate.linkedRun),
            v.linkStates strategy ((t.newCandidates cs).map fun c => c.state.id)) := by
  rw [materialize]
  have hfirst : (t.insertRuns (submitted cs)).1 = .ok () → _ := firstCandidates_statelessRunIds ht
  rcases hu : t.insertRuns (submitted cs) with ⟨_ | ⟨⟩, u⟩
  · rfl
  · rw [hu] at hfirst
    simp only [hfirst rfl, newStates]

theorem stored_of_mem_newStates (ht : t.WellFormed) {cs : List Candidate}
    (h : (t.insertRuns (submitted cs)).1 = .ok ()) :
    ∀ s ∈ t.newStates cs, (t.insertRuns (submitted cs)).2.runs.contains s.runId = true := by
  intro s hs
  obtain ⟨c, hc, rfl⟩ := List.mem_map.1 hs
  rw [contains_runs_insertRuns ht h]
  exact (isNew_of_mem_newCandidates hc).2.1

/-- Storing candidates is refused exactly if they clash. -/
theorem materialize_refused_iff (ht : t.WellFormed) (strategy : LinkStrategy)
    (cs : List Candidate) :
    (∃ e, (t.materialize strategy cs).1 = .error e) ↔ t.Clash cs := by
  rw [materialize_eq ht, Clash, ← insertRuns_refused_iff ht]
  rcases hu : t.insertRuns (submitted cs) with ⟨e | ⟨⟩, u⟩
  · simp
  · -- inserting runs takes no id from the states
    have hstates : ∀ before id, t.StateTaken before id ↔ u.StateTaken before id := by
      obtain ⟨runs, runKeys, h⟩ := insertRuns_frame t (submitted cs)
      rw [hu] at h
      rw [show u = _ from h]
      exact fun _ _ => Iff.rfl
    have hruns : (t.insertRuns (submitted cs)).1 = .ok () → _ := stored_of_mem_newStates ht
    rw [hu] at hruns
    have hruns_ok : ¬ ∃ e, ((.ok (), u) : Outcome × Tables).1 = .error e := by simp
    rw [or_iff_right hruns_ok]
    simp only [hstates, ← insertStates_refused_iff (hruns rfl)]
    rcases u.insertStates (t.newStates cs) with ⟨e | ⟨⟩, v⟩ <;> simp

/-- Whatever refuses candidates, something of theirs exists already. -/
theorem kind_of_materialize_error (ht : t.WellFormed) {strategy : LinkStrategy}
    {cs : List Candidate} {e : Failure} (h : (t.materialize strategy cs).1 = .error e) :
    e.kind = .alreadyExists := by
  rw [materialize_eq ht] at h
  rcases hu : t.insertRuns (submitted cs) with ⟨e' | ⟨⟩, u⟩
  · rw [hu] at h
    cases h
    obtain ⟨id, rfl⟩ := eq_runTaken_of_insertRuns ht (by rw [hu])
    rfl
  · have hruns : (t.insertRuns (submitted cs)).1 = .ok () → _ := stored_of_mem_newStates ht
    rw [hu] at h hruns
    rcases hv : u.insertStates (t.newStates cs) with ⟨e' | ⟨⟩, v⟩
    · simp only [hv] at h
      cases h
      obtain ⟨id, rfl⟩ := eq_stateTaken_of_insertStates (hruns rfl) (by rw [hv])
      rfl
    · simp only [hv] at h
      cases h

/-! ### What stands in the tables afterwards -/

/-- The stored record of a submitted run: the one from before, or the first that was fresh. -/
def Recorded (t : Tables) (cs : List Candidate) (r : FlowRun) : Prop :=
  t.runs.get? r.id = some r ∨ Somewhere (fun before q => t.Fresh before q ∧ q = r) (submitted cs)

/-- Candidates have been stored: those that are new have their runs, their first states and the
links between them, and nothing else has changed. -/
structure Materialized (t : Tables) (cs : List Candidate) (created : List FlowRun) (u : Tables) :
    Prop where
  created_eq : created = (t.newCandidates cs).map Candidate.linkedRun
  exists_recorded : ∀ c ∈ t.newCandidates cs, ∃ r, t.Recorded cs r ∧ r.id = c.run.id
  new_run : ∀ c ∈ t.newCandidates cs, ∀ r, t.Recorded cs r → r.id = c.run.id →
    u.runs.get? r.id = some { r with stateId := some c.state.id }
  new_state : ∀ c ∈ t.newCandidates cs, u.listStates c.run.id = [c.firstState]
  other_run : ∀ runId, ¬ t.IsNew cs runId → u.runs.get? runId = t.runs.get? runId
  other_state : ∀ runId, ¬ t.IsNew cs runId → u.listStates runId = t.listStates runId
  state_iff : ∀ id s, u.states.get? id = some s ↔
    t.states.get? id = some s ∨ s ∈ t.newStates cs ∧ s.id = id
  deployments_eq : u.deployments = t.deployments
  names_eq : u.names = t.names
  schedules_eq : u.schedules = t.schedules
  wellFormed : u.WellFormed

/-- The ids of the states to which the runs of the new candidates are pointed. -/
abbrev newStateIds (t : Tables) (cs : List Candidate) : List String :=
  (t.newCandidates cs).map fun c => c.state.id

/-- The tables when the runs and the states are there and the runs are yet to be linked. -/
abbrev unlinked (t : Tables) (cs : List Candidate) : Tables :=
  ((t.insertRuns (submitted cs)).2.insertStates (t.newStates cs)).2

/-- Each of the steps has been accepted if candidates are. -/
theorem materialize_eq_ok (ht : t.WellFormed) {strategy : LinkStrategy} {cs : List Candidate}
    {created : List FlowRun} (h : (t.materialize strategy cs).1 = .ok created) :
    (t.insertRuns (submitted cs)).1 = .ok () ∧
      ((t.insertRuns (submitted cs)).2.insertStates (t.newStates cs)).1 = .ok () ∧
      created = (t.newCandidates cs).map Candidate.linkedRun ∧
      (t.materialize strategy cs).2 = (t.unlinked cs).linkStates strategy (t.newStateIds cs) := by
  rw [materialize_eq ht] at h ⊢
  rcases hu : t.insertRuns (submitted cs) with ⟨e | ⟨⟩, u⟩
  · rw [hu] at h
    cases h
  · rw [unlinked, hu]
    rw [hu] at h
    rcases hv : u.insertStates (t.newStates cs) with ⟨e | ⟨⟩, v⟩
    · simp only [hv] at h
      cases h
    · simp only [hv, Except.ok.injEq] at h
      refine ⟨rfl, rfl, h.symm, ?_⟩
      simp only [hv]

section Accepted

variable {cs : List Candidate} (ht : t.WellFormed)
  (hruns : (t.insertRuns (submitted cs)).1 = .ok ())
  (hstates : ((t.insertRuns (submitted cs)).2.insertStates (t.newStates cs)).1 = .ok ())

include ht in
theorem wellFormed_unlinked : (t.unlinked cs).WellFormed :=
  (ht.insertRuns _).insertStates _

include hstates in
theorem get?_states_unlinked {id : String} {s : RunState} :
    (t.unlinked cs).states.get? id = some s ↔
      t.states.get? id = some s ∨ s ∈ t.newStates cs ∧ s.id = id := by
  rw [get?_states_insertStates hstates]
  obtain ⟨runs, runKeys, h⟩ := insertRuns_frame t (submitted cs)
  rw [h]

include hstates in
theorem get?_state_of_newCandidate {c : Candidate} (hc : c ∈ t.newCandidates cs) :
    (t.unlinked cs).states.get? c.state.id = some c.firstState :=
  (get?_states_unlinked hstates).2 (.inr ⟨List.mem_map.2 ⟨c, hc, rfl⟩, rfl⟩)

include hstates in
/-- The new candidates have runs of their own, so that it does not matter how these are linked. -/
theorem onePerRun_newStateIds : (t.unlinked cs).OnePerRun (t.newStateIds cs) := by
  intro a ha b hb s q hs hq hrun
  obtain ⟨c, hc, rfl⟩ := List.mem_map.1 ha
  obtain ⟨d, hd, rfl⟩ := List.mem_map.1 hb
  rw [get?_state_of_newCandidate hstates hc] at hs
  rw [get?_state_of_newCandidate hstates hd] at hq
  cases hs
  cases hq
  rw [eq_of_mem_newCandidates hc hd hrun]

include ht hstates in
theorem listedState_of_newCandidate {c : Candidate} (hc : c ∈ t.newCandidates cs) :
    (t.unlinked cs).listedState (t.newStateIds cs) c.run.id = some c.state.id := by
  rw [listedState_eq_some_iff (wellFormed_unlinked ht) (onePerRun_newStateIds hstates), owns_iff]
  exact ⟨List.mem_map.2 ⟨c, hc, rfl⟩, c.firstState, get?_state_of_newCandidate hstates hc, rfl⟩

/-- A run that is new is that of a new candidate. -/
theorem exists_newCandidate {runId : String} (h : t.IsNew cs runId) :
    ∃ c ∈ t.newCandidates cs, c.run.id = runId := by
  obtain ⟨c, hc, rfl⟩ := h.1
  obtain ⟨d, hd, hdc⟩ := exists_mem_firsts hc
  exact ⟨d, List.mem_filter.2 ⟨hd, by simpa [hdc] using h⟩, hdc⟩

include ht hstates in
theorem listedState_eq_none_of_not_isNew {runId : String} (h : ¬ t.IsNew cs runId) :
    (t.unlinked cs).listedState (t.newStateIds cs) runId = none := by
  rw [listedState_eq_none_iff (wellFormed_unlinked ht)]
  intro a ha
  obtain ⟨c, hc, rfl⟩ := List.mem_map.1 ha
  rw [← Bool.not_eq_true, owns_iff]
  rintro ⟨s, hs, rfl⟩
  rw [get?_state_of_newCandidate hstates hc] at hs
  cases hs
  exact h (isNew_of_mem_newCandidates hc)

include ht hruns in
/-- A run that is not new has been there before, or is not there at all. -/
theorem get?_runs_of_not_isNew {runId : String} (h : ¬ t.IsNew cs runId) :
    (t.unlinked cs).runs.get? runId = t.runs.get? runId := by
  rw [runs_insertStates]
  ext r
  rw [get?_runs_insertRuns ht hruns, or_iff_left_iff_imp]
  rintro ⟨before, q, after, hsplit, hfresh, rfl, rfl⟩
  have hq : q ∈ submitted cs := by simp [hsplit]
  obtain ⟨c, hc, hcq⟩ := List.mem_map.1 hq
  have hid : c.run.id = q.id := by
    rw [← hcq]
    rfl
  have htaken : t.Taken (submitted cs) q.id := .inr ⟨before, q, after, hsplit, hfresh, rfl⟩
  -- only a stored run can own a state, so the run is not absent
  cases hr : t.runs.get? q.id with
  | none =>
    refine absurd ⟨⟨c, hc, hid⟩, htaken, fun s hs e => ?_⟩ h
    obtain ⟨p, hp⟩ := contains_iff.1 (ht.state_run hs)
    rw [e, hr] at hp
    cases hp
  | some p =>
    have hp : (t.insertRuns (submitted cs)).2.runs.get? q.id = some p :=
      (get?_runs_insertRuns ht hruns).2 (.inl hr)
    rw [(get?_runs_insertRuns ht hruns).2 (.inr ⟨before, q, after, hsplit, hfresh, rfl, rfl⟩)] at hp
    exact hp.symm

include ht hruns in
theorem recorded_iff {r : FlowRun} :
    t.Recorded cs r ↔ (t.insertRuns (submitted cs)).2.runs.get? r.id = some r := by
  rw [get?_runs_insertRuns ht hruns, Recorded]
  refine or_congr_right ⟨?_, ?_⟩
  · rintro ⟨before, q, after, hsplit, hfresh, rfl⟩
    exact ⟨before, q, after, hsplit, hfresh, rfl, rfl⟩
  · rintro ⟨before, q, after, hsplit, hfresh, rfl, -⟩
    exact ⟨before, q, after, hsplit, hfresh, rfl⟩

include hstates in
theorem stateIds_unlinked (runId : String) :
    (t.unlinked cs).stateIds runId =
      t.stateIds runId ++ ((t.newStates cs).filter (·.runId == runId)).map RunState.id := by
  rw [stateIds_insertStates hstates, stateIds_insertRuns]

/-- The states of a run depend on the states and their index only. -/
theorem listStates_linkStates (t : Tables) (strategy : LinkStrategy) (ids : List String)
    (runId : String) : (t.linkStates strategy ids).listStates runId = t.listStates runId := by
  obtain ⟨runs, h⟩ := linkStates_frame t strategy ids
  rw [h]
  rfl

/-- A new candidate has the only one of the new states that is its run's. -/
theorem filter_newStates {c : Candidate} (hc : c ∈ t.newCandidates cs) :
    (t.newStates cs).filter (·.runId == c.run.id) = [c.firstState] := by
  rw [newStates, List.filter_map]
  exact congrArg _ (filter_of_nodup_map (t.nodup_newCandidates cs) hc)

include ht hstates in
theorem listStates_of_newCandidate {c : Candidate} (hc : c ∈ t.newCandidates cs) :
    (t.unlinked cs).listStates c.run.id = [c.firstState] := by
  have hnone : t.stateIds c.run.id = [] :=
    (stateIds_eq_nil_iff ht).2 (isNew_of_mem_newCandidates hc).2.2
  rw [listStates, stateIds_unlinked hstates, hnone, filter_newStates hc]
  have hget : (t.unlinked cs).states.get? c.firstState.id = some c.firstState :=
    get?_state_of_newCandidate hstates hc
  simp [hget]

include ht hstates in
theorem listStates_of_not_isNew {runId : String} (h : ¬ t.IsNew cs runId) :
    (t.unlinked cs).listStates runId = t.listStates runId := by
  have hmine : (t.newStates cs).filter (·.runId == runId) = [] := by
    rw [List.filter_eq_nil_iff]
    intro s hs e
    obtain ⟨c, hc, rfl⟩ := List.mem_map.1 hs
    rw [beq_iff_eq] at e
    exact h (e ▸ isNew_of_mem_newCandidates hc)
  rw [listStates, stateIds_unlinked hstates, hmine, List.map_nil, List.append_nil, listStates]
  congr 1
  refine List.filterMap_congr fun id hid => ?_
  obtain ⟨s, hs, -⟩ := (ht.mem_stateIds runId id).1 hid
  rw [hs]
  exact (get?_states_unlinked hstates).2 (.inl hs)

end Accepted

/-- Deployments and schedules are left alone. -/
theorem materialize_frame (t : Tables) (cs : List Candidate) (strategy : LinkStrategy) :
    ∃ runs runKeys states statesByRun,
      (t.unlinked cs).linkStates strategy (t.newStateIds cs) =
        { t with runs, runKeys, states, statesByRun } := by
  obtain ⟨_, runKeys, h₁⟩ := insertRuns_frame t (submitted cs)
  obtain ⟨states, statesByRun, h₂⟩ :=
    insertStates_frame (t.insertRuns (submitted cs)).2 (t.newStates cs)
  obtain ⟨runs, h₃⟩ := linkStates_frame (t.unlinked cs) strategy (t.newStateIds cs)
  refine ⟨runs, runKeys, states, statesByRun, ?_⟩
  rw [h₃, unlinked, h₂, h₁]

/-- A run with the key of each candidate is stored once the candidates have been accepted. -/
theorem exists_run_of_ok (ht : t.WellFormed) {strategy : LinkStrategy} {cs : List Candidate}
    {created : List FlowRun} (h : (t.materialize strategy cs).1 = .ok created) {c : Candidate}
    (hc : c ∈ cs) : ∃ r ∈ (t.materialize strategy cs).2.runs.values, r.key = c.run.key := by
  obtain ⟨hruns, -, -, hu⟩ := materialize_eq_ok ht h
  have hkeys : (t.materialize strategy cs).2.runKeys = (t.insertRuns (submitted cs)).2.runKeys := by
    obtain ⟨_, _, hstates⟩ := insertStates_frame (t.insertRuns (submitted cs)).2 (t.newStates cs)
    obtain ⟨_, hlinks⟩ := linkStates_frame (t.unlinked cs) strategy (t.newStateIds cs)
    rw [hu, hlinks, unlinked, hstates]
  have hwf : (t.materialize strategy cs).2.WellFormed := by
    rw [hu]
    exact (wellFormed_unlinked ht).linkStates strategy _
  refine (hwf.runKey_iff c.run.key).1 ?_
  rw [hkeys, contains_runKeys_insertRuns hruns]
  exact .inr ⟨c.unlinkedRun, List.mem_map_of_mem hc, rfl⟩

/-- What holds of the runs that are there and of those of candidates holds of all runs in the end, if
it does not matter for it which states they are in. -/
theorem runs_materialize {P : FlowRun → Prop}
    (hstate : ∀ r stateId, P r → P { r with stateId := stateId }) (ht : ∀ r ∈ t.runs.values, P r)
    {cs : List Candidate} (hcs : ∀ c ∈ cs, P c.run) (strategy : LinkStrategy) :
    ∀ r ∈ (t.materialize strategy cs).2.runs.values, P r := by
  have hruns : ∀ r ∈ (t.insertRuns (submitted cs)).2.runs.values, P r := by
    refine insertRuns_keeps (P := fun u => ∀ r ∈ u.runs.values, P r) (fun {u v} r hr hu hv => ?_) ht
    rcases insertRun_eq_ok.1 hv with ⟨-, rfl⟩ | ⟨-, hid, rfl⟩
    · exact hu
    · intro q hq
      rcases (mem_values_insert hid).1 hq with hq | rfl
      · exact hu q hq
      · obtain ⟨c, hc, rfl⟩ := List.mem_map.1 hr
        exact hstate c.run none (hcs c hc)
  have hlinked : ∀ (u : Tables) ids, (∀ r ∈ u.runs.values, P r) →
      ∀ r ∈ (u.linkStates strategy ids).runs.values, P r := by
    refine fun u ids => linkStates_keeps (P := fun v => ∀ r ∈ v.runs.values, P r) ?_ strategy ids
    intro v id stateId hv r hr
    obtain ⟨q, hq, rfl | rfl⟩ := mem_values_modify hr
    · exact hv _ hq
    · exact hstate q stateId (hv q hq)
  rw [materialize]
  rcases hu : t.insertRuns (submitted cs) with ⟨e | ⟨⟩, u⟩
  · rw [hu] at hruns
    exact hruns
  · rw [hu] at hruns
    simp only
    generalize firstCandidates (u.statelessRunIds (cs.map fun c => c.run.id)) cs = fresh
    have hstates := runs_insertStates u (fresh.map Candidate.firstState)
    rcases hv : u.insertStates (fresh.map Candidate.firstState) with ⟨e | ⟨⟩, v⟩
    · rw [hv] at hstates
      rw [hstates]
      exact hruns
    · rw [hv] at hstates
      exact hlinked v _ (hstates ▸ hruns)

/-- Candidates that are accepted are stored as they should be. -/
theorem materialized_of_ok (ht : t.WellFormed) {strategy : LinkStrategy} {cs : List Candidate}
    {created : List FlowRun} (h : (t.materialize strategy cs).1 = .ok created) :
    Materialized t cs created (t.materialize strategy cs).2 := by
  obtain ⟨hruns, hstates, hcreated, hu⟩ := materialize_eq_ok ht h
  have hwf : (t.unlinked cs).WellFormed := wellFormed_unlinked ht
  have hlinked := get?_runs_linkStates hwf (onePerRun_newStateIds hstates) strategy
  obtain ⟨runs, hlink⟩ := linkStates_frame (t.unlinked cs) strategy (t.newStateIds cs)
  obtain ⟨_, _, _, _, hframe⟩ := materialize_frame t cs strategy
  rw [hu]
  exact {
    created_eq := hcreated
    exists_recorded := by
      intro c hc
      have htaken : t.Taken (submitted cs) c.run.id := (isNew_of_mem_newCandidates hc).2.1
      rw [← contains_runs_insertRuns ht hruns] at htaken
      obtain ⟨r, hr⟩ := contains_iff.1 htaken
      have hid : r.id = c.run.id := (ht.insertRuns _).run_id hr
      exact ⟨r, (recorded_iff ht hruns).2 (hid ▸ hr), hid⟩
    new_run := by
      intro c hc r hr hid
      have hlisted : (t.unlinked cs).listedState (t.newStateIds cs) r.id = some c.state.id := by
        rw [hid]
        exact listedState_of_newCandidate ht hstates hc
      rw [hlinked, runs_insertStates, (recorded_iff ht hruns).1 hr, hlisted]
      rfl
    new_state := by
      intro c hc
      rw [listStates_linkStates]
      exact listStates_of_newCandidate ht hstates hc
    other_run := by
      intro runId hnot
      rw [hlinked, listedState_eq_none_of_not_isNew ht hstates hnot,
        get?_runs_of_not_isNew ht hruns hnot]
      exact Option.map_id'
    other_state := by
      intro runId hnot
      rw [listStates_linkStates]
      exact listStates_of_not_isNew ht hstates hnot
    state_iff := by
      intro id s
      rw [hlink]
      exact get?_states_unlinked hstates
    deployments_eq := by rw [hframe]
    names_eq := by rw [hframe]
    schedules_eq := by rw [hframe]
    wellFormed := hwf.linkStates strategy _ }

end Keyed.Tables

end Timetable
