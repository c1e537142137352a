import Timetable.Proofs.Keyed.Retry

/-!
# What storing adds, in whatever order

Candidates are `Coherent` if ids tell keys apart and what is stored of a candidate depends on its
key alone. Storing such candidates in healthy tables adds records that are known from the tables
before and from the candidates (`Tables.Stored`). Nothing else is left to tell two outcomes apart,
so it does not matter in which order or how often candidates are stored (`Stored.trans`,
`Stored.unique`). Whether storing is refused is decided by each candidate for itself
(`Tables.Blocked`, `materialize_refused_iff_blocked`), and storing others does not change that
(`Stored.blocked_iff`).
-/

namespace Timetable

/-- Ids tell the keys of candidates apart, and those with the same key are stored as the same. -/
structure Coherent (cs : List Candidate) : Prop where
  genuine : ∀ c ∈ cs, c.Genuine
  key_eq : ∀ {c d}, c ∈ cs → d ∈ cs → c.run.id = d.run.id → c.run.key = d.run.key
  id_eq : ∀ {c d}, c ∈ cs → d ∈ cs → c.state.id = d.state.id → c.run.id = d.run.id
  run_eq : ∀ {c d}, c ∈ cs → d ∈ cs → c.run.key = d.run.key → c.run = d.run
  state_eq : ∀ {c d}, c ∈ cs → d ∈ cs → c.run.key = d.run.key → c.state = d.state

namespace Coherent

variable {cs ds : List Candidate} {c d : Candidate}

theorem subset (h : Coherent cs) (hsub : ds ⊆ cs) : Coherent ds where
  genuine c hc := h.genuine c (hsub hc)
  key_eq hc hd := h.key_eq (hsub hc) (hsub hd)
  id_eq hc hd := h.id_eq (hsub hc) (hsub hd)
  run_eq hc hd := h.run_eq (hsub hc) (hsub hd)
  state_eq hc hd := h.state_eq (hsub hc) (hsub hd)

theorem linkedRun_eq (h : Coherent cs) (hc : c ∈ cs) (hd : d ∈ cs) (hid : c.run.id = d.run.id) :
    c.linkedRun = d.linkedRun := by
  have hkey := h.key_eq hc hd hid
  rw [Candidate.linkedRun, Candidate.linkedRun, h.run_eq hc hd hkey, h.state_eq hc hd hkey]

theorem firstState_eq (h : Coherent cs) (hc : c ∈ cs) (hd : d ∈ cs) (hid : c.run.id = d.run.id) :
    c.firstState = d.firstState := by
  have hkey := h.key_eq hc hd hid
  rw [Candidate.firstState, Candidate.firstState, h.run_eq hc hd hkey, h.state_eq hc hd hkey]

/-- The run of a candidate is that of one of the first candidates, or only later ones have it. -/
theorem first_or_later (h : Coherent (cs ++ ds)) (hd : d ∈ cs ++ ds) :
    (∃ c ∈ cs, c.run.id = d.run.id ∧ c.linkedRun = d.linkedRun ∧ c.firstState = d.firstState) ∨
      d ∈ ds ∧ ∀ c ∈ cs, c.run.id ≠ d.run.id := by
  by_cases hfirst : ∃ c ∈ cs, c.run.id = d.run.id
  · obtain ⟨c, hc, hid⟩ := hfirst
    have hccs := List.mem_append_left ds hc
    exact .inl ⟨c, hc, hid, h.linkedRun_eq hccs hd hid, h.firstState_eq hccs hd hid⟩
  · have hother : ∀ c ∈ cs, c.run.id ≠ d.run.id := fun c hc e => hfirst ⟨c, hc, e⟩
    refine .inr ⟨(List.mem_append.1 hd).resolve_left fun hd => ?_, hother⟩
    exact hother d hd rfl

end Coherent

namespace Keyed.Tables

open OrderedMap

variable {t u v : Tables} {cs ds : List Candidate} {strategy : LinkStrategy}
  {created : List FlowRun}

/-- A candidate has a new key, but its run or its state has an id that is taken. -/
def Blocked (t : Tables) (c : Candidate) : Prop :=
  t.runKeys.contains c.run.key = false ∧
    (t.runs.contains c.run.id = true ∨ t.states.contains c.state.id = true)

/-- The candidates whose runs have not been there are stored, each with its state and linked to it,
and nothing else has changed. -/
structure Stored (t : Tables) (cs : List Candidate) (u : Tables) : Prop where
  runs_iff : ∀ {id r}, u.runs.get? id = some r ↔ t.runs.get? id = some r ∨
    t.runs.get? id = none ∧ ∃ c ∈ cs, c.run.id = id ∧ c.linkedRun = r
  runKeys_iff : ∀ {k}, u.runKeys.contains k = true ↔
    t.runKeys.contains k = true ∨ ∃ c ∈ cs, c.run.key = k
  states_iff : ∀ {id s}, u.states.get? id = some s ↔ t.states.get? id = some s ∨
    ∃ c ∈ cs, t.runs.get? c.run.id = none ∧ c.firstState = s ∧ s.id = id
  index_new : ∀ {c}, c ∈ cs → t.runs.get? c.run.id = none →
    u.statesByRun.get? c.run.id = some [c.state.id]
  index_old : ∀ {id}, (∀ c ∈ cs, c.run.id = id → t.runs.get? id ≠ none) →
    u.statesByRun.get? id = t.statesByRun.get? id
  deployments_eq : u.deployments = t.deployments
  names_eq : u.names = t.names
  schedules_eq : u.schedules = t.schedules

/-! ### Storing candidates -/

/-- Which states belong to a run is not touched by the states of others. -/
theorem statesByRun_insertStates_of_ne {ss : List RunState} {runId : String}
    (hne : ∀ s ∈ ss, s.runId ≠ runId) :
    (t.insertStates ss).2.statesByRun.get? runId = t.statesByRun.get? runId := by
  refine insertStates_keeps
    (P := fun u => u.statesByRun.get? runId = t.statesByRun.get? runId) ?_ rfl
  intro u v s hs hu hv
  obtain ⟨-, -, rfl⟩ := insertState_eq_ok.1 hv
  rw [get?_insert, if_neg (Ne.symm (hne s hs)), hu]

section Healthy

variable (h : t.Healthy) (hcs : Coherent cs)

include h hcs in
/-- Where candidates have been accepted, those whose runs were not there are new. -/
theorem isNew_iff (hok : (t.materialize strategy cs).1 = .ok created) {c : Candidate}
    (hc : c ∈ cs) :
    t.IsNew cs c.run.id ↔ t.runs.get? c.run.id = none := by
  refine ⟨h.get?_of_isNew, fun hnone => ?_⟩
  have hu := materialized_of_ok h.wellFormed hok
  have hhealthy := h.of_materialized hcs.genuine hu
  obtain ⟨r, hr, hid⟩ := hhealthy.exists_run (hcs.genuine c hc)
    ((settled_materialize h.wellFormed hok).keys c hc)
  have hget := hhealthy.wellFormed.holds_runs.get?_of_mem hr
  by_contra hnot
  rw [hid, hu.other_run _ hnot, hnone] at hget
  cases hget

include h hcs in
/-- The first of the new candidates of a run stands for all of them. -/
theorem exists_newCandidate_eq (hok : (t.materialize strategy cs).1 = .ok created) {c : Candidate}
    (hc : c ∈ cs) (hnone : t.runs.get? c.run.id = none) :
    ∃ d ∈ t.newCandidates cs, d.run.id = c.run.id ∧ d.linkedRun = c.linkedRun ∧
      d.firstState = c.firstState := by
  obtain ⟨d, hd, hid⟩ := exists_newCandidate ((isNew_iff h hcs hok hc).2 hnone)
  have hdcs := mem_of_mem_newCandidates hd
  exact ⟨d, hd, hid, hcs.linkedRun_eq hdcs hc hid, hcs.firstState_eq hdcs hc hid⟩

include h hcs in
/-- Coherent candidates that are accepted are stored. -/
theorem stored_of_ok (hok : (t.materialize strategy cs).1 = .ok created) :
    t.Stored cs (t.materialize strategy cs).2 := by
  have hu := materialized_of_ok h.wellFormed hok
  obtain ⟨hruns, hstates, -, hmat⟩ := materialize_eq_ok h.wellFormed hok
  -- the indexes are those from before the runs are linked
  obtain ⟨_, hlink⟩ := linkStates_frame (t.unlinked cs) strategy (t.newStateIds cs)
  obtain ⟨_, _, hinsert⟩ := insertStates_frame (t.insertRuns (submitted cs)).2 (t.newStates cs)
  have hindex : (t.materialize strategy cs).2.statesByRun = (t.unlinked cs).statesByRun := by
    rw [hmat, hlink]
  have hkeys : (t.materialize strategy cs).2.runKeys = (t.insertRuns (submitted cs)).2.runKeys := by
    rw [hmat, hlink, unlinked, hinsert]
  exact {
    runs_iff := by
      intro id r
      by_cases hnew : t.IsNew cs id
      · obtain ⟨c, hc, rfl⟩ := exists_newCandidate hnew
        have hget : (t.materialize strategy cs).2.runs.get? c.run.id = some c.linkedRun :=
          hu.new_run c hc c.unlinkedRun (h.recorded hcs.genuine hc) rfl
        have hccs := mem_of_mem_newCandidates hc
        rw [hget, h.get?_of_isNew hnew, Option.some.injEq]
        constructor
        · rintro rfl
          exact .inr ⟨rfl, c, hccs, rfl, rfl⟩
        · rintro (hr | ⟨-, d, hd, hid, rfl⟩)
          · cases hr
          · exact (hcs.linkedRun_eq hd hccs hid).symm
      · rw [hu.other_run id hnew, iff_self_or]
        rintro ⟨hnone, c, hc, rfl, -⟩
        exact absurd ((isNew_iff h hcs hok hc).2 hnone) hnew
    runKeys_iff := by
      intro k
      rw [hkeys, contains_runKeys_insertRuns hruns]
      refine or_congr_right ⟨?_, ?_⟩
      · rintro ⟨r, hr, rfl⟩
        obtain ⟨c, hc, rfl⟩ := List.mem_map.1 hr
        exact ⟨c, hc, rfl⟩
      · rintro ⟨c, hc, rfl⟩
        exact ⟨c.unlinkedRun, List.mem_map_of_mem hc, rfl⟩
    states_iff := by
      intro id s
      rw [hu.state_iff]
      refine or_congr_right ⟨?_, ?_⟩
      · rintro ⟨hs, hid⟩
        obtain ⟨c, hc, rfl⟩ := List.mem_map.1 hs
        have hnone := h.get?_of_isNew (isNew_of_mem_newCandidates hc)
        exact ⟨c, mem_of_mem_newCandidates hc, hnone, rfl, hid⟩
      · rintro ⟨c, hc, hnone, rfl, hid⟩
        obtain ⟨d, hd, -, -, hstate⟩ := exists_newCandidate_eq h hcs hok hc hnone
        exact ⟨hstate ▸ List.mem_map_of_mem hd, hid⟩
    index_new := by
      intro c hc hnone
      obtain ⟨d, hd, hid, -, hstate⟩ := exists_newCandidate_eq h hcs hok hc hnone
      have hids : (t.unlinked cs).stateIds c.run.id = [c.state.id] := by
        rw [stateIds_unlinked hstates,
          (stateIds_eq_nil_iff h.wellFormed).2 ((isNew_iff h hcs hok hc).2 hnone).2.2, ← hid,
          filter_newStates hd, hstate]
        rfl
      rw [hindex]
      cases hget : (t.unlinked cs).statesByRun.get? c.run.id with
      | none => simp [stateIds, hget] at hids
      | some ids => simpa [stateIds, hget] using hids
    index_old := by
      intro id hold
      rw [hindex, unlinked, statesByRun_insertStates_of_ne]
      · obtain ⟨_, _, hframe⟩ := insertRuns_frame t (submitted cs)
        rw [hframe]
      · intro s hs e
        obtain ⟨c, hc, rfl⟩ := List.mem_map.1 hs
        have hnone := h.get?_of_isNew (isNew_of_mem_newCandidates hc)
        exact hold c (mem_of_mem_newCandidates hc) e (e ▸ hnone)
    deployments_eq := hu.deployments_eq
    names_eq := hu.names_eq
    schedules_eq := hu.schedules_eq }

/-! ### Being refused -/

include h hcs in
/-- What clashes is blocked: within coherent candidates, no two take an id from each other. -/
theorem exists_blocked_of_clash (hclash : t.Clash cs) : ∃ c ∈ cs, t.Blocked c := by
  rcases hclash with ⟨before, r, after, hsplit, hfresh, htaken⟩ | ⟨before, s, after, hsplit, htaken⟩
  · have hmem : ∀ q ∈ before ++ [r], q ∈ submitted cs := by
      intro q hq
      rw [hsplit]
      simp only [List.mem_append, List.mem_cons] at hq ⊢
      tauto
    obtain ⟨c, hc, rfl⟩ := List.mem_map.1 (hmem r (by simp))
    have hkey : t.runKeys.contains c.run.key = false :=
      (fresh_nil_iff h.wellFormed).1 fun q hq =>
        hfresh q (List.mem_append_left _ (by simpa using hq))
    rcases htaken with hstored | ⟨_, q, _, hbefore, -, hid⟩
    · exact ⟨c, hc, hkey, .inl hstored⟩
    · -- an earlier candidate with the same id has the same key, so this one would not be fresh
      have hq : q ∈ before := by simp [hbefore]
      obtain ⟨d, hd, rfl⟩ := List.mem_map.1 (hmem q (by simp [hq]))
      exact absurd (hcs.key_eq hd hc hid) (hfresh d.unlinkedRun (List.mem_append_right _ hq))
  · have hs : s ∈ t.newStates cs := by simp [hsplit]
    obtain ⟨c, hc, rfl⟩ := List.mem_map.1 hs
    have hccs := mem_of_mem_newCandidates hc
    have hnone := h.get?_of_isNew (isNew_of_mem_newCandidates hc)
    rcases htaken with hstored | ⟨q, hq, hid⟩
    · refine ⟨c, hccs, ?_, .inr hstored⟩
      rw [← Bool.not_eq_true]
      intro hkey
      obtain ⟨r, hr, hrid⟩ := h.exists_run (hcs.genuine c hccs) hkey
      rw [← hrid, h.wellFormed.holds_runs.get?_of_mem hr] at hnone
      cases hnone
    · -- the new states belong to different runs, so their ids differ
      have hnodup : ((t.newStates cs).map RunState.runId).Nodup := by
        rw [newStates, List.map_map]
        exact t.nodup_newCandidates cs
      have hqs : q ∈ t.newStates cs := by simp [hsplit, hq]
      obtain ⟨d, hd, rfl⟩ := List.mem_map.1 hqs
      have hrun := hcs.id_eq (mem_of_mem_newCandidates hd) hccs hid
      rw [hsplit, List.map_append, List.map_cons, List.nodup_append] at hnodup
      exact absurd hrun (hnodup.2.2 _ (List.mem_map_of_mem hq) _ (List.mem_cons_self ..))

include h hcs in
/-- None of the candidates that are accepted is blocked. -/
theorem not_blocked_of_ok (hok : (t.materialize strategy cs).1 = .ok created) {c : Candidate}
    (hc : c ∈ cs) : ¬ t.Blocked c := by
  rintro ⟨hkey, htaken⟩
  have hu := stored_of_ok h hcs hok
  have hhealthy := h.of_materialized hcs.genuine (materialized_of_ok h.wellFormed hok)
  cases hold : t.runs.get? c.run.id with
  | some r =>
    -- the run with that id is the one whose key is stored in the end, and it was there before
    obtain ⟨q, hq, hqkey⟩ := (hhealthy.wellFormed.runKey_iff c.run.key).1
      (hu.runKeys_iff.2 (.inr ⟨c, hc, rfl⟩))
    have hnamed : c.unlinkedRun.Named := (hcs.genuine c hc).id_eq
    have hqid : q.id = c.run.id := (hhealthy.named q hq).id_eq hnamed hqkey
    have hget := hhealthy.wellFormed.holds_runs.get?_of_mem hq
    rw [hqid, hu.runs_iff.2 (.inl hold), Option.some.injEq] at hget
    have hstored : t.runKeys.contains c.run.key = true :=
      (h.wellFormed.runKey_iff _).2 ⟨r, mem_values.2 ⟨_, hold⟩, hget ▸ hqkey⟩
    rw [hkey] at hstored
    cases hstored
  | none =>
    -- the state with that id would be the one that the candidate has got
    rcases htaken with hstored | hstored
    · obtain ⟨r, hr⟩ := contains_iff.1 hstored
      rw [hold] at hr
      cases hr
    · obtain ⟨s, hs⟩ := contains_iff.1 hstored
      have hfirst := hu.states_iff.2 (.inr ⟨c, hc, hold, rfl, rfl⟩)
      have hid : c.firstState.id = c.state.id := rfl
      rw [hid, hu.states_iff.2 (.inl hs), Option.some.injEq] at hfirst
      obtain ⟨r, hr⟩ := contains_iff.1 (h.wellFormed.state_run (mem_values.2 ⟨_, hs⟩))
      rw [hfirst, show c.firstState.runId = c.run.id from rfl, hold] at hr
      cases hr

include h hcs in
/-- Coherent candidates are refused exactly if one of them is blocked. -/
theorem materialize_refused_iff_blocked (strategy : LinkStrategy) :
    (∃ e, (t.materialize strategy cs).1 = .error e) ↔ ∃ c ∈ cs, t.Blocked c := by
  constructor
  · rw [materialize_refused_iff h.wellFormed]
    exact exists_blocked_of_clash h hcs
  · rintro ⟨c, hc, hblocked⟩
    cases hresult : (t.materialize strategy cs).1 with
    | error e => exact ⟨e, rfl⟩
    | ok created => exact absurd hblocked (not_blocked_of_ok h hcs hresult hc)

end Healthy

/-! ### Storing more -/

namespace Stored

theorem refl (t : Tables) : t.Stored [] t where
  runs_iff := by simp
  runKeys_iff := by simp
  states_iff := by simp
  index_new hc := by cases hc
  index_old _ := rfl
  deployments_eq := rfl
  names_eq := rfl
  schedules_eq := rfl

/-- A run is missing in the end if it was missing before and no candidate has brought it. -/
theorem get?_runs_eq_none_iff (hu : t.Stored cs u) {id : String} :
    u.runs.get? id = none ↔ t.runs.get? id = none ∧ ∀ c ∈ cs, c.run.id ≠ id := by
  simp only [Option.eq_none_iff_forall_ne_some, ne_eq, hu.runs_iff, not_or, not_and, not_exists]
  constructor
  · intro h
    have hnone : ∀ r, ¬ t.runs.get? id = some r := fun r => (h r).1
    exact ⟨hnone, fun c hc e => (h c.linkedRun).2 hnone c hc e rfl⟩
  · rintro ⟨hnone, hother⟩ r
    exact ⟨hnone r, fun _ c hc e => absurd e (hother c hc)⟩

section Trans

variable (hu : t.Stored cs u) (hv : u.Stored ds v) (h : Coherent (cs ++ ds))

include hu hv h

/-- A run that both times have brought is that of the first time. -/
theorem trans_runs {id : String} {r : FlowRun} : v.runs.get? id = some r ↔
    t.runs.get? id = some r ∨
      t.runs.get? id = none ∧ ∃ c ∈ cs ++ ds, c.run.id = id ∧ c.linkedRun = r := by
  rw [hv.runs_iff, hu.runs_iff, hu.get?_runs_eq_none_iff]
  constructor
  · rintro ((hr | ⟨hnone, c, hc, hcr⟩) | ⟨⟨hnone, -⟩, d, hd, hdr⟩)
    · exact .inl hr
    · exact .inr ⟨hnone, c, List.mem_append_left ds hc, hcr⟩
    · exact .inr ⟨hnone, d, List.mem_append_right cs hd, hdr⟩
  · rintro (hr | ⟨hnone, d, hd, hid, rfl⟩)
    · exact .inl (.inl hr)
    · rcases h.first_or_later hd with ⟨c, hc, hcid, hsame, -⟩ | ⟨hd, hother⟩
      · exact .inl (.inr ⟨hnone, c, hc, hcid.trans hid, hsame⟩)
      · rw [hid] at hother
        exact .inr ⟨⟨hnone, hother⟩, d, hd, hid, rfl⟩

theorem trans_states {id : String} {s : RunState} : v.states.get? id = some s ↔
    t.states.get? id = some s ∨
      ∃ c ∈ cs ++ ds, t.runs.get? c.run.id = none ∧ c.firstState = s ∧ s.id = id := by
  rw [hv.states_iff, hu.states_iff]
  simp only [hu.get?_runs_eq_none_iff]
  constructor
  · rintro ((hs | ⟨c, hc, hcs⟩) | ⟨d, hd, ⟨hnone, -⟩, hds⟩)
    · exact .inl hs
    · exact .inr ⟨c, List.mem_append_left ds hc, hcs⟩
    · exact .inr ⟨d, List.mem_append_right cs hd, hnone, hds⟩
  · rintro (hs | ⟨d, hd, hnone, rfl, hid⟩)
    · exact .inl (.inl hs)
    · rcases h.first_or_later hd with ⟨c, hc, hcid, -, hsame⟩ | ⟨hd, hother⟩
      · exact .inl (.inr ⟨c, hc, hcid ▸ hnone, hsame, hid⟩)
      · exact .inr ⟨d, hd, ⟨hnone, hother⟩, rfl, hid⟩

theorem trans_index {d : Candidate} (hd : d ∈ cs ++ ds) (hnone : t.runs.get? d.run.id = none) :
    v.statesByRun.get? d.run.id = some [d.state.id] := by
  rcases h.first_or_later hd with ⟨c, hc, hcid, -, hsame⟩ | ⟨hd, hother⟩
  · have hfirst := congrArg RunState.id hsame
    have hstate : c.state.id = d.state.id := hfirst
    rw [hv.index_old, ← hcid, hu.index_new hc (hcid ▸ hnone), hstate]
    intro e _ _ he
    exact (hu.get?_runs_eq_none_iff.1 he).2 c hc hcid
  · exact hv.index_new hd (hu.get?_runs_eq_none_iff.2 ⟨hnone, hother⟩)

/-- Storing some candidates and then others is storing all of them. -/
theorem trans : t.Stored (cs ++ ds) v where
  runs_iff := trans_runs hu hv h
  runKeys_iff := by
    intro k
    simp only [hv.runKeys_iff, hu.runKeys_iff, List.mem_append, or_and_right, exists_or, or_assoc]
  states_iff := trans_states hu hv h
  index_new := trans_index hu hv h
  index_old := by
    intro id hold
    rw [hv.index_old, hu.index_old]
    · exact fun c hc => hold c (List.mem_append_left ds hc)
    · intro d hd e hnone
      exact hold d (List.mem_append_right cs hd) e (hu.get?_runs_eq_none_iff.1 hnone).1
  deployments_eq := hv.deployments_eq.trans hu.deployments_eq
  names_eq := hv.names_eq.trans hu.names_eq
  schedules_eq := hv.schedules_eq.trans hu.schedules_eq

end Trans

/-- What is stored depends on which candidates there are, and not on their order. -/
theorem unique (hu : t.Stored cs u) (hv : t.Stored ds v) (hmem : ∀ c, c ∈ cs ↔ c ∈ ds) : u = v := by
  have hruns : u.runs = v.runs := by
    refine ext_get? fun id => Option.ext fun r => ?_
    simp only [hu.runs_iff, hv.runs_iff, hmem]
  have hkeys : u.runKeys = v.runKeys := by
    refine ext_get? fun k => Option.ext fun _ => ?_
    rw [get?_unit_iff, get?_unit_iff, hu.runKeys_iff, hv.runKeys_iff]
    simp only [hmem]
  have hstates : u.states = v.states := by
    refine ext_get? fun id => Option.ext fun s => ?_
    simp only [hu.states_iff, hv.states_iff, hmem]
  have hindex : u.statesByRun = v.statesByRun := by
    refine ext_get? fun id => ?_
    by_cases hnew : ∃ c ∈ cs, c.run.id = id ∧ t.runs.get? id = none
    · obtain ⟨c, hc, rfl, hnone⟩ := hnew
      rw [hu.index_new hc hnone, hv.index_new ((hmem c).1 hc) hnone]
    · have hold : ∀ c ∈ cs, c.run.id = id → t.runs.get? id ≠ none := fun c hc e hnone =>
        hnew ⟨c, hc, e, hnone⟩
      rw [hu.index_old hold, hv.index_old fun c hc => hold c ((hmem c).2 hc)]
  have hdeployments := hu.deployments_eq.trans hv.deployments_eq.symm
  have hnames := hu.names_eq.trans hv.names_eq.symm
  have hschedules := hu.schedules_eq.trans hv.schedules_eq.symm
  cases u
  cases v
  simp_all

/-- Storing candidates that are not blocked blocks no other candidate and frees none. -/
theorem blocked_iff (hu : t.Stored cs u) (h : Coherent (cs ++ ds)) (hcs : ∀ c ∈ cs, ¬ t.Blocked c)
    {d : Candidate} (hd : d ∈ ds) : u.Blocked d ↔ t.Blocked d := by
  have hdcs : d ∈ cs ++ ds := List.mem_append_right cs hd
  constructor
  · rintro ⟨hkey, htaken⟩
    rw [← Bool.not_eq_true, hu.runKeys_iff, not_or] at hkey
    obtain ⟨hold, hother⟩ := hkey
    -- a candidate that has taken an id of `d` would have its key, too
    have hfree : ∀ c ∈ cs, c.run.id ≠ d.run.id := fun c hc e =>
      hother ⟨c, hc, h.key_eq (List.mem_append_left ds hc) hdcs e⟩
    refine ⟨by simpa using hold, htaken.imp (fun hrun => ?_) fun hstate => ?_⟩
    · obtain ⟨r, hr⟩ := contains_iff.1 hrun
      rcases hu.runs_iff.1 hr with hr | ⟨-, c, hc, hid, -⟩
      · exact contains_iff.2 ⟨r, hr⟩
      · exact absurd hid (hfree c hc)
    · obtain ⟨s, hs⟩ := contains_iff.1 hstate
      rcases hu.states_iff.1 hs with hs | ⟨c, hc, -, rfl, hid⟩
      · exact contains_iff.2 ⟨s, hs⟩
      · exact absurd (h.id_eq (List.mem_append_left ds hc) hdcs hid) (hfree c hc)
  · rintro ⟨hkey, htaken⟩
    refine ⟨?_, htaken.imp (fun hrun => ?_) fun hstate => ?_⟩
    · rw [← Bool.not_eq_true, hu.runKeys_iff, not_or]
      refine ⟨by simpa using hkey, ?_⟩
      -- a candidate with the key of `d` would have been blocked like `d`
      rintro ⟨c, hc, hsame⟩
      have hccs : c ∈ cs ++ ds := List.mem_append_left ds hc
      refine hcs c hc ⟨hsame ▸ hkey, ?_⟩
      rw [h.run_eq hccs hdcs hsame, h.state_eq hccs hdcs hsame]
      exact htaken
    · obtain ⟨r, hr⟩ := contains_iff.1 hrun
      exact contains_iff.2 ⟨r, hu.runs_iff.2 (.inl hr)⟩
    · obtain ⟨s, hs⟩ := contains_iff.1 hstate
      exact contains_iff.2 ⟨s, hu.states_iff.2 (.inl hs)⟩

end Stored

end Keyed.Tables

end Timetable
