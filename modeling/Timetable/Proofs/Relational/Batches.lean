import Timetable.Proofs.Materialize
import Timetable.Proofs.Relational.IdStatement
import Timetable.Proofs.Relational.Mirror
import Timetable.Proofs.Relational.Rows

/-!
# Batches of statements

A request about many records is one statement after the other, or one for each batch of ids. What a
transaction of the relational store makes of such a request, the keyed tables make of it too
(`run_insertRuns`, `run_insertStates`, `run_linkStates`, `run_statelessRunIds`), if the texts hold
no U+0000. So such a transaction follows keyed tables while candidates are stored (`tracks`).
-/

namespace Timetable.Relational

open Text OrderedMap

theorem nulFree_of_mem_batches {ids : List String} (h : ∀ x ∈ ids, NulFree x) :
    ∀ part ∈ Sql.batches ids, ∀ x ∈ part, NulFree x := by
  intro part hpart x hx
  apply h
  rw [← Sql.flatten_batches ids]
  exact List.mem_flatten.2 ⟨part, hpart, hx⟩

namespace MirrorsRuns

variable {v : Version} {c base w : Tables} {t : Keyed.Tables}

/-! ### Runs and states -/

/-- A statement that inserts a row does what the keyed tables do, or is refused as they refuse. -/
theorem run_insert {x : Action (Database × Transaction) Outcome} {fw : Except Fault Tables}
    {ft : Except Refusal Keyed.Tables}
    (hrun : x.run ((Database.copying v).busy c w) = match fw with
      | .error fault => (.ok (.error fault.toRefusal), (Database.copying v).busy c w)
      | .ok u => (.ok (.ok ()), (Database.copying v).busy c u))
    (htogether : Together (MirrorsRuns base) fw ft) :
    (∃ w' u,
      x.run ((Database.copying v).busy c w) = (.ok (.ok ()), (Database.copying v).busy c w') ∧
        ft = .ok u ∧ MirrorsRuns base w' u) ∨
      ∃ e e',
        x.run ((Database.copying v).busy c w) = (.ok (.error e), (Database.copying v).busy c w) ∧
        ft = .error e' := by
  rcases htogether.both_or_neither with ⟨w', u, rfl, rfl, h'⟩ | ⟨fault, e, rfl, rfl⟩
  · exact .inl ⟨w', u, hrun, rfl, h'⟩
  · exact .inr ⟨_, e, hrun, rfl⟩

theorem run_insertRuns (h : MirrorsRuns base w t) {rs : List FlowRun}
    (hrs : ∀ r ∈ rs, ∀ x ∈ r.texts, NulFree x) : ∃ o w',
    (Repository.insertRuns rs).run ((Database.copying v).busy c w) =
        (.ok o, (Database.copying v).busy c w') ∧
      Alike (fun _ _ => True) o (t.insertRuns rs).1 ∧ MirrorsRuns base w' (t.insertRuns rs).2 := by
  show ∃ o w', (Database.changeEach Database.insertRun rs).run _ = _ ∧ _
  induction rs generalizing w t with
  | nil => exact ⟨.ok (), w, rfl, .done, h⟩
  | cons r rs ih =>
    obtain ⟨hr, hrs⟩ := List.forall_mem_cons.1 hrs
    have hrun : (Database.insertRun r).run ((Database.copying v).busy c w) = _ :=
      Database.run_change h.whole rfl
    rw [bindRun_of_nulFree hr] at hrun
    rw [Database.changeEach, Keyed.Tables.insertRuns]
    rcases run_insert hrun (h.insertRun r) with ⟨w', u, hrun, hu, h'⟩ | ⟨e, e', hrun, he⟩
    · rw [Action.run_bind_of_ok hrun, hu]
      exact ih h' hrs
    · rw [Action.run_bind_of_ok hrun, he]
      exact ⟨.error e, w, rfl, .refused trivial, h⟩

theorem run_insertStates (h : MirrorsRuns base w t) {ss : List RunState}
    (hss : ∀ s ∈ ss, ∀ x ∈ s.texts, NulFree x) : ∃ o w',
    (Repository.insertStates ss).run ((Database.copying v).busy c w) =
        (.ok o, (Database.copying v).busy c w') ∧
      Alike (fun _ _ => True) o (t.insertStates ss).1 ∧
      MirrorsRuns base w' (t.insertStates ss).2 := by
  show ∃ o w', (Database.changeEach Database.insertState ss).run _ = _ ∧ _
  induction ss generalizing w t with
  | nil => exact ⟨.ok (), w, rfl, .done, h⟩
  | cons s ss ih =>
    obtain ⟨hs, hss⟩ := List.forall_mem_cons.1 hss
    have hrun : (Database.insertState s).run ((Database.copying v).busy c w) = _ :=
      Database.run_change h.whole rfl
    rw [bindState_of_nulFree hs] at hrun
    rw [Database.changeEach, Keyed.Tables.insertStates]
    rcases run_insert hrun (h.insertState s) with ⟨w', u, hrun, hu, h'⟩ | ⟨e, e', hrun, he⟩
    · rw [Action.run_bind_of_ok hrun, hu]
      exact ih h' hss
    · rw [Action.run_bind_of_ok hrun, he]
      exact ⟨.error e, w, rfl, .refused trivial, h⟩

/-! ### Links -/

/-- Linking batch by batch is linking everything at once. -/
theorem run_linkEach (h : MirrorsRuns base w t) (strategy : LinkStrategy)
    {batches : List (List String)} (hids : ∀ ids ∈ batches, ∀ x ∈ ids, NulFree x)
    (hone : t.OnePerRun batches.flatten) : ∃ w',
    (Database.changeEach (Database.linkStates strategy) batches).run
        ((Database.copying v).busy c w) = (.ok (.ok ()), (Database.copying v).busy c w') ∧
      MirrorsRuns base w' (t.linkStates strategy batches.flatten) := by
  induction batches generalizing w t with
  | nil =>
    rw [List.flatten_nil, Keyed.Tables.linkStates_nil]
    exact ⟨w, rfl, h⟩
  | cons ids batches ih =>
    obtain ⟨hfirst, hids⟩ := List.forall_mem_cons.1 hids
    rw [List.flatten_cons] at hone ⊢
    have hone₁ : t.OnePerRun ids := hone.of_subset (List.subset_append_left _ _)
    have hone₂ : (t.linkStates strategy ids).OnePerRun batches.flatten := by
      obtain ⟨runs, hframe⟩ := Keyed.Tables.linkStates_frame t strategy ids
      rw [hframe]
      exact hone.of_subset (List.subset_append_right _ _)
    have hrun : (Database.linkStates strategy ids).run ((Database.copying v).busy c w) = _ :=
      Database.run_change h.whole rfl
    rw [IdStatement.link_links, map_untilNul_of_nulFree hfirst] at hrun
    rw [Database.changeEach, Action.run_bind_of_ok hrun,
      ← Keyed.Tables.linkStates_append h.wellFormed hone]
    exact ih (h.linkStates hone₁ strategy) hids hone₂

theorem run_linkStates (h : MirrorsRuns base w t) {strategy : LinkStrategy}
    (hknows : v.knows strategy = true) {ids : List String} (hids : ∀ x ∈ ids, NulFree x)
    (hone : t.OnePerRun ids) : ∃ w',
    (Repository.linkStates strategy ids).run ((Database.copying v).busy c w) =
        (.ok (.ok ()), (Database.copying v).busy c w') ∧
      MirrorsRuns base w' (t.linkStates strategy ids) := by
  have hflatten := Sql.flatten_batches ids
  rw [← hflatten] at hone
  obtain ⟨w', hrun, h'⟩ := h.run_linkEach strategy (nulFree_of_mem_batches hids) hone
  rw [hflatten] at h'
  exact ⟨w', (Database.run_linkBatches_of_knows hknows ids).trans hrun, h'⟩

/-! ### Runs without states -/

/-- A statement finds the listed runs that the keyed tables know to be stateless. -/
theorem mem_statelessRunIds (h : MirrorsRuns base w t) {ids : List String} {id : String} :
    id ∈ w.statelessRunIds ids ↔ id ∈ ids ∧ t.isStateless id = true := by
  have hstates : ∀ runId, w.stateRows.any (·.runId == runId) = false ↔ t.stateIds runId = [] := by
    intro runId
    rw [Keyed.Tables.stateIds_eq_nil_iff h.wellFormed]
    simp [h.states.perm_values.mem_iff]
  rw [Keyed.Tables.isStateless, Bool.and_eq_true, h.runs.contains_iff_mem, List.isEmpty_iff,
    ← hstates, Tables.statelessRunIds]
  simp only [List.mem_map, List.mem_filter, decide_eq_true_eq, Bool.not_eq_true']
  constructor
  · rintro ⟨r, ⟨hr, hids, hnone⟩, rfl⟩
    exact ⟨hids, ⟨r, hr, rfl⟩, hnone⟩
  · rintro ⟨hids, ⟨r, hr, rfl⟩, hnone⟩
    exact ⟨r, ⟨hr, hids, hnone⟩, rfl⟩

/-- Looking batch by batch finds what looking for everything at once would find. -/
theorem run_statelessBatches (h : MirrorsRuns base w t) {batches : List (List String)}
    (hids : ∀ ids ∈ batches, ∀ x ∈ ids, NulFree x) (found : List String) : ∃ more,
    (Database.statelessRunIds found batches).run ((Database.copying v).busy c w) =
        (.ok (.ok (), found ++ more), (Database.copying v).busy c w) ∧
      ∀ id, id ∈ more ↔ id ∈ batches.flatten ∧ t.isStateless id = true := by
  induction batches generalizing found with
  | nil => exact ⟨[], by rw [List.append_nil]; rfl, by simp⟩
  | cons ids batches ih =>
    obtain ⟨hfirst, hids⟩ := List.forall_mem_cons.1 hids
    obtain ⟨more, hmore, hiff⟩ := ih hids (found ++ w.statelessRunIds ids)
    have hrun : (Database.execute (.query [.run, .state]
        (IdStatement.statelessRuns ids).find)).run ((Database.copying v).busy c w) =
          (.ok (.ok (w.statelessRunIds ids)), (Database.copying v).busy c w) := by
      rw [IdStatement.find_statelessRuns, map_untilNul_of_nulFree hfirst]
      exact Database.run_execute h.whole rfl
    refine ⟨w.statelessRunIds ids ++ more, ?_, fun id => ?_⟩
    · rw [Database.statelessRunIds, Action.run_bind_of_ok hrun, ← List.append_assoc]
      exact hmore
    · rw [List.mem_append, h.mem_statelessRunIds, hiff, List.flatten_cons, List.mem_append,
        or_and_right]

theorem run_statelessRunIds (h : MirrorsRuns base w t) {ids : List String}
    (hids : ∀ x ∈ ids, NulFree x) : ∃ found,
    (Repository.statelessRunIds ids).run ((Database.copying v).busy c w) =
        (.ok (.ok (), found), (Database.copying v).busy c w) ∧
      ∀ id, id ∈ found ↔ id ∈ t.statelessRunIds ids := by
  obtain ⟨found, hrun, hiff⟩ := h.run_statelessBatches (c := c) (nulFree_of_mem_batches hids) []
  refine ⟨found, hrun, fun id => ?_⟩
  rw [hiff, Sql.flatten_batches, Keyed.Tables.statelessRunIds, List.mem_filter]

end MirrorsRuns

/-- A transaction of an undisturbed database follows keyed tables while candidates are stored. -/
theorem Database.tracks (v : Version) (c base : Tables) :
    Tracks (fun s t => ∃ w, s = (copying v).busy c w ∧ MirrorsRuns base w t) (fun _ _ => True)
      (fun candidate => ∀ x ∈ candidate.texts, NulFree x) (fun strategy => v.knows strategy = true)
      where
  wellFormed := by
    rintro _ t ⟨w, rfl, h⟩
    exact h.wellFormed
  insertRuns := by
    rintro _ t cs ⟨w, rfl, h⟩ hcs
    have hrs : ∀ r ∈ Keyed.Tables.submitted cs, ∀ x ∈ r.texts, NulFree x := by
      intro r hr x hx
      obtain ⟨c, hc, rfl⟩ := List.mem_map.1 hr
      exact hcs c hc x (Candidate.texts_unlinkedRun hx)
    obtain ⟨o, w', hrun, halike, h'⟩ := h.run_insertRuns (c := c) hrs
    exact ⟨o, _, hrun, halike, w', rfl, h'⟩
  statelessRunIds := by
    rintro _ t cs ⟨w, rfl, h⟩ hcs
    refine h.run_statelessRunIds fun x hx => ?_
    obtain ⟨c, hc, rfl⟩ := List.mem_map.1 hx
    exact hcs c hc _ (by simp [Candidate.texts, FlowRun.texts])
  insertStates := by
    rintro _ t cs ⟨w, rfl, h⟩ hcs
    have hss : ∀ s ∈ cs.map Candidate.firstState, ∀ x ∈ s.texts, NulFree x := by
      intro s hs x hx
      obtain ⟨c, hc, rfl⟩ := List.mem_map.1 hs
      exact hcs c hc x (Candidate.texts_firstState hx)
    obtain ⟨o, w', hrun, halike, h'⟩ := h.run_insertStates (c := c) hss
    exact ⟨o, _, hrun, halike, w', rfl, h'⟩
  linkStates := by
    rintro _ t cs strategy hknows ⟨w, rfl, h⟩ hcs hone
    have hids : ∀ x ∈ cs.map fun c => c.state.id, NulFree x := by
      intro x hx
      obtain ⟨c, hc, rfl⟩ := List.mem_map.1 hx
      exact hcs c hc _ (by simp [Candidate.texts, RunState.texts])
    obtain ⟨w', hrun, h'⟩ := h.run_linkStates (c := c) hknows hids hone
    exact ⟨_, hrun, w', rfl, h'⟩
  linkStates_refused := by
    rintro _ t strategy ids hknows ⟨w, rfl, h⟩
    exact ⟨v.tooOld, run_linkBatches_of_not_knows hknows ids⟩

end Timetable.Relational
