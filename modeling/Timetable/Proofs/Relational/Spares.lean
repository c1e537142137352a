import Timetable.Proofs.Relational.Effects
import Timetable.Proofs.Relational.IdStatement

/-!
# Runs that scheduling spares

Scheduling adds runs and gives a first state to those that have none. A run that already has a state
is spared: whatever stands in the tables, its row and the rows of its states stay as they are, and
so do all deployments and schedules (`Spares`, `Database.spares_of_scheduleRuns`). The one step that
changes rows is that of linking. It changes the owners of listed states, and these had no state
before the listed ones were inserted (`Apart`).
-/

namespace Timetable.Relational

open Text (untilNul NulFree)

namespace Tables

/-- There is a run with an id, and it has a state. -/
def HasState (t : Tables) (id : String) : Prop :=
  (∃ r ∈ t.runRows, r.id = id) ∧ ∃ s ∈ t.stateRows, s.runId = id

/-- Only runs and states have changed, and none of a run that had a state. -/
structure Spares (u v : Tables) : Prop where
  deployments_eq : v.deployments = u.deployments
  schedules_eq : v.schedules = u.schedules
  runs_eq : ∀ id, u.HasState id →
    v.runRows.filter (·.id == id) = u.runRows.filter (·.id == id)
  states_eq : ∀ id, u.HasState id →
    v.stateRows.filter (·.runId == id) = u.stateRows.filter (·.runId == id)

/-- Moreover, none of the listed states belongs to a run that had a state. -/
structure Apart (u : Tables) (ids : List String) (v : Tables) : Prop extends Spares u v where
  not_hasState : ∀ s ∈ v.stateRows, s.id ∈ ids → ¬ u.HasState s.runId

variable {u v w : Tables}

/-! ### Statements -/

theorem eq_of_insertRun {r : FlowRun} (h : v.insertRun r = .ok w) :
    w = v ∨ (∀ q ∈ v.runRows, q.id ≠ r.id) ∧ w = { v with runs := some (v.runRows ++ [r]) } := by
  simp only [insertRun] at h
  split at h
  · exact .inl (Except.ok.inj h).symm
  split at h
  · cases h
  · next hid => exact .inr ⟨ne_of_not_any hid, (Except.ok.inj h).symm⟩

theorem eq_of_insertState {s : RunState} (h : v.insertState s = .ok w) :
    (∀ q ∈ v.stateRows, q.id ≠ s.id) ∧ w = { v with states := some (v.stateRows ++ [s]) } := by
  simp only [insertState] at h
  split at h
  · cases h
  split at h
  · cases h
  · next hid _ => exact ⟨ne_of_not_any hid, (Except.ok.inj h).symm⟩

/-! ### Rows under an id -/

section Rows

variable {α : Type} {f : α → String} {id : String} {rows rows' : List α}

theorem exists_of_filter_eq (h : rows'.filter (f · == id) = rows.filter (f · == id))
    (hrows : ∃ a ∈ rows, f a = id) : ∃ a ∈ rows', f a = id := by
  obtain ⟨a, ha, rfl⟩ := hrows
  have hmem : a ∈ rows'.filter (f · == f a) := by
    rw [h]
    exact List.mem_filter.2 ⟨ha, beq_self_eq_true _⟩
  exact ⟨a, List.mem_of_mem_filter hmem, rfl⟩

/-- A row that is added under another id leaves the rows under this one as they are. -/
theorem filter_concat_of_ne {a : α} (h : f a ≠ id) :
    (rows ++ [a]).filter (f · == id) = rows.filter (f · == id) := by
  rw [List.filter_append, List.filter_cons_of_neg (by simpa using h), List.filter_nil,
    List.append_nil]

/-- So do changes of rows under other ids. -/
theorem filter_map_of_fixed {g : α → α} (hids : ∀ a, f (g a) = f a)
    (hfixed : ∀ a, f a = id → g a = a) :
    (rows.map g).filter (f · == id) = rows.filter (f · == id) := by
  have hsame : (fun a => f a == id) ∘ g = fun a => f a == id :=
    funext fun a => congrArg (· == id) (hids a)
  rw [List.filter_map, hsame]
  refine (List.map_congr_left fun a ha => ?_).trans (List.map_id _)
  exact hfixed a (beq_iff_eq.1 (List.mem_filter.1 ha).2)

end Rows

namespace Spares

theorem refl (u : Tables) : u.Spares u := ⟨rfl, rfl, fun _ _ => rfl, fun _ _ => rfl⟩

variable (h : u.Spares v)

include h

/-- Tables that are missing are added without rows. -/
theorem create (hu : u.Whole) : u.Spares v.create where
  deployments_eq := by
    rw [← hu.create_eq]
    simp only [Tables.create, h.deployments_eq]
  schedules_eq := by
    rw [← hu.create_eq]
    simp only [Tables.create, h.schedules_eq]
  runs_eq := h.runs_eq
  states_eq := h.states_eq

theorem apart_nil : u.Apart [] v := ⟨h, fun _ _ hid => absurd hid List.not_mem_nil⟩

/-- A run is inserted only under an id that no run has. Those that had states are still there. -/
theorem insertRun {r : FlowRun} (hw : v.insertRun r = .ok w) : u.Spares w := by
  rcases eq_of_insertRun hw with rfl | ⟨hnew, rfl⟩
  · exact h
  refine { h with runs_eq := fun id hid => ?_ }
  obtain ⟨q, hq, rfl⟩ := exists_of_filter_eq (h.runs_eq id hid) hid.1
  rw [← h.runs_eq _ hid]
  exact filter_concat_of_ne (Ne.symm (hnew q hq))

theorem insertState {s : RunState} (hs : ¬ u.HasState s.runId)
    (hw : v.insertState s = .ok w) : u.Spares w := by
  obtain ⟨-, rfl⟩ := eq_of_insertState hw
  refine { h with states_eq := fun id hid => ?_ }
  rw [← h.states_eq _ hid]
  exact filter_concat_of_ne fun e => hs (e ▸ hid)

/-- A run that is found to have no state had none. -/
theorem not_hasState_of_stateless {ids : List String} {id : String}
    (hid : id ∈ v.statelessRunIds ids) : ¬ u.HasState id := by
  intro hstate
  obtain ⟨r, hr, rfl⟩ := List.mem_map.1 hid
  obtain ⟨s, hs, e⟩ := exists_of_filter_eq (h.states_eq _ hstate) hstate.2
  have hnone := (of_decide_eq_true (List.mem_filter.1 hr).2).2
  simp only [Bool.not_eq_true', List.any_eq_false, beq_iff_eq] at hnone
  exact hnone s hs e

end Spares

namespace Apart

variable {ids : List String} (h : u.Apart ids v)

include h

/-- A state that is inserted is apart if its run had no state; those before it have other ids. -/
theorem insertState {s : RunState} (hs : ¬ u.HasState s.runId) (hw : v.insertState s = .ok w) :
    u.Apart (ids ++ [s.id]) w where
  toSpares := h.toSpares.insertState hs hw
  not_hasState := by
    obtain ⟨hnew, rfl⟩ := eq_of_insertState hw
    intro q hq hlisted
    rcases List.mem_append.1 hq with hq | hq
    · refine h.not_hasState q hq ?_
      simpa [hnew q hq] using hlisted
    · rwa [List.mem_singleton.1 hq]

/-- Of a run that had a state, no state is listed, so there is none to point it at. -/
theorem linkStates {listed : List String} (hlisted : listed ⊆ ids) (strategy : LinkStrategy) :
    u.Apart ids (v.linkStates strategy listed) := by
  refine { h with runs_eq := fun id hid => ?_ }
  have hnone : MirrorsRuns.listedIds v listed id = [] := by
    rw [MirrorsRuns.listedIds, List.map_eq_nil_iff, List.filter_eq_nil_iff]
    intro s hs e
    obtain ⟨hs, hmem⟩ := List.mem_filter.1 hs
    rw [← beq_iff_eq.1 e] at hid
    exact h.not_hasState s hs (hlisted (of_decide_eq_true hmem)) hid
  rw [← h.runs_eq id hid, MirrorsRuns.runRows_linkStates]
  refine filter_map_of_fixed (fun r => r.id_pointAt _) fun r hr => ?_
  rw [hr, hnone, chosenState_eq_none_iff.2 rfl]
  rfl

end Apart

end Tables

namespace Database

open Tables

variable {u : Tables}

/-! ### Requests -/

theorem leads_insertRuns (rs : List FlowRun) :
    Leads u.Spares (Repository.insertRuns rs) fun o v => o = .ok () → u.Spares v := by
  refine Leads.changeEach (J := fun _ => u.Spares) [] fun _ r _ => ?_
  refine Leads.change.mono fun o v h ho => ?_
  obtain ⟨t, ht, hv⟩ := h ho
  exact ht.insertRun hv

theorem leads_statelessRunIds {found : List String} (hfound : ∀ id ∈ found, ¬ u.HasState id)
    (batches : List (List String)) :
    Leads u.Spares (Database.statelessRunIds found batches) fun x v =>
      u.Spares v ∧ ∀ id ∈ x.2, ¬ u.HasState id := by
  induction batches generalizing found with
  | nil => exact .pure fun v hv => ⟨hv, hfound⟩
  | cons ids batches ih =>
    refine (Leads.execute _).bind fun r => Leads.of_each ?_
    rintro v ⟨t, ht, ⟨more, rfl, ⟨⟩⟩ | ⟨⟨e, rfl⟩, rfl⟩⟩
    · refine (ih fun id hid => ?_).pre fun v hv => hv ▸ ht
      rcases List.mem_append.1 hid with hid | hid
      · exact hfound id hid
      · exact ht.not_hasState_of_stateless hid
    · exact .pure fun v hv => ⟨hv ▸ ht, hfound⟩

/-- States of runs that had none are inserted apart. -/
theorem leads_insertStates {ss : List RunState}
    (hss : ∀ s ∈ ss, ¬ u.HasState (bindState s).runId) :
    Leads u.Spares (Repository.insertStates ss) fun o v =>
      o = .ok () → u.Apart ((ss.map bindState).map RunState.id) v := by
  refine Leads.pre (Leads.changeEach
    (J := fun before => u.Apart ((before.map bindState).map RunState.id)) [] fun before s hs => ?_)
    fun v hv => hv.apart_nil
  refine Leads.change.mono fun o v h ho => ?_
  obtain ⟨t, ht, hv⟩ := h ho
  rw [List.map_append, List.map_append]
  exact ht.insertState (hss s hs) hv

theorem leads_linkStates (strategy : LinkStrategy) (ids : List String) :
    Leads (u.Apart (ids.map untilNul)) (Repository.linkStates strategy ids)
      fun o v => o = .ok () → u.Apart (ids.map untilNul) v := by
  apply Leads.linkBatches
  refine Leads.changeEach (J := fun _ => u.Apart (ids.map untilNul)) [] fun _ batch hbatch => ?_
  refine Leads.change.mono fun o v h ho => ?_
  obtain ⟨t, ht, ⟨⟩⟩ := h ho
  have hsubset : batch ⊆ ids := fun id hid => by
    rw [← Sql.flatten_batches ids]
    exact List.mem_flatten_of_mem hbatch hid
  rw [IdStatement.link_links]
  exact ht.linkStates (List.map_subset _ hsubset) strategy

/-! ### Scheduling -/

/-- The ids of the runs that are generated are printed identifiers. -/
theorem leads_generate (P : Tables → Prop) (r : Request) (now : Instant) :
    Leads P (r.generate now) fun cs v => P v ∧ ∀ c ∈ cs, NulFree c.run.id := by
  have hfind : Leads P (Repository.findDeployment r.deploymentId) fun _ => P :=
    Leads.query.mono fun _ _ h => h.1
  refine hfind.bind fun d => ?_
  cases d with
  | none => exact .fail _
  | some d =>
    have hlist : Leads P (Repository.listSchedules r.deploymentId) fun _ => P :=
      Leads.query.mono fun _ _ h => h.1
    refine hlist.bind fun ss => .ofExcept fun cs v hcs hv => ⟨hv, fun c hc => ?_⟩
    obtain ⟨s, -, t, hcandidate⟩ := exists_occurrence hcs hc
    rw [(Candidate.genuine_of_candidate hcandidate).id_eq]
    exact nulFree_uuid _

theorem leads_materialize (strategy : LinkStrategy) {cs : List Candidate}
    (hcs : ∀ c ∈ cs, NulFree c.run.id) :
    Leads u.Spares (materialize strategy cs) fun _ => u.Spares := by
  unfold materialize
  split
  · exact .pure fun _ hv => hv
  refine ((leads_insertRuns _).demand _).bind fun _ => ?_
  have hfound := leads_statelessRunIds (u := u) (fun id h => absurd h List.not_mem_nil)
    (Sql.batches (cs.map fun c => c.run.id))
  refine Leads.bind (hfound.pre fun _ hv => hv rfl) ?_
  rintro ⟨outcome, stateless⟩
  refine Leads.bind (.ofExcept fun _ v _ hv => hv) fun _ => Leads.of_each ?_
  rintro v ⟨hv, hstateless⟩
  split
  · exact .pure fun w hw => hw ▸ hv
  have hfresh : ∀ s ∈ (firstCandidates stateless cs).map Candidate.firstState,
      ¬ u.HasState (bindState s).runId := by
    intro s hs
    obtain ⟨c, hc, rfl⟩ := List.mem_map.1 hs
    rw [firstCandidates_eq] at hc
    obtain ⟨hc, hid⟩ := List.mem_filter.1 hc
    rw [bindState_eq]
    show ¬ u.HasState (untilNul c.run.id)
    rw [Text.untilNul_of_nulFree (hcs c ((firsts_sublist cs).subset hc))]
    exact hstateless _ (of_decide_eq_true hid)
  have hapart := (leads_insertStates hfresh).demand "insert initial states"
  refine Leads.bind (hapart.pre fun w hw => hw ▸ hv) fun _ => ?_
  have hlinked := (leads_linkStates (u := u) strategy
    ((firstCandidates stateless cs).map fun c => c.state.id)).demand "link initial states"
  refine Leads.bind (hlinked.pre fun w hw => ?_) fun _ => ?_
  · have hw := hw rfl
    simp only [List.map_map, Function.comp_def, bindState_eq] at hw ⊢
    exact hw
  exact .pure fun w hw => (hw rfl).toSpares

theorem leads_schedulingWork (strategy : LinkStrategy) (r : Request) (now : Instant) :
    Leads u.Spares (schedulingWork strategy r now) fun _ => u.Spares := by
  refine (leads_generate _ r now).bind fun cs => Leads.of_each ?_
  rintro v ⟨hv, hcs⟩
  exact ((leads_materialize strategy hcs).pre fun _ h => h ▸ hv).bind fun _ => .pure fun _ h => h

/-- A call that schedules runs spares those that had a state. -/
theorem spares_of_scheduleRuns {db : Database} (hidle : db.Idle) {strategy : LinkStrategy}
    {r : Request} {clock : Int} {log : List Log.Entry} {created : List FlowRun}
    {w : World Database}
    (hrun : (scheduleRuns strategy r).run ⟨db, clock, log⟩ = (.ok created, w)) :
    db.file.tables.Spares w.store.file.tables := by
  obtain ⟨_ | a, w', hwork, ⟨⟩, hstore⟩ := run_transact_of_scheduleRuns hrun
  rw [hstore]
  exact exists_of_transact (fun c => reversible.keeps_schedulingWork strategy r _)
    ((leads_schedulingWork strategy r _).pre fun v hv => hv ▸ .refl _) hidle hwork

/-- A call that fails leaves the file alone. -/
theorem file_of_scheduleRuns_error {db : Database} (hidle : db.Idle) {strategy : LinkStrategy}
    {r : Request} {clock : Int} {log : List Log.Entry} {e : Failure} {w : World Database}
    (hrun : (scheduleRuns strategy r).run ⟨db, clock, log⟩ = (.error e, w)) :
    w.store.file = db.file := by
  obtain ⟨_ | a, w', hwork, ⟨⟩, hstore⟩ := run_transact_of_scheduleRuns hrun
  rw [hstore]
  exact file_of_transact_error (fun c => reversible.keeps_schedulingWork strategy r _) hidle hwork

end Database

end Timetable.Relational
