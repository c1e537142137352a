import Timetable.Proofs.Keyed.Retry
import Timetable.Proofs.Interleaving

/-!
# Attempts that stop halfway

A `Limited` store takes only so many writes of runs and states and then breaks down, so that
storing candidates in it is an attempt that stops somewhere (`Limited.upTo`). `Stepwise` backends
follow keyed tables at each step, so they show what the attempt leaves (`Tracks.run_limited`).

Storing the same candidates once more always succeeds, and every run then owns one state. But an
attempt that stops between writing the states and linking them leaves runs that point at nothing,
and they still do afterwards: `rerun_links_unless_states_stand`.
-/

namespace Timetable

open Keyed.Tables

/-! ### Stores that break down -/

/-- A store that takes so many more writes of runs and states, and none after that. -/
structure Limited (σ : Type) where
  store : σ
  writes : Nat

namespace Limited

/-- Does something in a transaction of the store, which counts as no write. -/
def pass (x : Action (σ × τ) α) : Action (Limited σ × τ) α :=
  x.onPart (fun s => (s.1.store, s.2)) fun r s => (⟨r.1, s.1.writes⟩, r.2)

/-- What a store that has broken down says to a write. -/
def broken : Refusal := .reported .ioError ""

/-- Writes, if the store takes another write. -/
def write (x : Action (σ × τ) Outcome) : Action (Limited σ × τ) Outcome := fun s =>
  match s.1.writes with
  | 0 => (.ok (.error broken), s)
  | n + 1 => (pass x).run (⟨s.1.store, n⟩, s.2)

instance [Repository σ τ] : Repository (Limited σ) τ where
  dialect s := Repository.dialect s.store
  begin := Repository.begin.onPart store fun r s => { s with store := r }
  commit := pass Repository.commit
  rollback := pass Repository.rollback
  isCommitted := Repository.isCommitted σ
  release s :=
    let r := Repository.release (s.1.store, s.2)
    (r.1, { s.1 with store := r.2 })
  insertDeployment d := pass (Repository.insertDeployment d)
  findDeployment id := pass (Repository.findDeployment id)
  listDeployments offset limit := pass (Repository.listDeployments offset limit)
  deleteDeployment id := pass (Repository.deleteDeployment id)
  insertSchedule s := pass (Repository.insertSchedule s)
  listSchedules id := pass (Repository.listSchedules id)
  deleteSchedule id := pass (Repository.deleteSchedule id)
  insertRuns rs := write (Repository.insertRuns rs)
  statelessRunIds ids := pass (Repository.statelessRunIds ids)
  insertStates ss := write (Repository.insertStates ss)
  linkStates strategy ids := write (Repository.linkStates strategy ids)
  findRun id := pass (Repository.findRun id)
  listRuns id := pass (Repository.listRuns id)
  listStates id := pass (Repository.listStates id)
  pageBound s := Repository.pageBound s.store

/-- Does something in a store that breaks down after `n` writes. However it ends, what it has
written stays. -/
def upTo (n : Nat) (x : Action (Limited σ × τ) α) : Action (σ × τ) Unit := fun s =>
  let after := (x.run (⟨s.1, n⟩, s.2)).2
  (.ok (), after.1.store, after.2)

variable {σ τ : Type} {s s' : σ} {tx tx' : τ} {n : Nat}

theorem run_pass {x : Action (σ × τ) α} {r : Except Failure α} (h : x.run (s, tx) = (r, s', tx')) :
    (pass x).run ((⟨s, n⟩ : Limited σ), tx) = (r, ⟨s', n⟩, tx') := by
  show ((x.run (s, tx)).1, (⟨(x.run (s, tx)).2.1, n⟩ : Limited σ), (x.run (s, tx)).2.2) = _
  rw [h]

/-- A write that is accepted leaves the store one write less. -/
theorem run_demand_write {x : Action (σ × τ) Outcome} (h : x.run (s, tx) = (.ok (.ok ()), s', tx'))
    (context : String) :
    (demand context (write x)).run ((⟨s, n + 1⟩ : Limited σ), tx) = (.ok (), ⟨s', n⟩, tx') :=
  run_demand_of_ok (run_pass h)

/-- A store that is broken stays as it is. -/
theorem run_demand_write_zero (x : Action (σ × τ) Outcome) (context : String) (s : σ) (tx : τ) :
    (demand context (write x)).run ((⟨s, 0⟩ : Limited σ), tx) =
      (.error (.refused context broken), ⟨s, 0⟩, tx) := rfl

variable [Repository σ τ]

theorem insertRuns_eq (rs : List FlowRun) :
    (Repository.insertRuns rs : Action (Limited σ × τ) Outcome) =
      write (Repository.insertRuns rs) := rfl

theorem statelessRunIds_eq (ids : List String) :
    (Repository.statelessRunIds ids : Action (Limited σ × τ) (Outcome × List String)) =
      pass (Repository.statelessRunIds ids) := rfl

theorem insertStates_eq (ss : List RunState) :
    (Repository.insertStates ss : Action (Limited σ × τ) Outcome) =
      write (Repository.insertStates ss) := rfl

theorem linkStates_eq (strategy : LinkStrategy) (ids : List String) :
    (Repository.linkStates strategy ids : Action (Limited σ × τ) Outcome) =
      write (Repository.linkStates strategy ids) := rfl

end Limited

theorem Alike.eq_ok {E : Refusal → Refusal → Prop} {o o' : Outcome} (h : Alike E o o')
    (ho : o' = .ok ()) : o = .ok () := by
  cases h with
  | done => rfl
  | refused => cases ho

/-- An attempt that stops leaves a store with the tables that it leaves. -/
theorem Tracks.run_limited [Repository σ τ] {R : σ × τ → Keyed.Tables → Prop}
    {E : Refusal → Refusal → Prop} {fits : Candidate → Prop} {knows : LinkStrategy → Prop}
    (h : Tracks R E fits knows) {s : σ} {tx : τ} {t : Keyed.Tables} (hR : R (s, tx) t)
    {cs : List Candidate} (hcs : ∀ c ∈ cs, fits c) {strategy : LinkStrategy}
    {created : List FlowRun} (hok : (t.materialize strategy cs).1 = .ok created)
    (hlinks : knows strategy ∨ created = []) (n : Nat) : ∃ r s' tx' k,
    (materialize strategy cs).run ((⟨s, n⟩ : Limited σ), tx) = (r, ⟨s', k⟩, tx') ∧
      R (s', tx') (t.afterWrites strategy cs n) := by
  have ht : t.WellFormed := h.wellFormed hR
  obtain ⟨hruns, hstates, hcreated, hu⟩ := materialize_eq_ok ht hok
  unfold materialize
  split
  · next hnil =>
    rw [List.isEmpty_iff.1 hnil, afterWrites_nil]
    exact ⟨.ok [], s, tx, n, rfl, hR⟩
  rw [Limited.insertRuns_eq]
  cases n with
  | zero =>
    rw [Action.run_bind_of_error (Limited.run_demand_write_zero _ _ s tx)]
    exact ⟨_, s, tx, 0, rfl, hR⟩
  | succ n =>
    obtain ⟨o, ⟨s₁, tx₁⟩, hrun₁, halike₁, hR₁⟩ := h.insertRuns hR hcs
    obtain rfl := halike₁.eq_ok hruns
    obtain ⟨ids, hrun₂, hids⟩ := h.statelessRunIds hR₁ hcs
    rw [Action.run_bind_of_ok (Limited.run_demand_write hrun₁ _), Limited.statelessRunIds_eq,
      Action.run_bind_of_ok (Limited.run_pass hrun₂)]
    have hnew : firstCandidates ids cs = t.newCandidates cs := by
      rw [firstCandidates_congr hids, firstCandidates_statelessRunIds ht hruns]
    have hnewfits : ∀ c ∈ t.newCandidates cs, fits c := fun c hc =>
      hcs c (mem_of_mem_newCandidates hc)
    have hnil : t.newCandidates cs = [] ↔ ids = [] := by
      rw [← hnew]
      exact firstCandidates_eq_nil_iff fun id hid => (List.mem_filter.1 ((hids id).1 hid)).1
    show ∃ r s' tx' k, (if ids.isEmpty then _ else _ : Action _ _).run _ = (r, _) ∧ _
    split
    · next hempty =>
      rw [afterWrites_of_newCandidates_eq_nil (hnil.2 (List.isEmpty_iff.1 hempty)) hu]
      exact ⟨.ok [], s₁, tx₁, n, rfl, hR₁⟩
    next hsome =>
    have hknows : knows strategy := by
      refine hlinks.resolve_right ?_
      rw [hcreated, List.map_eq_nil_iff, hnil, ← List.isEmpty_iff]
      exact hsome
    rw [hnew, Limited.insertStates_eq]
    cases n with
    | zero =>
      rw [Action.run_bind_of_error (Limited.run_demand_write_zero _ _ s₁ tx₁)]
      exact ⟨_, s₁, tx₁, 0, rfl, hR₁⟩
    | succ n =>
      obtain ⟨o, ⟨s₂, tx₂⟩, hrun₃, halike₂, hR₂⟩ := h.insertStates hR₁ hnewfits
      obtain rfl := halike₂.eq_ok hstates
      rw [Action.run_bind_of_ok (Limited.run_demand_write hrun₃ _), Limited.linkStates_eq]
      cases n with
      | zero =>
        rw [Action.run_bind_of_error (Limited.run_demand_write_zero _ _ s₂ tx₂)]
        exact ⟨_, s₂, tx₂, 0, rfl, hR₂⟩
      | succ n =>
        obtain ⟨⟨s₃, tx₃⟩, hrun₄, hR₃⟩ :=
          h.linkStates hknows hR₂ hnewfits (onePerRun_newStateIds hstates)
        rw [Action.run_bind_of_ok (Limited.run_demand_write hrun₄ _)]
        rw [← hu] at hR₃
        exact ⟨_, s₃, tx₃, n, rfl, hR₃⟩

/-! ### Storing again -/

/-- The candidates that a request asks for. -/
def generated [Repository σ τ] (s : σ) (r : Request) (clock : Int) :
    Except Failure (List Candidate) :=
  ((World.transact (r.generate (.ofNanos clock))).run ⟨s, clock, []⟩).1

/-- Stores candidates in a transaction of their own. -/
def stored [Repository σ τ] (s : σ) (strategy : LinkStrategy) (cs : List Candidate) :
    Except Failure (List FlowRun) × σ :=
  let x := (World.transact (materialize strategy cs)).run ⟨s, 0, []⟩
  (x.1, x.2.store)

/-- The store with what the first `n` writes of an attempt to store candidates have left. -/
def attempted [Repository σ τ] (s : σ) (strategy : LinkStrategy) (cs : List Candidate)
    (n : Nat) : σ :=
  ((World.transact (Limited.upTo n (materialize strategy cs))).run ⟨s, 0, []⟩).2.store

/-- Wherever an attempt to store generated candidates stops, storing them again succeeds and leaves
each of their runs with one state. It also links them, except for those that are new and that the
first attempt has given their states and no links. -/
def RerunLinks [Repository σ τ] (start : σ) (runs : σ → List FlowRun) (states : σ → List RunState)
    (earlier origin : List Visit) (r : Request) (clock : Int) (strategy again : LinkStrategy)
    (n : Nat) : Prop :=
  ∀ cs created, generated (storeAfter start origin) r clock = .ok cs →
    (stored (storeAfter start earlier) strategy cs).1 = .ok created →
    ∃ repaired after,
      stored (attempted (storeAfter start earlier) strategy cs n) again cs = (.ok repaired, after) ∧
      ∀ c ∈ cs, OwnsOne (runs after) (states after) c.run.id
        (n != 2 || (runs (storeAfter start earlier)).any (·.id == c.run.id))

namespace Backend

variable {σ τ κ : Type} [Repository σ τ] {B : Backend σ κ} {b w : κ} {t : Keyed.Tables}
  {cs : List Candidate} {strategy again : LinkStrategy} {created : List FlowRun}

/-- The transactions of a backend follow keyed tables at each step of storing candidates. -/
def Stepwise (B : Backend σ κ) : Prop :=
  ∀ {w t} c, B.Shows w t → ∃ (R : σ × τ → Keyed.Tables → Prop) (E : Refusal → Refusal → Prop),
    Tracks R E B.fits B.knows ∧ R (B.busy c w) t ∧
      ∀ s u, R s u → ∃ w', s = B.busy c w' ∧ B.Shows w' u

theorem any_runs (ht : B.Shows w t) (runId : String) :
    (B.runs w).any (·.id == runId) = t.runs.contains runId := by
  rw [← (B.wellFormed ht).holds_runs.any_eq, Bool.eq_iff_iff, List.any_eq_true, List.any_eq_true]
  simp only [(B.perm_runs ht).mem_iff]

/-- What an attempt that stops leaves is committed. -/
theorem Stepwise.attempted_eq (hB : B.Stepwise) (ht : B.Shows b t) (hcs : ∀ c ∈ cs, B.fits c)
    (hok : (t.materialize strategy cs).1 = .ok created) (hlinks : B.knows strategy ∨ created = [])
    (n : Nat) : ∃ w,
    attempted (B.resting b) strategy cs n = B.resting w ∧
      B.Shows w (t.afterWrites strategy cs n) := by
  obtain ⟨R, E, htracks, hR, hshows⟩ := hB b ht
  obtain ⟨x, s', tx', k, hrun, hR'⟩ := htracks.run_limited hR hcs hok hlinks n
  obtain ⟨w, hbusy, hw⟩ := hshows _ _ hR'
  have hupTo : (Limited.upTo n (materialize strategy cs)).run (B.busy b b) =
      (.ok (), B.busy b w) := by
    rw [← hbusy]
    show (Except.ok (), ((materialize strategy cs).run
      ((⟨(B.busy b b).1, n⟩ : Limited σ), (B.busy b b).2)).2.1.store, _) = _
    rw [hrun]
  exact ⟨w, by rw [attempted, B.run_transact hupTo]; rfl, hw⟩

theorem stored_eq (ht : B.Shows b t) (hcs : ∀ c ∈ cs, B.fits c) (strategy : LinkStrategy) : ∃ x w,
    stored (B.resting b) strategy cs = (x, B.resting (Copying.settled x b w)) ∧
      Ending B.Shows (fun _ _ => True) (B.knows strategy) (t.materialize strategy cs) x w := by
  obtain ⟨x, w, hrun, hending⟩ := B.run_materialize b strategy ht hcs
  exact ⟨x, w, by rw [stored, B.run_transact hrun], hending⟩

/-- Storing again succeeds, whatever an attempt to store candidates has left, if the store knows how
to link them or has been told to do so before. -/
theorem Healthy.rerun (h : B.Healthy b) (hB : B.Stepwise)
    (hcs : ∀ c ∈ cs, c.Genuine ∧ B.fits c)
    (hok : (stored (B.resting b) strategy cs).1 = .ok created)
    (hagain : again = strategy ∨ B.knows again) (n : Nat) : ∃ repaired w,
      stored (attempted (B.resting b) strategy cs n) again cs = (.ok repaired, B.resting w) ∧
      ∀ c ∈ cs, OwnsOne (B.runs w) (B.states w) c.run.id
        (n != 2 || (B.runs b).any (·.id == c.run.id)) := by
  obtain ⟨t, ht⟩ := h.shows
  have hfits : ∀ c ∈ cs, B.fits c := fun c hc => (hcs c hc).2
  have hgenuine : ∀ c ∈ cs, c.Genuine := fun c hc => (hcs c hc).1
  obtain ⟨hok, hlinks⟩ : (t.materialize strategy cs).1 = .ok created ∧
      (B.knows strategy ∨ created = []) := by
    obtain ⟨x, w, hstored, hending⟩ := stored_eq ht hfits strategy
    rw [hstored] at hok
    subst hok
    obtain ⟨htold, -, hlinks⟩ := hending.of_ok
    exact ⟨htold, hlinks⟩
  obtain ⟨b', hattempted, hb'⟩ := hB.attempted_eq ht hfits hok hlinks n
  obtain ⟨x, w, hstored, hending⟩ := stored_eq hb' hfits again
  rw [materialize_afterWrites (B.wellFormed ht) hok] at hending
  -- what the store did not know how to link was nothing, and so it is still
  have hlinks' : B.knows again ∨ (if n < 2 then created else []) = [] := by
    rcases hagain with rfl | hknows
    · refine hlinks.imp_right fun hnil => ?_
      rw [hnil, ite_self]
    · exact .inl hknows
  obtain ⟨halike, hw⟩ := hending.of_links (hlinks'.imp_right fun hnil _ h => Except.ok.inj h ▸ hnil)
  obtain rfl := halike.eq_ok.2 rfl
  refine ⟨_, w, by rw [hattempted, hstored]; rfl, fun c hc => ?_⟩
  refine OwnsOne.perm ?_ (B.perm_runs hw) (B.perm_states hw)
  by_cases hn : n = 2
  · simp only [hn, ↓reduceIte, bne_self_eq_false, Bool.false_or, any_runs ht]
    exact ownsOne_unlinked (h.tables ht) hgenuine hok hc
  · simp only [hn, ↓reduceIte, bne_iff_ne.2 hn, Bool.true_or]
    exact ownsOne_materialize (h.tables ht) hgenuine hok hc

theorem Healthy.rerunLinks (h : B.Healthy b) (hB : B.Stepwise) {runs : σ → List FlowRun}
    {states : σ → List RunState} (hruns : ∀ b, runs (B.resting b) = B.runs b)
    (hstates : ∀ b, states (B.resting b) = B.states b) (earlier origin : List Visit) (r : Request)
    (clock : Int) {strategy again : LinkStrategy} (hagain : again = strategy ∨ B.knows again)
    (n : Nat) : RerunLinks (B.resting b) runs states earlier origin r clock strategy again n := by
  intro cs created hgenerated hstored
  obtain ⟨a, ha, hlater⟩ := h.storeAfter_eq origin
  obtain ⟨c, hc, hlater'⟩ := h.storeAfter_eq earlier
  rw [ha] at hgenerated
  rw [hc] at hstored ⊢
  obtain ⟨t, ht⟩ := hlater.healthy.shows
  obtain ⟨x, hrun, hcs⟩ := B.run_generate a r (.ofNanos clock) ht
  rw [generated, B.run_transact hrun] at hgenerated
  obtain ⟨repaired, w, hrerun, howns⟩ :=
    hlater'.healthy.rerun hB (hcs cs hgenerated) hstored hagain n
  refine ⟨repaired, B.resting w, hrerun, ?_⟩
  rw [hruns, hruns, hstates]
  exact howns

end Backend

theorem Keyed.Ledger.stepwise : Keyed.Ledger.backend.Stepwise := by
  rintro t _ c ⟨rfl, ht⟩
  refine ⟨_, _, Keyed.Ledger.tracks ⟨c, true⟩ .active, ⟨rfl, ht⟩, ?_⟩
  rintro _ u ⟨rfl, hu⟩
  exact ⟨u, rfl, rfl, hu⟩

theorem Keyed.Ledger.healthy_empty : Keyed.Ledger.backend.Healthy Keyed.Tables.empty :=
  Backend.healthy_of_runs_eq_nil ⟨rfl, Keyed.Tables.wellFormed_empty⟩ rfl

theorem Relational.Database.stepwise (v : Relational.Version) :
    (Relational.Database.backend v).Stepwise := by
  intro w t c h
  refine ⟨_, _, Relational.Database.tracks v c w, ⟨w, rfl, h.runs⟩, ?_⟩
  rintro _ u ⟨w', rfl, h'⟩
  exact ⟨w', rfl, h.of_runs h'⟩

theorem Relational.Database.healthy_empty (v : Relational.Version) :
    (Relational.Database.backend v).Healthy Relational.Tables.empty :=
  Backend.healthy_of_runs_eq_nil Relational.shows_empty rfl

section Stores

variable (earlier origin : List Visit) (r : Request) (clock : Int) (strategy again : LinkStrategy)
  (n : Nat)

theorem Keyed.Ledger.rerunLinks :
    RerunLinks Keyed.Ledger.empty (fun l => l.committed.runs.values)
      (fun l => l.committed.states.values) earlier origin r clock strategy again n :=
  Keyed.Ledger.healthy_empty.rerunLinks Keyed.Ledger.stepwise (fun _ => rfl) (fun _ => rfl)
    earlier origin r clock (.inr trivial) n

/-- In either store, storing candidates again repairs an attempt that has stopped anywhere, except
between the states and the links to them. In the relational store this takes an engine that has the
statements for the links, unless the strategy is that of the attempt. -/
theorem rerun_links_unless_states_stand :
    RerunLinks Keyed.Ledger.empty (fun l => l.committed.runs.values)
        (fun l => l.committed.states.values) earlier origin r clock strategy again n ∧
      ∀ v : Relational.Version, again = strategy ∨ v.knows again = true →
        RerunLinks (Relational.Database.connect v ⟨.none, false⟩)
          (fun db => db.file.tables.runRows) (fun db => db.file.tables.stateRows) earlier origin r
          clock strategy again n := by
  constructor
  · exact Keyed.Ledger.rerunLinks earlier origin r clock strategy again n
  · intro v hagain
    exact (Relational.Database.healthy_empty v).rerunLinks (Relational.Database.stepwise v)
      (fun _ => rfl) (fun _ => rfl) earlier origin r clock hagain n

end Stores

/-- Makes the deployment and its schedule known. -/
def hourlyVisits : List Visit :=
  [⟨.change "insert deployment" (.insertDeployment plainDeployment), 0⟩,
    ⟨.change "insert schedule" (.insertSchedule hourly), 0⟩]

theorem storeAfter_hourlyVisits :
    storeAfter Keyed.Ledger.empty hourlyVisits = ⟨hourlyTables, false⟩ :=
  rfl

theorem Relational.Database.storeAfter_hourlyVisits :
    storeAfter (connect .current ⟨.none, false⟩) hourlyVisits =
      (copying .current).resting hourlyRows :=
  rfl

theorem exists_ofSchedules_firstHour :
    ∃ c, firstHour.ofSchedules (.ofNanos 0) plainDeployment [hourly] = .ok [c] := ⟨_, rfl⟩

theorem exists_generate_firstHour : ∃ c, (firstHour.generate (.ofNanos 0)).run
    (Keyed.Ledger.copying.busy hourlyTables hourlyTables) =
      (.ok [c], Keyed.Ledger.copying.busy hourlyTables hourlyTables) := by
  exact ⟨midnight, Keyed.Ledger.hourly_copying.run_generate
    ⟨rfl, wellFormed_hourlyTables, rfl, rfl⟩ rfl ofSchedules_firstHour⟩

/-- There is one candidate for the first hour, and it can be stored. -/
theorem Copying.Hourly.stored_firstHour {σ τ κ : Type} [Repository σ τ] {C : Copying σ κ}
    {Shows : κ → Keyed.Tables → Prop} {c : κ} (hC : C.Hourly Shows) (h : Shows c hourlyTables) :
    generated (C.resting c) firstHour 0 = .ok [midnight] ∧
      (stored (C.resting c) .updateJoin [midnight]).1 = .ok [midnight.linkedRun] := by
  have hgenerate := hC.run_generate (c := c) h rfl ofSchedules_firstHour
  obtain ⟨w, hmaterialize, -⟩ := hC.materialize c h nulFree_midnight materialize_firstHour
  constructor
  · exact congrArg Prod.fst (C.run_transact hgenerate 0 [])
  · exact congrArg Prod.fst (C.run_transact hmaterialize 0 [])

theorem exists_stored_firstHour : ∃ c created,
    generated (storeAfter Keyed.Ledger.empty hourlyVisits) firstHour 0 = .ok [c] ∧
      (stored (storeAfter Keyed.Ledger.empty hourlyVisits) .updateJoin [c]).1 = .ok created := by
  obtain ⟨hgenerated, hstored⟩ :=
    Keyed.Ledger.hourly_copying.stored_firstHour ⟨rfl, wellFormed_hourlyTables, rfl, rfl⟩
  exact ⟨midnight, _, hgenerated, hstored⟩

/-- An attempt that has stored the run of the first hour and nothing else is repaired. -/
theorem rerun_links_first_hour : (∃ c repaired after,
    generated (storeAfter Keyed.Ledger.empty hourlyVisits) firstHour 0 = .ok [c] ∧
      stored (attempted (storeAfter Keyed.Ledger.empty hourlyVisits) .updateJoin [c] 1)
        .correlatedSubquery [c] = (.ok repaired, after) ∧
      OwnsOne after.committed.runs.values after.committed.states.values c.run.id true) ∧
    ∃ c repaired after,
      generated (storeAfter (Relational.Database.connect .current ⟨.none, false⟩) hourlyVisits)
        firstHour 0 = .ok [c] ∧
      stored (attempted (storeAfter (Relational.Database.connect .current ⟨.none, false⟩)
        hourlyVisits) .updateJoin [c] 1) .correlatedSubquery [c] = (.ok repaired, after) ∧
      OwnsOne after.file.tables.runRows after.file.tables.stateRows c.run.id true := by
  constructor
  · obtain ⟨c, created, hgenerated, hstored⟩ := exists_stored_firstHour
    obtain ⟨repaired, after, hrerun, howns⟩ :=
      (rerun_links_unless_states_stand hourlyVisits hourlyVisits firstHour 0 .updateJoin
        .correlatedSubquery 1).1 [c] created hgenerated hstored
    exact ⟨c, repaired, after, hgenerated, hrerun, howns c (List.mem_singleton_self c)⟩
  · obtain ⟨hgenerated, hstored⟩ :=
      Relational.Database.hourly_copying.stored_firstHour mirrorsRuns_hourlyRows
    rw [← Relational.Database.storeAfter_hourlyVisits] at hgenerated hstored
    obtain ⟨repaired, after, hrerun, howns⟩ :=
      (rerun_links_unless_states_stand hourlyVisits hourlyVisits firstHour 0 .updateJoin
        .correlatedSubquery 1).2 .current (.inr rfl) [midnight] _ hgenerated hstored
    exact ⟨midnight, repaired, after, hgenerated, hrerun,
      howns midnight (List.mem_singleton_self midnight)⟩

/-- One that has stored its state too, and not linked it, is not: storing the candidate again
succeeds and leaves a run that points at nothing. -/
theorem rerun_leaves_first_hour_unlinked : ∃ c created repaired after,
    generated (storeAfter Keyed.Ledger.empty hourlyVisits) firstHour 0 = .ok [c] ∧
      (stored (storeAfter Keyed.Ledger.empty hourlyVisits) .updateJoin [c]).1 = .ok created ∧
      stored (attempted (storeAfter Keyed.Ledger.empty hourlyVisits) .updateJoin [c] 2)
        .updateJoin [c] = (.ok repaired, after) ∧
      ∃ r ∈ after.committed.runs.values, r.id = c.run.id ∧ r.stateId = none := by
  obtain ⟨c, created, hgenerated, hstored⟩ := exists_stored_firstHour
  obtain ⟨repaired, after, hrerun, howns⟩ := Keyed.Ledger.rerunLinks hourlyVisits hourlyVisits
    firstHour 0 .updateJoin .updateJoin 2 [c] created hgenerated hstored
  obtain ⟨r, hr, hid, s, -, hlink⟩ := howns c (List.mem_singleton_self c)
  -- nothing has been stored before, so the run is not linked
  exact ⟨c, created, repaired, after, hgenerated, hstored, hrerun, r, hr, hid, hlink⟩

end Timetable
