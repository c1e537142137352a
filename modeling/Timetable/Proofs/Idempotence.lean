import Timetable.Proofs.Coverage

/-!
# Calls that repeat what has been done

A call that asks for nothing but runs whose keys are stored finds nothing to do: each of these runs
has its state already, so none is taken for new, and the store stays as it is
(`Backend.Healthy.perform_of_keys`). That is so whenever a call asks for no more than an earlier call
that has succeeded, in the same window and of the same deployment and schedules, however much later:
`repeated_calls_do_nothing`.
-/

namespace Timetable

open Keyed.Tables (submitted)

/-! ### Asking for less -/

/-- Collecting succeeds if it succeeds at each element. -/
theorem exists_mapM_eq_ok {α β ε : Type} {f : α → Except ε β} {as : List α}
    (h : ∀ a ∈ as, ∃ b, f a = .ok b) : ∃ bs, as.mapM f = .ok bs := by
  induction as with
  | nil => exact ⟨[], rfl⟩
  | cons a as ih =>
    obtain ⟨⟨b, hb⟩, has⟩ := List.forall_mem_cons.1 h
    obtain ⟨bs, hbs⟩ := ih has
    refine ⟨b :: bs, mapM_eq_ok_iff.2 ?_⟩
    rw [List.map_cons, List.map_cons, hb, mapM_eq_ok_iff.1 hbs]

/-- Whether an instant can be written does not depend on when that is tried. -/
theorem Occurrence.exists_candidate_at {d : Deployment} {s : Schedule} {createdAt : UInt64}
    {t : Instant} {c : Candidate} (h : candidate d s createdAt t = .ok c) (later : UInt64) :
    ∃ c', candidate d s later t = .ok c' := by
  obtain ⟨text, htext, -⟩ := candidate_eq_ok.1 h
  exact ⟨_, candidate_eq_ok.2 ⟨text, htext, rfl⟩⟩

/-- A request for the occurrences of a deployment in a window. -/
def Request.window (deploymentId : String) (start finish : Instant) (maxRuns : Option UInt64) :
    Request :=
  ⟨deploymentId, some start, some finish, maxRuns⟩

section Fewer

variable {id : String} {start finish : Instant} {few many : Option UInt64} {now : Instant}
  {d : Deployment} {s : Schedule} {ss : List Schedule} {cs : List Candidate}

/-- A request for fewer occurrences can be met where one for more has been met, and it asks for no
key that has not been asked for. -/
theorem exists_ofSchedules_of_fewer (later : Instant)
    (hlimit : (Request.window id start finish few).limit ≤
      (Request.window id start finish many).limit)
    (h : (Request.window id start finish many).ofSchedules now d ss = .ok cs) :
    ∃ cs', (Request.window id start finish few).ofSchedules later d ss = .ok cs' ∧
      ∀ c' ∈ cs', ∃ c ∈ cs, c.run.key = c'.run.key := by
  have hsubset : ∀ g : Grid, g.dates (Request.window id start finish few).limit start finish ⊆
      g.dates (Request.window id start finish many).limit start finish := fun g =>
    (g.dates_prefix_of_le hlimit start finish).subset
  obtain ⟨lists, hlists, -⟩ := ofSchedules_eq_ok.1 h
  have hschedule : ∀ s ∈ ss, ∃ l, (Request.window id start finish few).ofSchedule later d s =
      .ok l := by
    intro s hs
    obtain ⟨l, -, hl⟩ := exists_of_mapM hlists hs
    obtain ⟨g, hg, hdates⟩ := ofSchedule_eq_ok.1 hl
    obtain ⟨l', hl'⟩ : ∃ l', (g.dates (Request.window id start finish few).limit start
        finish).mapM (Occurrence.candidate d s later.toWord) = .ok l' := by
      refine exists_mapM_eq_ok fun t ht => ?_
      obtain ⟨c, -, hc⟩ := exists_of_mapM hdates (hsubset g ht)
      exact Occurrence.exists_candidate_at hc _
    exact ⟨l', ofSchedule_eq_ok.2 ⟨g, hg, hl'⟩⟩
  obtain ⟨lists', hlists'⟩ := exists_mapM_eq_ok hschedule
  have h' := ofSchedules_eq_ok.2 ⟨lists', hlists', rfl⟩
  refine ⟨lists'.flatten, h', fun c' hc' => ?_⟩
  obtain ⟨s, hs, g, hg, t, ht, hcandidate'⟩ := (mem_ofSchedules_iff h').1 hc'
  obtain ⟨c, hc, hcandidate⟩ := exists_candidate h hs hg (hsubset g ht)
  exact ⟨c, hc, (Occurrence.key_eq hcandidate).trans (Occurrence.key_eq hcandidate').symm⟩

end Fewer

/-! ### Nothing to do -/

/-- In healthy tables every stored run has a state. -/
theorem Keyed.Tables.Healthy.statelessRunIds_eq_nil {t : Keyed.Tables} (h : t.Healthy)
    (ids : List String) : t.statelessRunIds ids = [] := by
  rw [statelessRunIds, List.filter_eq_nil_iff]
  intro id _ hstateless
  rw [isStateless, Bool.and_eq_true, List.isEmpty_iff, stateIds_eq_nil_iff h.wellFormed] at hstateless
  obtain ⟨hstored, hnone⟩ := hstateless
  obtain ⟨r, hr⟩ := OrderedMap.contains_iff.1 hstored
  obtain ⟨s, hs, -⟩ := h.sound.one_state r (OrderedMap.mem_values.2 ⟨id, hr⟩)
  have hmem : s ∈ t.states.values.filter (·.runId == r.id) := by
    rw [hs]
    simp
  obtain ⟨hmem, hrun⟩ := List.mem_filter.1 hmem
  rw [beq_iff_eq, h.wellFormed.run_id hr] at hrun
  exact hnone s hmem hrun

namespace Backend

variable {σ τ κ : Type} [Repository σ τ] {B : Backend σ κ} {c w : κ} {cs : List Candidate}
  {strategy : LinkStrategy} {job : Job} {created : List FlowRun}

/-- In the transactions of a backend, runs whose keys are stored are ignored, and runs without states
are those without states in the keyed tables. -/
structure Ignores (B : Backend σ κ) : Prop where
  insertRuns : ∀ {w t} c {cs : List Candidate}, B.Shows w t → (∀ a ∈ cs, B.fits a) →
    (∀ a ∈ cs, ∃ r ∈ B.runs w, r.key = a.run.key) →
    (Repository.insertRuns (submitted cs)).run (B.busy c w) = (.ok (.ok ()), B.busy c w)
  statelessRunIds : ∀ {w t} c {cs : List Candidate}, B.Shows w t → (∀ a ∈ cs, B.fits a) → ∃ ids,
    (Repository.statelessRunIds (cs.map fun a => a.run.id)).run (B.busy c w) =
      (.ok (.ok (), ids), B.busy c w) ∧
      ∀ id, id ∈ ids ↔ id ∈ t.statelessRunIds (cs.map fun a => a.run.id)

/-- Candidates whose keys are all stored are stored without any effect. -/
theorem Healthy.run_materialize_of_keys (h : B.Healthy w) (hB : B.Ignores)
    (hfits : ∀ a ∈ cs, B.fits a) (hkeys : ∀ a ∈ cs, ∃ r ∈ B.runs w, r.key = a.run.key) (c : κ)
    (strategy : LinkStrategy) :
    (materialize strategy cs).run (B.busy c w) = (.ok [], B.busy c w) := by
  obtain ⟨t, ht⟩ := h.shows
  obtain ⟨ids, hstateless, hids⟩ := hB.statelessRunIds c ht hfits
  have hnil : ids = [] := by
    rw [List.eq_nil_iff_forall_not_mem]
    intro id hid
    rw [hids, (h.tables ht).statelessRunIds_eq_nil] at hid
    cases hid
  subst hnil
  unfold materialize
  split
  · rfl
  · rw [Action.run_bind_of_ok (run_demand_of_ok (hB.insertRuns c ht hfits hkeys)),
      Action.run_bind_of_ok hstateless]
    rfl

theorem Healthy.generated_eq (h : B.Healthy c) (r : Request) (clock : Int) : ∃ x,
    generated (B.resting c) r clock = x ∧
      (r.generate (.ofNanos clock)).run (B.busy c c) = (x, B.busy c c) ∧
      ∀ cs, x = .ok cs → ∀ a ∈ cs, B.fits a := by
  obtain ⟨t, ht⟩ := h.shows
  obtain ⟨x, hrun, hfits⟩ := B.run_generate c r (.ofNanos clock) ht
  refine ⟨x, ?_, hrun, fun cs hcs a ha => (hfits cs hcs a ha).2⟩
  rw [generated, B.run_transact hrun]

/-- A call that asks for nothing but runs whose keys are stored does nothing. -/
theorem Healthy.perform_of_keys (h : B.Healthy c) (hB : B.Ignores)
    (hgenerated : generated (B.resting c) job.request job.clock = .ok cs)
    (hkeys : ∀ a ∈ cs, ∃ r ∈ B.runs c, r.key = a.run.key) :
    job.perform (B.resting c) = (.ok [], B.resting c) := by
  obtain ⟨x, rfl, hgenerate, hfits⟩ := h.generated_eq job.request job.clock
  rw [hgenerated] at hgenerate
  have hmaterialize := h.run_materialize_of_keys hB (hfits cs hgenerated) hkeys c job.strategy
  have hwork : (schedulingWork job.strategy job.request (.ofNanos job.clock)).run (B.busy c c) =
      (.ok (cs.length, []), B.busy c c) := by
    rw [schedulingWork, Action.run_bind_of_ok hgenerate, Action.run_bind_of_ok hmaterialize]
    rfl
  obtain ⟨log, hrun⟩ : ∃ log, (scheduleRuns job.strategy job.request).run
      ⟨B.resting c, job.clock, []⟩ = (.ok [], ⟨B.resting c, job.clock, log⟩) :=
    B.run_scheduleRuns_of_ok hwork
  rw [Job.perform, hrun]

/-- Whatever has been logged, a call that succeeds adds what it has generated. -/
theorem Healthy.exists_added (h : B.Healthy c)
    (hok : (job.perform (B.resting c)).1 = .ok created) : ∃ cs c',
    (job.request.generate (.ofNanos job.clock)).run (B.busy c c) = (.ok cs, B.busy c c) ∧
      B.Added c cs created c' ∧ ∀ log, ∃ log', (scheduleRuns job.strategy job.request).run
        ⟨B.resting c, job.clock, log⟩ = (.ok created, ⟨B.resting c', job.clock, log'⟩) := by
  obtain ⟨x, c', hwork, hadded⟩ := h.run_schedulingWork job.strategy job.request (.ofNanos job.clock)
  cases x with
  | error e =>
    rw [Job.perform, B.run_scheduleRuns_of_error hwork] at hok
    cases hok
  | ok result =>
    obtain ⟨n, made⟩ := result
    have hrun : ∀ log, ∃ log', (scheduleRuns job.strategy job.request).run
        ⟨B.resting c, job.clock, log⟩ = (.ok made, ⟨B.resting c', job.clock, log'⟩) := fun log =>
      B.run_scheduleRuns_of_ok hwork
    obtain ⟨log', hlog⟩ := hrun []
    obtain rfl : made = created := by
      rw [Job.perform, hlog] at hok
      exact Except.ok.inj hok
    obtain ⟨cs, hgenerate, hadded⟩ := hadded n made rfl
    exact ⟨cs, c', hgenerate, hadded, hrun⟩

end Backend

/-! ### Backends that ignore what is stored -/

/-- Fewer contents and fewer candidates make no difference. -/
theorem Backend.Ignores.restrict {σ τ κ : Type} [Repository σ τ] {B : Backend σ κ} (hB : B.Ignores)
    {P : κ → Prop} {Q : Candidate → Prop} {hchange hgenerate hmaterialize} :
    (B.restrict P Q hchange hgenerate hmaterialize).Ignores where
  insertRuns c _ h hfits := hB.insertRuns c h.1 fun a ha => (hfits a ha).1
  statelessRunIds c _ h hfits := hB.statelessRunIds c h.1 fun a ha => (hfits a ha).1

theorem Keyed.Ledger.ignores : Keyed.Ledger.backend.Ignores where
  insertRuns := by
    rintro t _ c cs ⟨rfl, ht⟩ - hkeys
    have hignored : t.insertRuns (submitted cs) = (.ok (), t) := by
      refine Keyed.Tables.insertRuns_of_contains fun r hr => ?_
      obtain ⟨a, ha, rfl⟩ := List.mem_map.1 hr
      exact (ht.runKey_iff _).2 (hkeys a ha)
    show (Except.ok (t.insertRuns (submitted cs)).1, (⟨c, true⟩ : Keyed.Ledger),
      (⟨(t.insertRuns (submitted cs)).2, .active⟩ : Keyed.Transaction)) = _
    rw [hignored]
    rfl
  statelessRunIds := by
    rintro t _ c cs ⟨rfl, ht⟩ -
    exact ⟨_, rfl, fun id => Iff.rfl⟩

/-- Statements that insert runs whose keys are stored leave the rows as they are. -/
theorem Relational.Database.run_insertRuns_of_keys {v : Version} {c w : Tables} (hw : w.Whole)
    {rs : List FlowRun} (hrs : ∀ r ∈ rs, ∀ x ∈ r.texts, Text.NulFree x)
    (hkeys : ∀ r ∈ rs, ∃ q ∈ w.runRows, q.key = r.key) :
    (changeEach insertRun rs).run ((copying v).busy c w) =
      (.ok (.ok ()), (copying v).busy c w) := by
  induction rs with
  | nil => rfl
  | cons r rs ih =>
    obtain ⟨hr, hrs⟩ := List.forall_mem_cons.1 hrs
    obtain ⟨⟨q, hq, hkey⟩, hkeys⟩ := List.forall_mem_cons.1 hkeys
    have hany : w.runRows.any (·.key == r.key) = true := List.any_eq_true.2 ⟨q, hq, by simp [hkey]⟩
    have hrun : (insertRun r).run ((copying v).busy c w) = _ := run_change hw rfl
    rw [bindRun_of_nulFree hr, Tables.insertRun, hany] at hrun
    rw [changeEach, Action.run_bind_of_ok hrun]
    exact ih hrs hkeys

theorem Relational.Database.ignores (v : Version) : (backend v).Ignores where
  insertRuns := by
    intro w t c cs h hfits hkeys
    refine run_insertRuns_of_keys h.runs.whole (fun r hr x hx => ?_) fun r hr => ?_
    · obtain ⟨a, ha, rfl⟩ := List.mem_map.1 hr
      exact hfits a ha x (Candidate.texts_unlinkedRun hx)
    · obtain ⟨a, ha, rfl⟩ := List.mem_map.1 hr
      exact hkeys a ha
  statelessRunIds := by
    intro w t c cs h hfits
    exact (tracks v c w).statelessRunIds ⟨w, rfl, h.runs⟩ hfits

/-! ### Calling again -/

section Statement

variable {σ τ : Type} [Repository σ τ]

/-- A deployment and its schedules are found in one store as they are found in another. -/
def SameCatalogue (s s' : σ) (deploymentId : String) : Prop :=
  found s deploymentId = found s' deploymentId ∧ listed s deploymentId = listed s' deploymentId

/-- A call that asks for nothing but runs whose keys are stored returns no runs and leaves the store
as it is. So does one that asks for no more than an earlier call that has succeeded, if the deployment
and its schedules are what they were then. -/
structure RepeatsNothing (start : σ) (runs : σ → List FlowRun) : Prop where
  of_keys : ∀ (earlier : List Visit) (job : Job) (cs : List Candidate),
    generated (storeAfter start earlier) job.request job.clock = .ok cs →
    (∀ c ∈ cs, ∃ r ∈ runs (storeAfter start earlier), r.key = c.run.key) →
    job.perform (storeAfter start earlier) = (.ok [], storeAfter start earlier)
  again : ∀ (earlier between : List Visit) (strategy strategy' : LinkStrategy) (id : String)
    (first last : Instant) (n m : Option UInt64) (clock clock' : Int) (created : List FlowRun)
    (s : σ),
    (Job.perform ⟨strategy, .window id first last n, clock⟩ (storeAfter start earlier)).1 =
      .ok created →
    s = storeAfter start
      (earlier ++ ⟨.scheduleRuns strategy (.window id first last n), clock⟩ :: between) →
    SameCatalogue (storeAfter start earlier) s id →
    (Request.window id first last m).limit ≤ (Request.window id first last n).limit →
    Job.perform ⟨strategy', .window id first last m, clock'⟩ s = (.ok [], s)

end Statement

/-- Serving a call that schedules runs is making it. -/
theorem serve_scheduleRuns {σ τ : Type} [Repository σ τ] {w w' : World σ} {clock : Int}
    {strategy : LinkStrategy} {r : Request} {x : Except Failure (List FlowRun)}
    (h : (scheduleRuns strategy r).run { w with clock := clock } = (x, w')) :
    serve w ⟨.scheduleRuns strategy r, clock⟩ = w' := by
  rw [serve, Call.perform]
  cases x with
  | ok created => rw [Action.run_bind_of_ok h]; rfl
  | error e => rw [Action.run_bind_of_error h]

namespace Backend

variable {σ τ κ : Type} [Repository σ τ] {B : Backend σ κ} {a b : κ}

/-- After a call that has succeeded, the keys of all that it has generated are stored, however much
later. -/
theorem Healthy.exists_later (h : B.Healthy a) {earlier : List Visit} (between : List Visit)
    {job : Job} {created : List FlowRun}
    (hok : (job.perform (storeAfter (B.resting a) earlier)).1 = .ok created) : ∃ b c cs,
    storeAfter (B.resting a) earlier = B.resting b ∧
      storeAfter (B.resting a)
        (earlier ++ ⟨.scheduleRuns job.strategy job.request, job.clock⟩ :: between) = B.resting c ∧
      B.Healthy b ∧ B.Healthy c ∧
      (job.request.generate (.ofNanos job.clock)).run (B.busy b b) = (.ok cs, B.busy b b) ∧
      ∀ d ∈ cs, ∃ r ∈ B.runs c, r.key = d.run.key := by
  have hstart : B.Since a ⟨B.resting a, 0, []⟩ := ⟨a, rfl, h.later⟩
  obtain ⟨b, hb, hlater⟩ := hstart.foldl_serve earlier
  have hstore : storeAfter (B.resting a) earlier = B.resting b := hb
  rw [hstore] at hok
  obtain ⟨cs, b', hgenerate, hadded, hrun⟩ := hlater.healthy.exists_added hok
  -- the call leaves the same contents, whatever has been logged before it
  obtain ⟨log', hlog⟩ := hrun (earlier.foldl serve ⟨B.resting a, 0, []⟩).log
  have hmid : B.Since b' (serve (earlier.foldl serve ⟨B.resting a, 0, []⟩)
      ⟨.scheduleRuns job.strategy job.request, job.clock⟩) := by
    rw [← hb] at hlog
    rw [serve_scheduleRuns hlog]
    exact ⟨b', rfl, hadded.healthy.later⟩
  obtain ⟨c, hc, hlater'⟩ := hmid.foldl_serve between
  refine ⟨b, c, cs, hstore, ?_, hlater.healthy, hlater'.healthy, hgenerate, fun d hd => ?_⟩
  · rw [storeAfter, List.foldl_append, List.foldl_cons]
    exact hc
  · obtain ⟨r, hr, hkey⟩ := hadded.exists_run d hd
    exact ⟨r, hlater'.runs_subset hr, hkey⟩

namespace Catalogue

variable (C : B.Catalogue)

include C in
/-- Over the same deployment and schedules, a request for no more asks for no other keys. -/
theorem exists_generated_of_fewer (ha : B.Healthy a) (hb : B.Healthy b) {id : String}
    (hsame : SameCatalogue (B.resting a) (B.resting b) id) {first last : Instant}
    {n m : Option UInt64}
    (hlimit : (Request.window id first last m).limit ≤ (Request.window id first last n).limit)
    {clock : Int} {cs : List Candidate}
    (hgenerate : ((Request.window id first last n).generate (.ofNanos clock)).run (B.busy a a) =
      (.ok cs, B.busy a a)) (clock' : Int) : ∃ cs',
    generated (B.resting b) (.window id first last m) clock' = .ok cs' ∧
      ∀ c' ∈ cs', ∃ c ∈ cs, c.run.key = c'.run.key := by
  obtain ⟨hfound, hlisted⟩ := hsame
  rw [C.found_eq ha, C.found_eq hb, Except.ok.injEq] at hfound
  rw [C.listed_eq ha, C.listed_eq hb, Except.ok.injEq] at hlisted
  obtain ⟨d, hd, hcs⟩ := C.exists_ofSchedules ha hgenerate
  have hd : C.deployment a id = some d := hd
  have hcs : (Request.window id first last n).ofSchedules (.ofNanos clock) d (C.schedules a id) =
      .ok cs := hcs
  obtain ⟨cs', hcs', hkeys⟩ := exists_ofSchedules_of_fewer (.ofNanos clock') hlimit hcs
  obtain ⟨t, ht⟩ := hb.shows
  have hfind := C.run_findDeployment b id ht
  rw [← hfound, hd] at hfind
  have hrun := run_generate_of_some (r := .window id first last m) hfind
    (C.run_listSchedules b id ht) (.ofNanos clock')
  rw [← hlisted, hcs'] at hrun
  exact ⟨cs', by rw [generated, B.run_transact hrun], hkeys⟩

include C in
theorem repeatsNothing (hB : B.Ignores) (h : B.Healthy a) {runs : σ → List FlowRun}
    (hruns : ∀ b, runs (B.resting b) = B.runs b) : RepeatsNothing (B.resting a) runs where
  of_keys earlier job cs hgenerated hkeys := by
    obtain ⟨b, hstore, hlater⟩ := h.storeAfter_eq earlier
    rw [hstore] at hgenerated hkeys ⊢
    rw [hruns] at hkeys
    exact hlater.healthy.perform_of_keys hB hgenerated hkeys
  again := by
    intro earlier between strategy strategy' id first last n m clock clock' created s hok hs hsame
      hlimit
    obtain ⟨b, c, cs, hbefore, hafter, hb, hc, hgenerate, hkeys⟩ :=
      h.exists_later between hok
    obtain rfl : s = B.resting c := hs.trans hafter
    rw [hbefore] at hsame
    obtain ⟨cs', hgenerated, hfewer⟩ := C.exists_generated_of_fewer hb hc hsame hlimit hgenerate
      clock'
    refine hc.perform_of_keys hB hgenerated fun c' hc' => ?_
    obtain ⟨d, hd, hkey⟩ := hfewer c' hc'
    rw [← hkey]
    exact hkeys d hd

end Catalogue

end Backend

/-- In either store, what has been done once is not done again. -/
theorem repeated_calls_do_nothing (v : Relational.Version) :
    RepeatsNothing Keyed.Ledger.empty (fun l => l.committed.runs.values) ∧
      RepeatsNothing (Relational.Database.connect v ⟨.none, false⟩)
        (fun db => db.file.tables.runRows) := by
  constructor
  · have hempty : Keyed.Ledger.backend.timed.Healthy Keyed.Tables.empty :=
      Backend.healthy_of_runs_eq_nil ⟨⟨rfl, Keyed.Tables.wellFormed_empty⟩, fun _ hr => nomatch hr⟩
        rfl
    exact Keyed.Ledger.catalogue.repeatsNothing Keyed.Ledger.ignores.restrict hempty fun _ => rfl
  · have hempty : (Relational.Database.orderly v).timed.Healthy Relational.Tables.empty :=
      Backend.healthy_of_runs_eq_nil
        ⟨⟨Relational.shows_empty, List.nodup_nil⟩, fun _ hr => nomatch hr⟩ rfl
    exact (Relational.Database.catalogue v).repeatsNothing
      (Relational.Database.ignores v).restrict.restrict hempty fun _ => rfl

/-! ### An hour that is asked for again -/

section FirstHour

open Keyed.Tables

/-- The call for the first hour stores its run, and leaves the deployment and the schedule. -/
theorem exists_perform_firstHour : ∃ created u,
    hourlyTables.perform (firstHourJob .updateJoin) = (.ok created, u) ∧ u.runs.values ≠ [] ∧
      u.deployments = hourlyTables.deployments ∧ u.schedules = hourlyTables.schedules := by
  obtain ⟨c, hc⟩ := exists_ofSchedules_firstHour
  have hgenerate : hourlyTables.generate firstHour (.ofNanos 0) = .ok [c] :=
    (generate_hourly rfl rfl rfl _).trans hc
  obtain ⟨created, hok⟩ :=
    exists_materialize_singleton wellFormed_hourlyTables rfl rfl .updateJoin c
  have hu := materialized_of_ok wellFormed_hourlyTables hok
  obtain ⟨r, hr, -⟩ := exists_run_of_ok wellFormed_hourlyTables hok (List.mem_singleton_self c)
  exact ⟨created, _, perform_of_ok hgenerate hok, List.ne_nil_of_mem hr, hu.deployments_eq,
    hu.schedules_eq⟩

/-- The first hour is asked for in a window. -/
theorem firstHour_eq_window : firstHour = .window "known" ⟨0⟩ ⟨0⟩ none := rfl

/-- Makes the deployment and its schedule known, and asks for the first hour. -/
def firstHourVisits : List Visit :=
  hourlyVisits ++ [⟨.scheduleRuns .updateJoin (.window "known" ⟨0⟩ ⟨0⟩ none), 0⟩]

theorem storeAfter_firstHourVisits :
    storeAfter Keyed.Ledger.empty firstHourVisits =
      ⟨(hourlyTables.perform (firstHourJob .updateJoin)).2, false⟩ := by
  obtain ⟨log, hlog⟩ := Keyed.Ledger.run_scheduleRuns wellFormed_hourlyTables
    (firstHourJob .updateJoin) (hourlyVisits.foldl serve ⟨Keyed.Ledger.empty, 0, []⟩).log
  rw [storeAfter, firstHourVisits, List.foldl_append, List.foldl_cons, List.foldl_nil,
    ← firstHour_eq_window]
  generalize hw : hourlyVisits.foldl serve ⟨Keyed.Ledger.empty, 0, []⟩ = w at hlog ⊢
  have hstore : w.store = ⟨hourlyTables, false⟩ := by
    rw [← hw]
    exact storeAfter_hourlyVisits
  rw [← hstore] at hlog
  have hserve : serve w ⟨.scheduleRuns .updateJoin firstHour, 0⟩ = _ := serve_scheduleRuns hlog
  exact congrArg World.store hserve

/-- The first hour is stored, and an hour later a call for one occurrence in the same window, with
the other strategy, returns nothing and changes nothing. -/
theorem repeated_calls_do_nothing_first_hour : ∃ s : Keyed.Ledger,
    s = storeAfter Keyed.Ledger.empty firstHourVisits ∧ s.committed.runs.values ≠ [] ∧
      Job.perform ⟨.correlatedSubquery, .window "known" ⟨0⟩ ⟨0⟩ (some 1), 3600000000000⟩ s =
        (.ok [], s) := by
  obtain ⟨created, u, hperform, hruns, hdeployments, hschedules⟩ := exists_perform_firstHour
  have hstore := storeAfter_firstHourVisits
  rw [hperform] at hstore
  have hok : ((firstHourJob .updateJoin).perform (storeAfter Keyed.Ledger.empty hourlyVisits)).1 =
      .ok created := by
    rw [storeAfter_hourlyVisits, Keyed.Ledger.perform_eq wellFormed_hourlyTables, hperform]
  rw [firstHourJob, firstHour_eq_window] at hok
  have hsame : SameCatalogue (storeAfter Keyed.Ledger.empty hourlyVisits) (⟨u, false⟩ : Keyed.Ledger)
      "known" := by
    have hfound : found (⟨u, false⟩ : Keyed.Ledger) "known" =
        .ok (u.deployments.get? "known") := rfl
    have hlisted : listed (⟨u, false⟩ : Keyed.Ledger) "known" = .ok (u.listSchedules "known") := rfl
    rw [storeAfter_hourlyVisits, SameCatalogue, hfound, hlisted, hdeployments, listSchedules,
      hschedules]
    exact ⟨rfl, rfl⟩
  refine ⟨⟨u, false⟩, hstore.symm, hruns, ?_⟩
  exact (repeated_calls_do_nothing .current).1.again hourlyVisits [] .updateJoin
    .correlatedSubquery "known" ⟨0⟩ ⟨0⟩ none (some 1) 0 3600000000000 created _ hok hstore.symm
      hsame (by decide)

end FirstHour

end Timetable
