import Timetable.Proofs.Keyed.Stored
import Timetable.Proofs.Keys
import Timetable.Proofs.Retry

/-!
# Calls in any order

Calls that schedule runs at one reading of the clock may be made in any order: the store comes out
the same, so do the runs that are returned, and each call fails if it would fail when made first
(`calls_in_any_order`). For what a call asks for depends on deployments and schedules, which no
such call changes, and what it adds is told by the tables from before the first call and by its
candidates (`Tables.Replayed`). The ids of different keys have to differ, since otherwise the
first of two calls would take an id from the second.
-/

namespace Timetable

/-! ### A call on tables -/

namespace Keyed

open Tables

variable {t t₀ : Tables} {cs : List Candidate} {job : Job}

theorem Ledger.run_generate (r : Request) (now : Instant) (s : Ledger × Transaction) :
    (r.generate now).run s = (s.2.working.generate r now, s) := by
  have hfind : (Repository.findDeployment r.deploymentId).run s =
      (.ok (s.2.working.deployments.get? r.deploymentId), s) := rfl
  rw [Request.generate, Action.run_bind_of_ok hfind, Tables.generate]
  cases s.2.working.deployments.get? r.deploymentId <;> rfl

theorem Ledger.generated_eq (t : Tables) (r : Request) (clock : Int) :
    generated (⟨t, false⟩ : Ledger) r clock = t.generate r (.ofNanos clock) := by
  have hrun := Ledger.copying.run_transact (Ledger.run_generate r (.ofNanos clock)
    (Ledger.copying.busy t t)) clock []
  exact congrArg Prod.fst hrun

namespace Tables

/-- Makes a call on tables. -/
def perform (t : Tables) (job : Job) : Except Failure (List FlowRun) × Tables :=
  match t.generate job.request job.now with
  | .error e => (.error e, t)
  | .ok cs =>
    match t.materialize job.strategy cs with
    | (.error e, _) => (.error e, t)
    | (.ok created, u) => (.ok created, u)

/-- What a call asks for. -/
def offered (t : Tables) (job : Job) : List Candidate :=
  (t.generate job.request job.now).toOption.getD []

/-- What a call adds, if it is made right away. -/
def accepted (t : Tables) (job : Job) : List Candidate :=
  if (t.perform job).1.isOk then t.offered job else []

end Tables

/-- What scheduling does in a transaction of a ledger is the call on its tables. -/
theorem Ledger.run_schedulingWork (ht : t.WellFormed) (job : Job) : ∃ x u,
    (schedulingWork job.strategy job.request job.now).run (Ledger.copying.busy t t) =
        (x, Ledger.copying.busy t u) ∧
      t.perform job = (x.map Prod.snd, Copying.settled x t u) := by
  have hgenerate := Ledger.run_generate job.request job.now (Ledger.copying.busy t t)
  have hworking : (Ledger.copying.busy t t).2.working = t := rfl
  rw [hworking] at hgenerate
  rw [Tables.perform, schedulingWork]
  cases hcs : t.generate job.request job.now with
  | error e =>
    rw [hcs] at hgenerate
    exact ⟨.error e, t, Action.run_bind_of_error hgenerate, rfl⟩
  | ok cs =>
    rw [hcs] at hgenerate
    have hmaterialize : (materialize job.strategy cs).run (Ledger.copying.busy t t) = _ :=
      Ledger.run_materialize ht job.strategy cs
    rw [Action.run_bind_of_ok hgenerate]
    rcases hresult : t.materialize job.strategy cs with ⟨e | created, u⟩
    · rw [hresult] at hmaterialize
      simp only [hresult]
      exact ⟨.error e, u, Action.run_bind_of_error hmaterialize, rfl⟩
    · rw [hresult] at hmaterialize
      simp only [hresult]
      exact ⟨.ok (cs.length, created), u, Action.run_bind_of_ok hmaterialize, rfl⟩

/-- Whatever has been logged, a call on a ledger is the call on its tables. -/
theorem Ledger.run_scheduleRuns (ht : t.WellFormed) (job : Job) (log : List Log.Entry) : ∃ log',
    (scheduleRuns job.strategy job.request).run ⟨(⟨t, false⟩ : Ledger), job.clock, log⟩ =
      ((t.perform job).1, ⟨⟨(t.perform job).2, false⟩, job.clock, log'⟩) := by
  obtain ⟨x, u, hwork, hperform⟩ := Ledger.run_schedulingWork ht job
  rw [hperform]
  exact run_scheduleRuns_of_transact (Ledger.copying.run_transact hwork job.clock log)

theorem Ledger.perform_eq (ht : t.WellFormed) (job : Job) :
    job.perform (⟨t, false⟩ : Ledger) = ((t.perform job).1, ⟨(t.perform job).2, false⟩) := by
  obtain ⟨log, hrun⟩ := Ledger.run_scheduleRuns ht job []
  rw [Job.perform, hrun]

namespace Tables

/-- A call whose candidates can be generated and stored leaves what they leave. -/
theorem perform_of_ok {created : List FlowRun} (hcs : t.generate job.request job.now = .ok cs)
    (hok : (t.materialize job.strategy cs).1 = .ok created) :
    t.perform job = (.ok created, (t.materialize job.strategy cs).2) := by
  rw [perform, hcs]
  rcases hresult : t.materialize job.strategy cs with ⟨e | made, u⟩
  · rw [hresult] at hok
    cases hok
  · rw [hresult] at hok
    obtain rfl : made = created := Except.ok.inj hok
    simp only [hresult]

/-- A call whose candidates are refused changes nothing. -/
theorem perform_of_error {e : Failure} (hcs : t.generate job.request job.now = .ok cs)
    (hrefused : (t.materialize job.strategy cs).1 = .error e) : t.perform job = (.error e, t) := by
  rw [perform, hcs]
  rcases hresult : t.materialize job.strategy cs with ⟨r, u⟩
  rw [hresult] at hrefused
  obtain rfl : r = .error e := hrefused
  simp only [hresult]

/-- A call fails and changes nothing, or what it asks for is stored. -/
theorem perform_cases (t : Tables) (job : Job) :
    (∃ e, t.perform job = (.error e, t)) ∨
      ∃ cs created, t.generate job.request job.now = .ok cs ∧
        (t.materialize job.strategy cs).1 = .ok created ∧
        t.perform job = (.ok created, (t.materialize job.strategy cs).2) := by
  cases hcs : t.generate job.request job.now with
  | error e => exact .inl ⟨e, by rw [perform, hcs]⟩
  | ok cs =>
    rcases hresult : t.materialize job.strategy cs with ⟨e | created, u⟩
    · exact .inl ⟨e, by simp only [perform, hcs, hresult]⟩
    · have hok : (t.materialize job.strategy cs).1 = .ok created := by rw [hresult]
      exact .inr ⟨cs, created, rfl, hok, hresult ▸ perform_of_ok hcs hok⟩

theorem offered_of_ok (h : t.generate job.request job.now = .ok cs) : t.offered job = cs := by
  rw [offered, h]
  rfl

/-- A call succeeds if what it asks for can be generated and none of it is blocked. -/
theorem isOk_perform_iff (h : t.Healthy) (hco : Coherent (t.offered job)) :
    (t.perform job).1.isOk = true ↔
      (t.generate job.request job.now).isOk = true ∧ ∀ c ∈ t.offered job, ¬ t.Blocked c := by
  rw [perform]
  cases hcs : t.generate job.request job.now with
  | error e => exact iff_of_false Bool.false_ne_true fun hok => Bool.false_ne_true hok.1
  | ok cs =>
    rw [offered_of_ok hcs] at hco ⊢
    have hrefused := materialize_refused_iff_blocked h hco job.strategy
    rcases hresult : t.materialize job.strategy cs with ⟨e | created, u⟩
    · rw [hresult] at hrefused
      obtain ⟨c, hc, hblocked⟩ := hrefused.1 ⟨e, rfl⟩
      simp only [hresult]
      exact iff_of_false Bool.false_ne_true fun hok => hok.2 c hc hblocked
    · rw [hresult] at hrefused
      simp only [hresult]
      refine ⟨fun _ => ⟨rfl, fun c hc hblocked => ?_⟩, fun _ => rfl⟩
      obtain ⟨e, he⟩ := hrefused.2 ⟨c, hc, hblocked⟩
      cases he

theorem accepted_sublist (t : Tables) (job : Job) : (t.accepted job).Sublist (t.offered job) := by
  rw [accepted]
  split
  · exact List.Sublist.refl _
  · exact List.nil_sublist _

/-- Calls have added the candidates `done` to the tables `t₀`, one call after the other. -/
structure Replayed (t₀ : Tables) (done : List Candidate) (t : Tables) : Prop where
  healthy : t.Healthy
  stored : t₀.Stored done t
  free : ∀ c ∈ done, ¬ t₀.Blocked c

namespace Replayed

variable {done : List Candidate}

theorem generate_eq (ht : t₀.Replayed done t) (r : Request) (now : Instant) :
    t.generate r now = t₀.generate r now := by
  rw [generate, generate, listSchedules, listSchedules, ht.stored.deployments_eq,
    ht.stored.schedules_eq]

theorem offered_eq (ht : t₀.Replayed done t) (job : Job) : t.offered job = t₀.offered job := by
  rw [offered, offered, ht.generate_eq]

section Step

variable (h₀ : t₀.Healthy) (ht : t₀.Replayed done t) (hco : Coherent (done ++ t₀.offered job))

include h₀ ht hco

/-- A call succeeds if it would have succeeded at first. -/
theorem isOk_perform_eq : (t.perform job).1.isOk = (t₀.perform job).1.isOk := by
  have hco' : Coherent (t₀.offered job) := hco.subset (List.subset_append_right _ _)
  have hblocked : ∀ c ∈ t₀.offered job, (¬ t.Blocked c ↔ ¬ t₀.Blocked c) := fun c hc =>
    not_congr (ht.stored.blocked_iff hco ht.free hc)
  rw [Bool.eq_iff_iff, isOk_perform_iff h₀ hco',
    isOk_perform_iff ht.healthy (ht.offered_eq job ▸ hco'), ht.generate_eq, ht.offered_eq]
  exact and_congr_right fun _ => forall₂_congr hblocked

/-- What a call adds is what it would have added at first. -/
theorem perform : t₀.Replayed (done ++ t₀.accepted job) (t.perform job).2 := by
  have hsame := isOk_perform_eq h₀ ht hco
  rcases t.perform_cases job with ⟨e, he⟩ | ⟨cs, created, hcs, hok, hperform⟩
  · rw [he] at hsame ⊢
    have hfails : ¬ (t₀.perform job).1.isOk = true := by
      rw [← hsame]
      exact Bool.false_ne_true
    rw [accepted, if_neg hfails, List.append_nil]
    exact ht
  · rw [hperform] at hsame ⊢
    have hsucceeds : (t₀.perform job).1.isOk = true := hsame.symm
    have hoffered : t₀.offered job = cs := by rw [← ht.offered_eq, offered_of_ok hcs]
    rw [accepted, if_pos hsucceeds, hoffered]
    rw [hoffered] at hco
    have hcoherent : Coherent cs := hco.subset (List.subset_append_right _ _)
    exact {
      healthy := ht.healthy.of_materialized hcoherent.genuine
        (materialized_of_ok ht.healthy.wellFormed hok)
      stored := ht.stored.trans (stored_of_ok ht.healthy hcoherent hok) hco
      free := by
        intro c hc
        rcases List.mem_append.1 hc with hc | hc
        · exact ht.free c hc
        · rw [← ht.stored.blocked_iff hco ht.free hc]
          exact not_blocked_of_ok ht.healthy hcoherent hok hc }

end Step

end Replayed

end Tables

end Keyed

/-! ### Calls one after the other -/

/-- The runs that calls have returned. -/
def returned (results : List (Except Failure (List FlowRun))) : List FlowRun :=
  results.flatMap fun x => x.toOption.getD []

namespace Keyed.Tables

variable {t t₀ : Tables} {done : List Candidate} {job : Job}

/-- A call adds the runs that it returns. -/
theorem perm_runs_perform (h : t.Healthy) (hgenuine : ∀ c ∈ t.offered job, c.Genuine) :
    (t.perform job).2.runs.values.Perm (t.runs.values ++ returned [(t.perform job).1]) := by
  rcases t.perform_cases job with ⟨e, he⟩ | ⟨cs, created, hcs, hok, hperform⟩
  · simp [he, returned, Except.toOption]
  · rw [offered_of_ok hcs] at hgenuine
    rw [hperform]
    simpa [returned, Except.toOption] using
      perm_runs h hgenuine (materialized_of_ok h.wellFormed hok)

/-- After calls, the tables hold what each of them would have added at first, and the calls that
failed are those that would have failed at first. -/
theorem Replayed.replay (h₀ : t₀.Healthy) (ht : t₀.Replayed done t) (jobs : List Job)
    (hco : Coherent (done ++ jobs.flatMap t₀.offered)) : ∃ u,
    (Timetable.replay (⟨t, false⟩ : Ledger) jobs).2 = ⟨u, false⟩ ∧
      t₀.Replayed (done ++ jobs.flatMap t₀.accepted) u ∧
      (Timetable.replay (⟨t, false⟩ : Ledger) jobs).1.map Except.isOk =
        jobs.map (fun job => (t₀.perform job).1.isOk) ∧
      u.runs.values.Perm
        (t.runs.values ++ returned (Timetable.replay (⟨t, false⟩ : Ledger) jobs).1) := by
  induction jobs generalizing t done with
  | nil => exact ⟨t, rfl, by simpa using ht, rfl, by simp [returned, Timetable.replay]⟩
  | cons job jobs ih =>
    have hjob : Coherent (done ++ t₀.offered job) := hco.subset (by simp)
    have hrest : Coherent (done ++ t₀.accepted job ++ jobs.flatMap t₀.offered) := by
      rw [List.flatMap_cons, ← List.append_assoc] at hco
      exact hco.subset (((accepted_sublist t₀ job).append_left done).append_right _).subset
    obtain ⟨u, hstore, hu, hresults, hperm⟩ := ih (ht.perform h₀ hjob) hrest
    have hreplay : Timetable.replay (⟨t, false⟩ : Ledger) (job :: jobs) =
        ((t.perform job).1 :: (Timetable.replay (⟨(t.perform job).2, false⟩ : Ledger) jobs).1,
          (Timetable.replay (⟨(t.perform job).2, false⟩ : Ledger) jobs).2) := by
      rw [Timetable.replay, Ledger.perform_eq ht.healthy.wellFormed]
    rw [hreplay]
    refine ⟨u, hstore, ?_, ?_, ?_⟩
    · rw [List.flatMap_cons, ← List.append_assoc]
      exact hu
    · rw [List.map_cons, hresults, ht.isOk_perform_eq h₀ hjob, List.map_cons]
    · have hoffered : ∀ c ∈ t.offered job, c.Genuine := fun c hc =>
        hjob.genuine c (List.mem_append_right _ (ht.offered_eq job ▸ hc))
      refine hperm.trans (((perm_runs_perform ht.healthy hoffered).append_right _).trans ?_)
      simp [returned]

end Keyed.Tables

/-! ### Any order -/

/-- What calls ask for when made first. -/
def Requested [Repository σ τ] (s : σ) (jobs : List Job) (c : Candidate) : Prop :=
  ∃ job ∈ jobs, ∃ cs, generated s job.request job.clock = .ok cs ∧ c ∈ cs

/-- Different keys of what is asked for have runs with different ids, and these have first states
with different ids. -/
structure DistinctIds [Repository σ τ] (s : σ) (jobs : List Job) : Prop where
  runId_inj : ∀ {c d}, Requested s jobs c → Requested s jobs d →
    Occurrence.runId c.run.flowId c.run.idempotencyKey =
      Occurrence.runId d.run.flowId d.run.idempotencyKey → c.run.key = d.run.key
  initialStateId_inj : ∀ {c d}, Requested s jobs c → Requested s jobs d →
    Occurrence.initialStateId c.run.id = Occurrence.initialStateId d.run.id → c.run.id = d.run.id

theorem Keyed.Tables.requested_iff (t : Tables) (jobs : List Job) (c : Candidate) :
    Requested (⟨t, false⟩ : Ledger) jobs c ↔ c ∈ jobs.flatMap t.offered := by
  rw [List.mem_flatMap, Requested]
  refine exists_congr fun job => and_congr_right fun _ => ?_
  rw [Ledger.generated_eq, ← Job.now, offered]
  cases t.generate job.request job.now <;> simp [Except.toOption]

/-- What calls ask for at one time is coherent if ids are distinct. -/
theorem Keyed.Tables.coherent_of_distinctIds {t : Tables} (ht : t.WellFormed) {jobs : List Job}
    {clock : Int} (hclock : ∀ job ∈ jobs, job.clock = clock)
    (hids : DistinctIds (⟨t, false⟩ : Ledger) jobs) : Coherent (jobs.flatMap t.offered) := by
  have hoffers : ∀ c ∈ jobs.flatMap t.offered, t.Offers (.ofNanos clock) c := by
    intro c hc
    obtain ⟨job, hjob, cs, hcs, hc⟩ := (requested_iff t jobs c).2 hc
    rw [Ledger.generated_eq, hclock job hjob] at hcs
    exact offers_of_generate hcs hc
  exact {
    genuine := fun c hc => (hoffers c hc).genuine
    key_eq := by
      intro c d hc hd hid
      rw [(hoffers c hc).genuine.id_eq, (hoffers d hd).genuine.id_eq] at hid
      exact hids.runId_inj ((requested_iff t jobs c).2 hc) ((requested_iff t jobs d).2 hd) hid
    id_eq := by
      intro c d hc hd hid
      rw [(hoffers c hc).state_id, (hoffers d hd).state_id] at hid
      exact hids.initialStateId_inj ((requested_iff t jobs c).2 hc)
        ((requested_iff t jobs d).2 hd) hid
    run_eq := fun hc hd hkey => ((hoffers _ hc).eq_of_key ht (hoffers _ hd) hkey).1
    state_eq := fun hc hd hkey => ((hoffers _ hc).eq_of_key ht (hoffers _ hd) hkey).2 }

/-- The tables of a ledger that has served calls are healthy. -/
theorem Keyed.Ledger.exists_healthy (earlier : List Visit) : ∃ t : Tables,
    storeAfter Keyed.Ledger.empty earlier = ⟨t, false⟩ ∧ t.Healthy := by
  obtain ⟨t, hstore, hlater⟩ := Keyed.Ledger.healthy_empty.storeAfter_eq earlier
  obtain ⟨u, hu⟩ := hlater.healthy.shows
  obtain ⟨rfl, -⟩ := id hu
  exact ⟨t, hstore, hlater.healthy.tables hu⟩

/-- At one reading of the clock, calls that schedule runs may be made in any order: they leave the
same store and return the same runs, and in every order those fail that would fail if made first. -/
theorem calls_in_any_order (earlier : List Visit) {s : Keyed.Ledger} {clock : Int}
    {jobs others : List Job} (hs : s = storeAfter Keyed.Ledger.empty earlier)
    (hperm : jobs.Perm others) (hclock : ∀ job ∈ jobs, job.clock = clock)
    (hids : DistinctIds s jobs) :
    (replay s jobs).2 = (replay s others).2 ∧
      (returned (replay s jobs).1).Perm (returned (replay s others).1) ∧
      (replay s jobs).1.map Except.isOk = jobs.map (fun job => (job.perform s).1.isOk) ∧
      (replay s others).1.map Except.isOk = others.map (fun job => (job.perform s).1.isOk) := by
  obtain ⟨t, ht, h⟩ := Keyed.Ledger.exists_healthy earlier
  obtain rfl : s = ⟨t, false⟩ := hs.trans ht
  have hco := Keyed.Tables.coherent_of_distinctIds h.wellFormed hclock hids
  have hstart : t.Replayed [] t := ⟨h, .refl t, by simp⟩
  have hmem : ∀ c, c ∈ jobs.flatMap t.accepted ↔ c ∈ others.flatMap t.accepted := fun c =>
    (hperm.flatMap_right t.accepted).mem_iff
  obtain ⟨u, hu, hreplayed, hresults, hruns⟩ := hstart.replay h jobs hco
  obtain ⟨v, hv, hreplayed', hresults', hruns'⟩ :=
    hstart.replay h others (hco.subset (hperm.symm.flatMap_right t.offered).subset)
  obtain rfl : u = v := hreplayed.stored.unique hreplayed'.stored hmem
  simp only [Keyed.Ledger.perform_eq h.wellFormed]
  refine ⟨hu.trans hv.symm, ?_, hresults, hresults'⟩
  exact (List.perm_append_left_iff t.runs.values).1 (hruns.symm.trans hruns')

/-- Where the hourly schedule is the only one, a request for its deployment is about its hours. -/
theorem Keyed.Tables.generate_hourly {t : Keyed.Tables}
    (hdeployments : t.deployments = hourlyTables.deployments)
    (hschedules : t.schedules = hourlyTables.schedules) {r : Request}
    (hid : r.deploymentId = "known") (now : Instant) :
    t.generate r now = r.ofSchedules now plainDeployment [hourly] := by
  have hfind : hourlyTables.deployments.get? "known" = some plainDeployment := rfl
  have hlist : hourlyTables.listSchedules "known" = [hourly] := List.mergeSort_singleton hourly
  rw [generate, hid, hdeployments, hfind, listSchedules, hschedules]
  exact congrArg (r.ofSchedules now plainDeployment) hlist

/-- A call for the first hour. -/
def firstHourJob (strategy : LinkStrategy) : Job := ⟨strategy, firstHour, 0⟩

/-- Two calls for the same hour and one for a deployment that is not there. -/
def firstHourJobs : List Job :=
  [firstHourJob .updateJoin, plainJob "unknown", firstHourJob .correlatedSubquery]

/-- Calls for the same hour ask for the same candidate, so no two ids can meet. -/
theorem distinctIds_firstHourJobs :
    DistinctIds (storeAfter Keyed.Ledger.empty hourlyVisits) firstHourJobs := by
  obtain ⟨a, -, hgenerated, -⟩ := exists_stored_firstHour
  have hunknown : generated (storeAfter Keyed.Ledger.empty hourlyVisits)
      (plainJob "unknown").request 0 = .error (.deploymentNotFound "unknown") := by
    have hnone : hourlyTables.deployments.get? "unknown" = none := by decide
    rw [storeAfter_hourlyVisits, Keyed.Ledger.generated_eq]
    simp only [Keyed.Tables.generate, plainJob, hnone]
  have hall : ∀ c, Requested (storeAfter Keyed.Ledger.empty hourlyVisits) firstHourJobs c →
      c = a := by
    rintro c ⟨job, hjob, cs, hcs, hc⟩
    have hfirst : ∀ strategy, job = firstHourJob strategy → c = a := by
      rintro strategy rfl
      obtain rfl : [a] = cs := Except.ok.inj (hgenerated.symm.trans hcs)
      exact List.mem_singleton.1 hc
    simp only [firstHourJobs, List.mem_cons, List.not_mem_nil, or_false] at hjob
    rcases hjob with hjob | rfl | hjob
    · exact hfirst _ hjob
    · cases hunknown.symm.trans hcs
    · exact hfirst _ hjob
  exact {
    runId_inj := fun hc hd _ => by rw [hall _ hc, hall _ hd]
    initialStateId_inj := fun hc hd _ => by rw [hall _ hc, hall _ hd] }

theorem calls_in_any_order_first_hour :
    (replay (storeAfter Keyed.Ledger.empty hourlyVisits) firstHourJobs).2 =
        (replay (storeAfter Keyed.Ledger.empty hourlyVisits) firstHourJobs.reverse).2 ∧
      (returned (replay (storeAfter Keyed.Ledger.empty hourlyVisits) firstHourJobs).1).Perm
        (returned
          (replay (storeAfter Keyed.Ledger.empty hourlyVisits) firstHourJobs.reverse).1) := by
  have hclock : ∀ job ∈ firstHourJobs, job.clock = 0 := by
    simp [firstHourJobs, firstHourJob, plainJob]
  have h := calls_in_any_order hourlyVisits rfl (List.reverse_perm firstHourJobs).symm hclock
    distinctIds_firstHourJobs
  exact ⟨h.1, h.2.1⟩

end Timetable
