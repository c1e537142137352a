import Timetable.Proofs.Scene

/-!
# Sweeps

`Paged` says what the loop of a sweep does in a scene: which tables it reads pages of, which
deployments it schedules, what their calls end with and what it leaves. Whatever follows scenes
is swept like that, and the loop comes to its end (`Follows.run_sweep`).

Where nobody else does anything, the pages of a sweep make up the list of all deployments, so that
it makes one call for each of them, in the order of their ids, whatever the page size:
`sweep_serves_each_once`.
-/

namespace Timetable

/-! ### Calls in a scene -/

namespace Scene

/-- Makes calls one after the other. -/
def calls (s : Scene) : List Job → List (Except Failure (List FlowRun)) × Scene
  | [] => ([], s)
  | job :: jobs =>
    let r := s.next.perform job
    let rest := calls (s.after r.2) jobs
    (r.1 :: rest.1, rest.2)

variable {s : Scene} {n : Nat}

theorem Fits.calls (h : s.Fits n) (jobs : List Job) : (s.calls jobs).2.Fits n := by
  induction jobs generalizing s with
  | nil => exact h
  | cons job jobs ih => exact ih (h.perform job)

theorem calls_append (s : Scene) (jobs others : List Job) :
    s.calls (jobs ++ others) =
      ((s.calls jobs).1 ++ ((s.calls jobs).2.calls others).1, ((s.calls jobs).2.calls others).2) := by
  induction jobs generalizing s with
  | nil => rfl
  | cons job jobs ih =>
    show ((s.next.perform job).1 :: ((s.after (s.next.perform job).2).calls (jobs ++ others)).1,
      ((s.after (s.next.perform job).2).calls (jobs ++ others)).2) = _
    rw [ih]
    rfl

end Scene

/-! ### The loop -/

/-- The deployments of a page. -/
def Keyed.Tables.page (t : Keyed.Tables) (p k : Nat) : List Deployment :=
  (t.deployments.values.drop (k * p)).take p

/-- A page is full unless the deployments end on it. -/
theorem Keyed.Tables.length_page_lt_iff (t : Keyed.Tables) {p : Nat} (hp : 0 < p) (k : Nat) :
    (t.page p k).length < p ↔ t.deploymentIds.length < (k + 1) * p := by
  simp only [page, deploymentIds, List.length_take, List.length_drop, List.length_map, Nat.succ_mul]
  omega

/-- A sweep goes on from page `k`: it reads it once others have had their turn, makes a call for
each deployment on it, and goes on to the next page unless this one was not full. It has read pages
of the tables `reads`, visited deployments and left a scene. -/
inductive Paged (p : Nat) (job : Deployment → Job) : Nat → Scene → List Keyed.Tables →
    List Deployment → List (Except Failure (List FlowRun)) → Scene → Prop
  | last {k : Nat} {s s' : Scene} {results}
      (hshort : (s.next.page p k).length < p)
      (hcalls : (s.after s.next).calls ((s.next.page p k).map job) = (results, s')) :
      Paged p job k s [s.next] (s.next.page p k) results s'
  | more {k : Nat} {s s' s'' : Scene} {reads visited results results'}
      (hfull : (s.next.page p k).length = p)
      (hcalls : (s.after s.next).calls ((s.next.page p k).map job) = (results, s'))
      (hrest : Paged p job (k + 1) s' reads visited results' s'') :
      Paged p job k s (s.next :: reads) (s.next.page p k ++ visited) (results ++ results') s''

/-- A tally with the results of further calls. -/
def Tally.add (t : Tally) (results : List (Except Failure (List FlowRun))) : Tally where
  deployments := t.deployments + results.length
  failures := t.failures + results.countP fun r => !r.isOk
  runsCreated := t.runsCreated + (returned results).length

theorem Tally.add_add (t : Tally) (results others : List (Except Failure (List FlowRun))) :
    (t.add results).add others = t.add (results ++ others) := by
  simp [add, returned, Nat.add_assoc]

/-- The call that a sweep makes for a deployment. -/
def SweepOptions.job (o : SweepOptions) (strategy : LinkStrategy) (clock : Int) (d : Deployment) :
    Job :=
  ⟨strategy, o.request (.ofNanos clock) d.id, clock⟩

theorem SweepOptions.effectivePageSize_pos (o : SweepOptions) : 0 < o.effectivePageSize.toNat := by
  rw [effectivePageSize]
  split
  · decide
  · next h => exact Nat.pos_of_ne_zero fun hzero => h (UInt64.toNat_inj.1 hzero)

namespace Follows

variable {σ τ : Type} [Repository σ τ] {At : Scene → List Keyed.Tables → List String → σ → Prop}
  (F : Follows At) {s : Scene} {n k pages : Nat} {reads : List Keyed.Tables} {asked : List String}
  {x : σ} (strategy : LinkStrategy) (o : SweepOptions) (clock : Int)

include F

theorem run_sweepDeployment (hfits : s.Fits n) (hx : At s reads asked x) (tally : Tally)
    (d : Deployment) (log : List Log.Entry) : ∃ x' log',
    (sweepDeployment strategy o (.ofNanos clock) tally d).run ⟨x, clock, log⟩ =
        (.ok (tally.add [(s.next.perform (o.job strategy clock d)).1]), ⟨x', clock, log'⟩) ∧
      At (s.after (s.next.perform (o.job strategy clock d)).2) reads (asked ++ [d.id]) x' := by
  obtain ⟨x', log', hrun, hx'⟩ := F.call hfits hx (o.job strategy clock d) log
  have hattempt : (scheduleRuns strategy (o.request (.ofNanos clock) d.id)).attempt.run
      ⟨x, clock, log⟩ = _ :=
    congrArg (fun y => (Except.ok y.1, y.2)) hrun
  rw [sweepDeployment, Action.run_bind_of_ok hattempt]
  refine ⟨x', ?_⟩
  cases hresult : (s.next.perform (o.job strategy clock d)).1 with
  | ok runs =>
    have htally : tally.add [.ok runs] =
        { tally with
          deployments := tally.deployments + 1
          runsCreated := tally.runsCreated + runs.length } := by
      simp [Tally.add, returned, Except.isOk, Except.toBool, Except.toOption]
    rw [htally]
    exact ⟨log', rfl, hx'⟩
  | error e => exact ⟨_, rfl, hx'⟩

/-- The deployments of a page are scheduled one after the other. -/
theorem run_foldlM (ds : List Deployment) (hfits : s.Fits n) (hx : At s reads asked x)
    (tally : Tally) (log : List Log.Entry) : ∃ x' log',
    (ds.foldlM (sweepDeployment strategy o (.ofNanos clock)) tally).run ⟨x, clock, log⟩ =
        (.ok (tally.add (s.calls (ds.map (o.job strategy clock))).1), ⟨x', clock, log'⟩) ∧
      At (s.calls (ds.map (o.job strategy clock))).2 reads (asked ++ ds.map Deployment.id) x' := by
  induction ds generalizing s asked x tally log with
  | nil =>
    rw [List.map_nil, List.map_nil, List.append_nil]
    exact ⟨x, log, rfl, hx⟩
  | cons d ds ih =>
    obtain ⟨x₁, log₁, hrun₁, hx₁⟩ := F.run_sweepDeployment strategy o clock hfits hx tally d log
    obtain ⟨x₂, log₂, hrun₂, hx₂⟩ := ih (hfits.perform _) hx₁ _ log₁
    rw [List.foldlM_cons, Action.run_bind_of_ok hrun₁, hrun₂, Tally.add_add]
    rw [List.append_assoc] at hx₂
    exact ⟨x₂, log₂, rfl, hx₂⟩

/-- There are enough pages for the loop to come to its end. -/
theorem run_sweepPages (hn : n < UInt64.size) (hk : k * o.effectivePageSize.toNat ≤ n)
    (hpages : n < (k + pages) * o.effectivePageSize.toNat) (hfits : s.Fits n)
    (hx : At s reads asked x) (tally : Tally) (log : List Log.Entry) :
    ∃ reads' visited results s' x' log',
      Paged o.effectivePageSize.toNat (o.job strategy clock) k s reads' visited results s' ∧
        (sweepPages strategy o (.ofNanos clock) pages
            (.ofNat (k * o.effectivePageSize.toNat)) tally).run ⟨x, clock, log⟩ =
          (.ok (tally.add results), ⟨x', clock, log'⟩) ∧
        At s' (reads ++ reads') (asked ++ visited.map Deployment.id) x' := by
  have hp := o.effectivePageSize_pos
  induction pages generalizing k s reads asked x tally log with
  | zero =>
    rw [Nat.add_zero] at hpages
    omega
  | succ pages ih =>
    obtain ⟨x₁, hpage, hx₁⟩ := F.page hfits.wellFormed hx (.ofNat (k * o.effectivePageSize.toNat))
      (some o.effectivePageSize) clock log
    have hlist : s.next.listDeployments (.ofNat (k * o.effectivePageSize.toNat))
        (some o.effectivePageSize) = s.next.page o.effectivePageSize.toNat k := by
      rw [Keyed.Tables.listDeployments_eq, UInt64.toNat_ofNat_of_lt' (by omega)]
      rfl
    rw [hlist] at hpage
    obtain ⟨x₂, log₂, hcalls, hx₂⟩ := F.run_foldlM strategy o clock
      (s.next.page o.effectivePageSize.toNat k) hfits.next hx₁ tally log
    rw [sweepPages, Action.run_bind_of_ok hpage, Action.run_bind_of_ok hcalls]
    by_cases hshort : (s.next.page o.effectivePageSize.toNat k).length < o.effectivePageSize.toNat
    · rw [if_pos hshort]
      exact ⟨_, _, _, _, x₂, log₂, .last hshort rfl, rfl, hx₂⟩
    · -- deployments are left, as many as the next offset counts at least
      have hfull : (s.next.page o.effectivePageSize.toNat k).length = o.effectivePageSize.toNat :=
        Nat.le_antisymm (List.length_take_le _ _) (Nat.not_lt.1 hshort)
      have hnext : (k + 1) * o.effectivePageSize.toNat ≤ n := by
        rw [Keyed.Tables.length_page_lt_iff _ hp, Nat.not_lt] at hshort
        exact Nat.le_trans hshort (Nat.le_trans (Nat.le_add_right _ _) hfits.next.length_le)
      have hoffset : (UInt64.ofNat (k * o.effectivePageSize.toNat)) +
          UInt64.ofNat o.effectivePageSize.toNat =
            .ofNat ((k + 1) * o.effectivePageSize.toNat) := by
        rw [← UInt64.ofNat_add, Nat.succ_mul]
      obtain ⟨reads', visited, results, s', x', log', hpaged, hrun, hx'⟩ :=
        ih hnext (by rwa [Nat.add_right_comm]) (hfits.next.calls _) hx₂ _ log₂
      rw [if_neg hshort, hfull, hoffset, hrun, Tally.add_add]
      refine ⟨_, _, _, s', x', log', .more hfull rfl hpaged, rfl, ?_⟩
      simpa using hx'

/-- A sweep ends, and it has gone through the pages. -/
theorem run_sweep (ht : s.tables.WellFormed)
    (hfew : s.tables.deploymentIds.length + s.others.flatten.length < UInt64.size)
    (hx : At s [] [] x) (log : List Log.Entry) : ∃ reads visited results s' x' log',
      Paged o.effectivePageSize.toNat (o.job strategy clock) 0 s reads visited results s' ∧
        (sweep strategy o).run ⟨x, clock, log⟩ =
          (.ok (Tally.add ⟨0, 0, 0⟩ results), ⟨x', clock, log'⟩) ∧
        At s' reads (visited.map Deployment.id) x' := by
  have hread : (Action.read : Action (World σ) (World σ)).run ⟨x, clock, log⟩ =
      (.ok ⟨x, clock, log⟩, ⟨x, clock, log⟩) := rfl
  have hpages : s.tables.deploymentIds.length + s.others.flatten.length <
      (0 + Repository.pageBound x) * o.effectivePageSize.toNat := by
    rw [F.pageBound hx, Nat.zero_add]
    exact Nat.lt_of_lt_of_le (by omega) (Nat.le_mul_of_pos_right _ o.effectivePageSize_pos)
  obtain ⟨reads, visited, results, s', x', log', hpaged, hrun, hx'⟩ := F.run_sweepPages strategy o
    clock hfew (by omega) hpages ⟨ht, Nat.le_refl _⟩ hx ⟨0, 0, 0⟩ log
  rw [Nat.zero_mul] at hrun
  exact ⟨reads, visited, results, s', x', _, hpaged,
    (Action.run_bind_of_ok hread).trans ((Action.run_bind_of_ok hrun).trans rfl), hx'⟩

end Follows

/-! ### Sweeps while nobody else does anything -/

section Alone

variable {t : Keyed.Tables} {s s' : Scene} {p k : Nat} {job : Deployment → Job}
  {reads : List Keyed.Tables} {visited : List Deployment}
  {results : List (Except Failure (List FlowRun))}

theorem Scene.after_next_of_nil (hs : s.others = []) : s.after s.next = s := by
  obtain ⟨t, _⟩ := s
  obtain rfl := hs
  rfl

/-- Where others do nothing, calls are made on the ledger one after the other. -/
theorem Scene.calls_of_nil (ht : t.WellFormed) (jobs : List Job) : ∃ u : Keyed.Tables,
    (⟨t, []⟩ : Scene).calls jobs = ((replay (⟨t, false⟩ : Keyed.Ledger) jobs).1, ⟨u, []⟩) ∧
      (replay (⟨t, false⟩ : Keyed.Ledger) jobs).2 = ⟨u, false⟩ ∧ u.WellFormed ∧
      u.deployments = t.deployments := by
  induction jobs generalizing t with
  | nil => exact ⟨t, rfl, rfl, ht, rfl⟩
  | cons job jobs ih =>
    obtain ⟨u, hcalls, hreplay, hu, hdeployments⟩ := ih (ht.perform job)
    have hperform := Keyed.Ledger.perform_eq ht job
    refine ⟨u, ?_, ?_, hu, hdeployments.trans (Keyed.Tables.deployments_perform ht job)⟩
    · show ((t.perform job).1 :: ((⟨(t.perform job).2, []⟩ : Scene).calls jobs).1,
        ((⟨(t.perform job).2, []⟩ : Scene).calls jobs).2) = _
      rw [hcalls, replay, hperform]
    · rw [replay, hperform]
      exact hreplay

/-- The pages make up the list of all deployments. -/
theorem Paged.of_alone (h : Paged p job k s reads visited results s') (hp : 0 < p)
    (ht : s.tables.WellFormed) (hs : s.others = []) :
    visited = s.tables.deployments.values.drop (k * p) ∧
      reads.length = (s.tables.deploymentIds.length - k * p) / p + 1 ∧
      s.calls (visited.map job) = (results, s') := by
  induction h with
  | @last k s s' results hshort hcalls =>
    rw [Scene.after_next_of_nil hs] at hcalls
    rw [Scene.next_of_nil hs] at hcalls hshort ⊢
    have hlength : s.tables.deploymentIds.length - k * p < p := by
      rw [Keyed.Tables.length_page_lt_iff _ hp, Nat.succ_mul] at hshort
      omega
    refine ⟨List.take_of_length_le ?_, ?_, hcalls⟩
    · rw [List.length_drop, ← List.length_map (f := Deployment.id)]
      exact Nat.le_of_lt hlength
    · rw [Nat.div_eq_of_lt hlength]
      rfl
  | @more k s s' s'' reads visited results results' hfull hcalls hrest ih =>
    obtain ⟨t, _⟩ := s
    obtain rfl := hs
    obtain ⟨u, hreplay, -, hu, hdeployments⟩ :=
      Scene.calls_of_nil ht ((t.page p k).map job)
    have hcalls : (⟨t, []⟩ : Scene).calls ((t.page p k).map job) = (results, s') := hcalls
    rw [hreplay] at hcalls
    obtain ⟨rfl, rfl⟩ := Prod.mk.inj hcalls
    obtain ⟨hvisited, hreads, hrest⟩ := ih hu rfl
    -- the calls leave the deployments, so that the next page goes on where this one ends
    have hids : u.deploymentIds = t.deploymentIds := by
      rw [Keyed.Tables.deploymentIds, hdeployments, Keyed.Tables.deploymentIds]
    simp only [hdeployments, hids, Nat.succ_mul] at hvisited hreads
    have hlength : p ≤ t.deploymentIds.length - k * p := by
      have hshort : ¬ (t.page p k).length < p := hfull.symm ▸ Nat.lt_irrefl p
      rw [Keyed.Tables.length_page_lt_iff _ hp, Nat.succ_mul] at hshort
      omega
    refine ⟨?_, ?_, ?_⟩
    · rw [hvisited, ← List.drop_drop]
      exact List.take_append_drop p _
    · show reads.length + 1 = (t.deploymentIds.length - k * p) / p + 1
      rw [hreads, Nat.div_eq_sub_div hp hlength, Nat.sub_add_eq]
    · rw [List.map_append, Scene.calls_append]
      have hpage : (⟨t, []⟩ : Scene).calls (((Scene.next ⟨t, []⟩).page p k).map job) = _ := hreplay
      rw [hpage, hrest]

theorem length_replay {σ τ : Type} [Repository σ τ] (s : σ) (jobs : List Job) :
    (replay s jobs).1.length = jobs.length := by
  induction jobs generalizing s with
  | nil => rfl
  | cons job jobs ih => exact congrArg (· + 1) (ih (job.perform s).2)

/-- The calls that succeed when calls are made one after the other. -/
def succeeding {σ τ : Type} [Repository σ τ] (s : σ) (jobs : List Job) : List Job :=
  ((jobs.zip (replay s jobs).1).filter fun x => x.2.isOk).map Prod.fst

theorem succeeding_cons {σ τ : Type} [Repository σ τ] (s : σ) (job : Job) (jobs : List Job) :
    succeeding s (job :: jobs) =
      if (job.perform s).1.isOk then job :: succeeding (job.perform s).2 jobs
      else succeeding (job.perform s).2 jobs := by
  rw [succeeding, replay, List.zip_cons_cons, List.filter_cons]
  split <;> rfl

/-- A call that fails might as well not have been made. -/
theorem Keyed.Ledger.replay_succeeding (ht : t.WellFormed) (jobs : List Job) :
    (replay (⟨t, false⟩ : Keyed.Ledger) (succeeding (⟨t, false⟩ : Keyed.Ledger) jobs)).2 =
      (replay (⟨t, false⟩ : Keyed.Ledger) jobs).2 := by
  induction jobs generalizing t with
  | nil => rfl
  | cons job jobs ih =>
    have hperform := Keyed.Ledger.perform_eq ht job
    have hrest := ih (ht.perform job)
    rw [succeeding_cons]
    simp only [hperform, replay]
    split
    · simp only [hperform, replay]
      exact hrest
    · next hfails =>
      -- the call has left the tables as they were
      rcases t.perform_cases job with ⟨e, he⟩ | ⟨cs, created, -, -, hok⟩
      · rw [he] at hrest ⊢
        exact hrest
      · rw [hok] at hfails
        exact absurd rfl hfails

/-- However a ledger that nobody else uses is looked at, a sweep of it makes the calls for all
deployments, and reads one page more than they fill. -/
theorem Follows.run_sweep_alone {σ τ : Type} [Repository σ τ]
    {At : Scene → List Keyed.Tables → List String → σ → Prop} (F : Follows At) {x : σ}
    (ht : t.WellFormed) (hfew : t.deploymentIds.length < UInt64.size) (hx : At ⟨t, []⟩ [] [] x)
    (strategy : LinkStrategy) (o : SweepOptions) (clock : Int) (log : List Log.Entry)
    {results : List (Except Failure (List FlowRun))} {u : Keyed.Tables}
    (hreplay : replay (⟨t, false⟩ : Keyed.Ledger) (t.deployments.values.map (o.job strategy clock)) =
      (results, ⟨u, false⟩)) : ∃ x' log' reads,
    (sweep strategy o).run ⟨x, clock, log⟩ =
        (.ok (Tally.add ⟨0, 0, 0⟩ results), ⟨x', clock, log'⟩) ∧
      At ⟨u, []⟩ reads t.deploymentIds x' ∧
      reads.length = t.deploymentIds.length / o.effectivePageSize.toNat + 1 := by
  have hfits : t.deploymentIds.length + ([] : List (List Visit)).flatten.length < UInt64.size := hfew
  obtain ⟨reads, visited, results', s', x', log', hpaged, hrun, hx'⟩ :=
    F.run_sweep (s := ⟨t, []⟩) strategy o clock ht hfits hx log
  obtain ⟨hvisited, hreads, hcalls⟩ := hpaged.of_alone o.effectivePageSize_pos ht rfl
  rw [Nat.zero_mul] at hvisited hreads
  have hvisited : visited = t.deployments.values := hvisited
  obtain ⟨u', hcalls', hreplay', -⟩ :=
    Scene.calls_of_nil ht (t.deployments.values.map (o.job strategy clock))
  rw [hvisited] at hcalls hx'
  obtain ⟨rfl, rfl⟩ := Prod.mk.inj (hcalls'.symm.trans hcalls)
  rw [hreplay] at hreplay' hrun
  cases hreplay'
  exact ⟨x', log', reads, hrun, hx', hreads⟩

/-- A sweep that is alone with its ledger calls for each deployment once, in the order of their ids,
and reads one page more than the deployments fill. What it leaves and reports is what these calls
leave and return, and those that fail count for nothing else; it is the same for every page size.
Places are words, and so a ledger has no more deployments than there are words. -/
theorem sweep_serves_each_once (ht : t.WellFormed) (hfew : t.deploymentIds.length < UInt64.size)
    (strategy : LinkStrategy) (o : SweepOptions) (clock : Int) : ∃ jobs results after,
    jobs = t.deployments.values.map (o.job strategy clock) ∧
      replay (⟨t, false⟩ : Keyed.Ledger) jobs = (results, after) ∧
      (replay (⟨t, false⟩ : Keyed.Ledger) (succeeding (⟨t, false⟩ : Keyed.Ledger) jobs)).2 = after ∧
      t.deploymentIds.Pairwise (· < ·) ∧
      ∀ (pageSize : UInt64) (log : List Log.Entry), ∃ log' log'' reads,
        (sweep strategy { o with pageSize }).run ⟨(⟨t, false⟩ : Keyed.Ledger), clock, log⟩ =
            (.ok ⟨t.deploymentIds.length, results.countP fun r => !r.isOk, (returned results).length⟩,
              ⟨after, clock, log'⟩) ∧
          (sweep strategy { o with pageSize }).run
              ⟨Shared.fresh (⟨t, false⟩ : Keyed.Ledger) [], clock, log⟩ =
            (.ok ⟨t.deploymentIds.length, results.countP fun r => !r.isOk, (returned results).length⟩,
              ⟨⟨after, [], reads, t.deploymentIds⟩, clock, log''⟩) ∧
          reads.length = t.deploymentIds.length /
            ({ o with pageSize } : SweepOptions).effectivePageSize.toNat + 1 := by
  obtain ⟨u, -, hleft, -⟩ :=
    Scene.calls_of_nil ht (t.deployments.values.map (o.job strategy clock))
  have hlength := length_replay (⟨t, false⟩ : Keyed.Ledger)
    (t.deployments.values.map (o.job strategy clock))
  rw [List.length_map, ← List.length_map (f := Deployment.id)] at hlength
  rcases hreplay : replay (⟨t, false⟩ : Keyed.Ledger)
    (t.deployments.values.map (o.job strategy clock)) with ⟨results, after⟩
  rw [hreplay] at hleft hlength
  obtain rfl : after = ⟨u, false⟩ := hleft
  refine ⟨_, results, _, rfl, hreplay, ?_, ht.ascending_deploymentIds, fun pageSize log => ?_⟩
  · rw [Keyed.Ledger.replay_succeeding ht, hreplay]
  have htally : Tally.add ⟨0, 0, 0⟩ results =
      ⟨t.deploymentIds.length, results.countP fun r => !r.isOk, (returned results).length⟩ := by
    rw [Tally.add, Nat.zero_add, Nat.zero_add, Nat.zero_add, hlength, Keyed.Tables.deploymentIds]
  obtain ⟨_, log', _, hrun, ⟨-, rfl⟩, -⟩ := Keyed.Ledger.follows.run_sweep_alone ht hfew
    ⟨rfl, rfl⟩ strategy { o with pageSize } clock log hreplay
  obtain ⟨_, log'', reads, hrun', rfl, hreads⟩ := Shared.follows.run_sweep_alone
    (x := Shared.fresh ⟨t, false⟩ []) ht hfew rfl strategy { o with pageSize } clock log hreplay
  rw [htally] at hrun hrun'
  refine ⟨log', log'', _, hrun, hrun', ?_⟩
  rw [List.length_map]
  exact hreads

end Alone

/-- A deployment whose only schedule has an interval that is too long. -/
def brokenDeployment : Deployment := ⟨"broken", "broken", "flow", 0⟩

/-- That schedule. -/
def endless : Schedule := ⟨"endless", "broken", 9223372036854776, ⟨0⟩, "\x7b\x7d", 0⟩

/-- Tables with that deployment and the one that is scheduled every hour. -/
def mixedTables : Keyed.Tables :=
  { hourlyTables with
    deployments := .insert hourlyTables.deployments brokenDeployment.id brokenDeployment
    names := .insert hourlyTables.names brokenDeployment.name ()
    schedules := .insert hourlyTables.schedules endless.id endless }

theorem wellFormed_mixedTables : mixedTables.WellFormed := by
  have hdeployments : Keyed.Tables.WellFormed _ :=
    wellFormed_hourlyTables.insertDeployment (d := brokenDeployment) rfl
  exact hdeployments.insertSchedule (s := endless) rfl

/-- What the sweep asks of that deployment fails, and nothing changes. -/
theorem perform_broken :
    mixedTables.perform (SweepOptions.job ⟨1, none, some 0⟩ .updateJoin 0 brokenDeployment) =
      (.error (.invalidInterval "endless"), mixedTables) := by
  have hfilter : mixedTables.schedules.values.filter (·.deploymentId == "broken") = [endless] := by
    decide
  have hlist : mixedTables.listSchedules "broken" = [endless] := by
    rw [Keyed.Tables.listSchedules, hfilter]
    exact List.mergeSort_singleton endless
  have hfind : mixedTables.deployments.get? "broken" = some brokenDeployment := by decide
  simp only [Keyed.Tables.perform, Keyed.Tables.generate, SweepOptions.job, SweepOptions.request,
    show brokenDeployment.id = "broken" from rfl, hfind, hlist]
  rfl

/-- What it asks of the other deployment is the first hour. -/
theorem perform_known :
    mixedTables.perform (SweepOptions.job ⟨1, none, some 0⟩ .updateJoin 0 plainDeployment) =
      (.ok [midnight.linkedRun], (mixedTables.materialize .updateJoin [midnight]).2) := by
  have hfilter : mixedTables.schedules.values.filter (·.deploymentId == "known") = [hourly] := by
    decide
  have hlist : mixedTables.listSchedules "known" = [hourly] := by
    rw [Keyed.Tables.listSchedules, hfilter]
    exact List.mergeSort_singleton hourly
  have hgenerate : mixedTables.generate firstHour ⟨0⟩ = .ok [midnight] := by
    have hfind : mixedTables.deployments.get? "known" = some plainDeployment := by decide
    rw [Keyed.Tables.generate, firstHour, hfind, hlist]
    exact ofSchedules_firstHour
  have hmade : (mixedTables.materialize .updateJoin [midnight]).1 = .ok [midnight.linkedRun] := by
    decide +kernel
  show mixedTables.perform ⟨.updateJoin, firstHour, 0⟩ = _
  exact Keyed.Tables.perform_of_ok hgenerate hmade

/-- Two deployments on pages of one each make three pages, the last of which is empty. The call for
the first deployment fails, and that for the second one makes a run. -/
theorem sweep_serves_each_once_pair : ∃ w,
    (sweep .updateJoin ⟨1, none, some 0⟩).run
        ⟨Shared.fresh (⟨mixedTables, false⟩ : Keyed.Ledger) [], 0, []⟩ = (.ok ⟨2, 1, 1⟩, w) ∧
      w.store.asked = ["broken", "known"] ∧ w.store.reads.length = 3 ∧
      w.store.store.committed.runs.values = [midnight.linkedRun] := by
  obtain ⟨jobs, results, after, hjobs, hreplay, -, -, hsweep⟩ := sweep_serves_each_once
    wellFormed_mixedTables (by decide) .updateJoin ⟨1, none, some 0⟩ 0
  obtain ⟨log', log'', reads, -, hrun, hreads⟩ := hsweep 1 []
  have hbroken := Keyed.Ledger.perform_eq wellFormed_mixedTables
    (SweepOptions.job ⟨1, none, some 0⟩ .updateJoin 0 brokenDeployment)
  have hknown := Keyed.Ledger.perform_eq wellFormed_mixedTables
    (SweepOptions.job ⟨1, none, some 0⟩ .updateJoin 0 plainDeployment)
  rw [perform_broken] at hbroken
  rw [perform_known] at hknown
  have hvalues : mixedTables.deployments.values = [brokenDeployment, plainDeployment] := rfl
  rw [hjobs, hvalues, List.map_cons, List.map_singleton, replay, replay, replay, hbroken, hknown]
    at hreplay
  obtain ⟨rfl, rfl⟩ := Prod.mk.inj hreplay
  have hruns : (mixedTables.materialize .updateJoin [midnight]).2.runs.values =
      [midnight.linkedRun] := by decide +kernel
  exact ⟨_, hrun, rfl, hreads, hruns⟩

end Timetable
