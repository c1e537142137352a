import Mathlib.Logic.Function.Basic
import Timetable.Proofs.Keys
import Timetable.Proofs.Packed
import Timetable.Proofs.Service

/-!
# Clients that schedule runs at the same time

Any number of clients share a store, and each makes one call after the other: it begins a transaction
as soon as the store lets it, generates candidates, stores them and commits, or gives up on the way.
Whatever the order of their steps, it is as if the calls that succeeded had been made alone, in the
order in which they were committed, and every run has been returned by one of them:
`each_run_created_once`. At any time at most one transaction sees more than what has been committed
(`Backend.Lock`), and what it sees is what its call would see alone (`Stage.Sees`).
-/

namespace Timetable

/-- A call that schedules runs, and what the clock reads then. -/
structure Job where
  strategy : LinkStrategy
  request : Request
  clock : Int

namespace Job

/-- The time of a call. -/
def now (job : Job) : Instant := .ofNanos job.clock

/-- Makes a call while nobody else does anything. -/
def perform [Repository σ τ] (job : Job) (s : σ) : Except Failure (List FlowRun) × σ :=
  let r := (scheduleRuns job.strategy job.request).run ⟨s, job.clock, []⟩
  (r.1, r.2.store)

end Job

/-- Makes calls one after the other. -/
def replay [Repository σ τ] (s : σ) : List Job → List (Except Failure (List FlowRun)) × σ
  | [] => ([], s)
  | job :: jobs =>
    let r := job.perform s
    let rest := replay r.2 jobs
    (r.1 :: rest.1, rest.2)

theorem replay_concat [Repository σ τ] (s : σ) (jobs : List Job) (job : Job) :
    replay s (jobs ++ [job]) =
      ((replay s jobs).1 ++ [(job.perform (replay s jobs).2).1],
        (job.perform (replay s jobs).2).2) := by
  induction jobs generalizing s with
  | nil => rfl
  | cons first jobs ih =>
    show ((first.perform s).1 :: (replay (first.perform s).2 (jobs ++ [job])).1,
      (replay (first.perform s).2 (jobs ++ [job])).2) = _
    rw [ih]
    rfl

/-! ### Steps -/

/-- A call that has succeeded, and the runs that it returned. -/
structure Report where
  job : Job
  created : List FlowRun

/-- How far a call has got with its transaction. -/
inductive Stage
  | begun
  | generated (candidates : List Candidate)
  | stored (created : List FlowRun)
  | ended

/-- What a call does next in its transaction, and what it reports then. -/
def Stage.next [Repository σ τ] (job : Job) : Stage → Action (σ × τ) (Stage × List Report)
  | begun => do
    let candidates ← job.request.generate job.now
    return (generated candidates, [])
  | generated candidates => do
    let created ← materialize job.strategy candidates
    return (stored created, [])
  | stored created => do
    Repository.commit
    return (ended, [⟨job, created⟩])
  | ended => return (ended, [])

/-- A call that is being made. -/
structure Attempt (τ : Type) where
  job : Job
  tx : τ
  stage : Stage

/-- A store and the clients that use it. -/
structure Arena (σ τ ι : Type) where
  store : σ
  attempts : ι → Option (Attempt τ)
  /-- The calls that have succeeded, in the order in which they were committed. -/
  reports : List Report

/-- A store that nobody uses yet. -/
def Arena.opening (s : σ) : Arena σ τ ι := ⟨s, fun _ => none, []⟩

namespace Arena

variable {σ τ ι : Type} [Repository σ τ] [DecidableEq ι]

/-- One client does one thing: it begins a transaction if the store lets it, goes on with its call,
fails at that, or leaves, for which its transaction is released. -/
inductive Step (a : Arena σ τ ι) : Arena σ τ ι → Prop
  | start {i s tx} (job : Job) (hidle : a.attempts i = none)
      (hrun : (Repository.begin : Action σ τ).run a.store = (.ok tx, s)) :
      Step a ⟨s, Function.update a.attempts i (some ⟨job, tx, .begun⟩), a.reports⟩
  | proceed {i v stage reports s tx} (hv : a.attempts i = some v)
      (hrun : (v.stage.next v.job).run (a.store, v.tx) = (.ok (stage, reports), s, tx)) :
      Step a ⟨s, Function.update a.attempts i (some ⟨v.job, tx, stage⟩), a.reports ++ reports⟩
  | fail {i v e s tx} (hv : a.attempts i = some v)
      (hrun : (v.stage.next v.job).run (a.store, v.tx) = (.error e, s, tx)) :
      Step a ⟨s, Function.update a.attempts i (some ⟨v.job, tx, .ended⟩), a.reports⟩
  | leave {i v} (hv : a.attempts i = some v) :
      Step a ⟨(Repository.release (a.store, v.tx)).2, Function.update a.attempts i none, a.reports⟩

/-- What a store and its clients may come to. -/
inductive Reachable (s : σ) : Arena σ τ ι → Prop
  | opening : Reachable s (.opening s)
  | step {a b} (h : Reachable s a) (hstep : Step a b) : Reachable s b

end Arena

/-- The calls that succeeded did what they would have done alone, one after the other, and each
stored run has been returned by one of them. -/
structure Arena.Serial [Repository σ τ] (start : σ) (committed : σ → κ) (runs : κ → List FlowRun)
    (a : Arena σ τ ι) : Prop where
  results : (replay start (a.reports.map Report.job)).1 = a.reports.map fun p => .ok p.created
  committed_eq : committed a.store = committed (replay start (a.reports.map Report.job)).2
  store_eq : (∀ i, a.attempts i = none) → a.store = (replay start (a.reports.map Report.job)).2
  disjoint : a.reports.Pairwise fun p q => ∀ r ∈ p.created, ∀ r' ∈ q.created, r.id ≠ r'.id
  nodup_ids : ((a.reports.flatMap Report.created).map FlowRun.id).Nodup
  perm_runs : (a.reports.flatMap Report.created).Perm (runs (committed a.store))

/-! ### What stays true -/

section Invariant

variable {σ τ κ ι : Type} [Repository σ τ] (B : Backend σ κ) {job : Job} {c c₀ w : κ}
  {stage : Stage} {reports : List Report} {a b : Arena σ τ ι} {i : ι}

/-- What the work of a call leaves when nobody else does anything, and what it returns. -/
structure Done (job : Job) (c : κ) (created : List FlowRun) (w : κ) : Prop where
  run_eq : ∃ n, (schedulingWork job.strategy job.request job.now).run (B.busy c c) =
    (.ok (n, created), B.busy c w)
  grown : B.Grown c created w

/-- What the transaction of a call sees at a stage, over committed contents. -/
def Stage.Sees (job : Job) (c w : κ) : Stage → Prop
  | begun => w = c
  | generated candidates => w = c ∧
    (job.request.generate job.now).run (B.busy c c) = (.ok candidates, B.busy c c)
  | stored created => Done B job c created w
  | ended => True

/-- A transaction that has ended and that nobody will notice when it is released. -/
structure Attempt.Spent (σ : Type) {τ : Type} [Repository σ τ] (v : Attempt τ) : Prop where
  stage_eq : v.stage = .ended
  release_eq : ∀ s : σ, Repository.release (s, v.tx) = ([], s)

namespace Backend

variable {B}

/-- What a call does next in its transaction: it commits what it would have done alone, or it fails,
or it gets to a next stage. -/
theorem run_next (hc : B.Healthy c) (hsees : stage.Sees B job c w) :
    (∃ created tx, (stage.next job).run (B.busy c w) =
        (.ok (.ended, [⟨job, created⟩]), B.resting w, tx) ∧
        (∀ s : σ, Repository.release (s, tx) = ([], s)) ∧ Done B job c created w) ∨
      (∃ e w', (stage.next job).run (B.busy c w) = (.error e, B.busy c w')) ∨
      ∃ stage' w', (stage.next job).run (B.busy c w) = (.ok (stage', []), B.busy c w') ∧
        stage'.Sees B job c w' := by
  cases stage with
  | begun =>
    obtain rfl : w = c := hsees
    obtain ⟨t, ht⟩ := hc.shows
    obtain ⟨x, hgenerate, -⟩ := B.run_generate w job.request job.now ht
    rw [Stage.next]
    cases x with
    | error e => exact .inr (.inl ⟨e, w, Action.run_bind_of_error hgenerate⟩)
    | ok candidates =>
      rw [Action.run_bind_of_ok hgenerate]
      exact .inr (.inr ⟨.generated candidates, w, rfl, rfl, hgenerate⟩)
  | generated candidates =>
    obtain ⟨rfl, hgenerate⟩ := hsees
    obtain ⟨t, ht⟩ := hc.shows
    -- the candidates are those that it would generate now, since nobody has changed what it sees
    obtain ⟨x, hrun, hgenuine⟩ := B.run_generate w job.request job.now ht
    have hx : x = .ok candidates := congrArg Prod.fst (hrun.symm.trans hgenerate)
    obtain ⟨x, w', hmaterialize, hadded⟩ :=
      hc.run_materialize w job.strategy (hgenuine candidates hx)
    rw [Stage.next]
    cases x with
    | error e => exact .inr (.inl ⟨e, w', Action.run_bind_of_error hmaterialize⟩)
    | ok created =>
      rw [Action.run_bind_of_ok hmaterialize]
      refine .inr (.inr ⟨.stored created, w', rfl, ⟨candidates.length, ?_⟩,
        (hadded created rfl).toGrown⟩)
      rw [schedulingWork, Action.run_bind_of_ok hgenerate, Action.run_bind_of_ok hmaterialize]
      rfl
  | stored created =>
    obtain ⟨tx, hcommit, hrelease⟩ := B.run_commit_busy c w
    rw [Stage.next, Action.run_bind_of_ok hcommit]
    exact .inl ⟨created, tx, rfl, hrelease, hsees⟩
  | ended => exact .inr (.inr ⟨.ended, w, rfl, trivial⟩)

variable (B)

/-- Contents are those that the reported calls leave when they are made alone. -/
structure Serves (c₀ : κ) (reports : List Report) (c : κ) : Prop where
  healthy : B.Healthy c
  replay_eq : replay (B.resting c₀) (reports.map Report.job) =
    (reports.map fun p => .ok p.created, B.resting c)
  perm_runs : (B.runs c).Perm (B.runs c₀ ++ reports.flatMap Report.created)

/-- Either all transactions have ended, or all but the one that holds the lock. -/
inductive Lock (c : κ) (a : Arena σ τ ι) : Prop
  | free (hstore : a.store = B.resting c)
      (hspent : ∀ j v, a.attempts j = some v → v.Spent σ)
  | held {i v w} (hv : a.attempts i = some v) (hbusy : (a.store, v.tx) = B.busy c w)
      (hsees : v.stage.Sees B v.job c w)
      (hspent : ∀ j v, j ≠ i → a.attempts j = some v → v.Spent σ)

variable {B}

theorem Serves.nil (h : B.Healthy c) : B.Serves c [] c := by
  refine ⟨h, rfl, ?_⟩
  rw [List.flatMap_nil, List.append_nil]

/-- What has been committed last has been done alone. -/
theorem Serves.concat (h : B.Serves c₀ reports c) {created : List FlowRun}
    (hdone : Done B job c created w) : B.Serves c₀ (reports ++ [⟨job, created⟩]) w where
  healthy := hdone.grown.healthy
  replay_eq := by
    obtain ⟨n, hwork⟩ := hdone.run_eq
    obtain ⟨log, hrun⟩ : ∃ log, (scheduleRuns job.strategy job.request).run
      ⟨B.resting c, job.clock, []⟩ = (.ok created, ⟨B.resting w, job.clock, log⟩) :=
      B.run_scheduleRuns_of_ok hwork
    have hperform : job.perform (B.resting c) = (.ok created, B.resting w) := by
      rw [Job.perform, hrun]
    rw [List.map_append, List.map_singleton, replay_concat, h.replay_eq, hperform, List.map_append,
      List.map_singleton]
  perm_runs := by
    have hperm := hdone.grown.perm_runs.trans (h.perm_runs.append_right created)
    rw [List.flatMap_append, List.flatMap_singleton, ← List.append_assoc]
    exact hperm

/-- A call that has ended does and reports nothing more. -/
theorem run_next_of_spent {v : Attempt τ} (h : v.Spent σ) (s : σ) :
    (v.stage.next v.job).run (s, v.tx) = (.ok (.ended, []), s, v.tx) := by
  rw [h.stage_eq]
  rfl

/-- A client either has a transaction that has ended, or the one that holds the lock. -/
theorem Lock.spent_or_held (h : B.Lock c a) {v : Attempt τ} (hv : a.attempts i = some v) :
    v.Spent σ ∨ ∃ w, (a.store, v.tx) = B.busy c w ∧ v.stage.Sees B v.job c w ∧
      ∀ j v, j ≠ i → a.attempts j = some v → v.Spent σ := by
  cases h with
  | free hstore hspent => exact .inl (hspent i v hv)
  | @held k v' w hk hbusy hsees hspent =>
    by_cases hik : i = k
    · subst hik
      obtain rfl : v = v' := Option.some.inj (hv.symm.trans hk)
      exact .inr ⟨w, hbusy, hsees, hspent⟩
    · exact .inl (hspent i v hik hv)

section Update

variable [DecidableEq ι]

/-- A transaction that has ended, or none, takes the place of one. -/
theorem spent_update {o : Option (Attempt τ)} (ho : ∀ v, o = some v → v.Spent σ) {j : ι}
    (hother : ∀ v, j ≠ i → a.attempts j = some v → v.Spent σ) {v : Attempt τ}
    (hv : Function.update a.attempts i o j = some v) : v.Spent σ := by
  by_cases hj : j = i
  · subst hj
    rw [Function.update_self] at hv
    exact ho v hv
  · rw [Function.update_of_ne hj] at hv
    exact hother v hj hv

/-- The lock goes to, or stays with, the client whose attempt is replaced. -/
theorem Lock.of_update {v : Attempt τ} {s : σ}
    (hothers : ∀ j v, j ≠ i → a.attempts j = some v → v.Spent σ)
    (hbusy : (s, v.tx) = B.busy c w) (hsees : v.stage.Sees B v.job c w) :
    B.Lock c (⟨s, Function.update a.attempts i (some v), reports⟩ : Arena σ τ ι) := by
  refine .held (Function.update_self i _ _) hbusy hsees fun j v' hj hv' => ?_
  have hv' : Function.update a.attempts i (some v) j = some v' := hv'
  rw [Function.update_of_ne hj] at hv'
  exact hothers j v' hj hv'

/-- When a client leaves, its transaction is undone if it is the one that holds the lock. -/
theorem Lock.leave (h : B.Lock c a) {v : Attempt τ} (hv : a.attempts i = some v) :
    B.Lock c (⟨(Repository.release (a.store, v.tx)).2, Function.update a.attempts i none,
      a.reports⟩ : Arena σ τ ι) := by
  cases h with
  | free hstore hall =>
    rw [(hall i v hv).release_eq]
    exact .free hstore fun j v hv => spent_update (by simp) (fun v _ => hall j v) hv
  | @held k v' w hk hbusy hsees hothers =>
    by_cases hki : k = i
    · -- its transaction is open, so it is rolled back
      subst hki
      obtain rfl : v = v' := Option.some.inj (hv.symm.trans hk)
      rw [hbusy, B.release_busy]
      exact .free rfl fun j v hv => spent_update (by simp) (hothers j) hv
    · have hk' : Function.update a.attempts i none k = some v' := by
        rw [Function.update_of_ne hki, hk]
      rw [(hothers i v (Ne.symm hki) hv).release_eq]
      exact .held hk' hbusy hsees fun j v hj hv =>
        spent_update (by simp) (fun v _ => hothers j v hj) hv

/-- Only a store at rest lets a client begin a transaction. -/
theorem Lock.start (h : B.Lock c a) {s : σ} {tx : τ}
    (hrun : (Repository.begin : Action σ τ).run a.store = (.ok tx, s)) :
    B.Lock c (⟨s, Function.update a.attempts i (some ⟨job, tx, .begun⟩), a.reports⟩ :
      Arena σ τ ι) := by
  cases h with
  | free hstore hall =>
    rw [hstore, B.run_begin_resting] at hrun
    obtain ⟨htx, rfl⟩ := Prod.mk.inj hrun
    obtain rfl := Except.ok.inj htx
    exact .of_update (fun j v _ => hall j v) rfl rfl
  | held hk hbusy hsees hothers =>
    -- a store that is busy refuses
    have hstore : a.store = _ := congrArg Prod.fst hbusy
    rw [hstore, B.run_begin_busy] at hrun
    cases hrun

/-- A client that goes on either commits what it has done alone, or only its own transaction
changes. -/
theorem Lock.proceed (h : B.Lock c a) (hc : B.Serves c₀ a.reports c) {v : Attempt τ} {s : σ} {tx : τ}
    (hv : a.attempts i = some v)
    (hrun : (v.stage.next v.job).run (a.store, v.tx) = (.ok (stage, reports), s, tx)) :
    ∃ c', B.Serves c₀ (a.reports ++ reports) c' ∧
      B.Lock c' (⟨s, Function.update a.attempts i (some ⟨v.job, tx, stage⟩), a.reports ++ reports⟩ :
        Arena σ τ ι) := by
  rcases h.spent_or_held hv with hspent | ⟨w, hbusy, hsees, hothers⟩
  · -- it has ended already, so nothing happens
    rw [run_next_of_spent hspent] at hrun
    cases hrun
    have hsame : Function.update a.attempts i (some ⟨v.job, v.tx, .ended⟩) = a.attempts := by
      rw [Function.update_eq_self_iff, hv, ← hspent.stage_eq]
    rw [List.append_nil, hsame]
    exact ⟨c, hc, h⟩
  rw [hbusy] at hrun
  rcases run_next hc.healthy hsees with
    ⟨created, tx', hnext, hrelease, hdone⟩ | ⟨e, w', hnext⟩ | ⟨stage', w', hnext, hsees'⟩
  · -- it commits, which is when it is reported and gives the lock back
    rw [hnext] at hrun
    cases hrun
    refine ⟨w, hc.concat hdone, .free rfl fun j v hv => spent_update ?_ (hothers j) hv⟩
    rintro _ ⟨⟩
    exact ⟨rfl, hrelease⟩
  · rw [hnext] at hrun
    cases hrun
  · rw [hnext] at hrun
    obtain ⟨hpair, hshape⟩ := Prod.mk.inj hrun
    cases hpair
    rw [List.append_nil]
    exact ⟨c, hc, .of_update hothers hshape.symm hsees'⟩

/-- A client that fails keeps the lock until it leaves. -/
theorem Lock.fail (h : B.Lock c a) (hc : B.Healthy c) {v : Attempt τ} {e : Failure} {s : σ} {tx : τ}
    (hv : a.attempts i = some v)
    (hrun : (v.stage.next v.job).run (a.store, v.tx) = (.error e, s, tx)) :
    B.Lock c (⟨s, Function.update a.attempts i (some ⟨v.job, tx, .ended⟩), a.reports⟩ :
      Arena σ τ ι) := by
  rcases h.spent_or_held hv with hspent | ⟨w, hbusy, hsees, hothers⟩
  · rw [run_next_of_spent hspent] at hrun
    cases hrun
  rw [hbusy] at hrun
  rcases run_next hc hsees with
    ⟨created, tx', hnext, -, -⟩ | ⟨e', w', hnext⟩ | ⟨stage', w', hnext, -⟩
  · rw [hnext] at hrun
    cases hrun
  · rw [hnext] at hrun
    obtain ⟨-, hshape⟩ := Prod.mk.inj hrun
    exact .of_update hothers hshape.symm trivial
  · rw [hnext] at hrun
    cases hrun

/-- After a step the reported calls still account for all contents, and at most one client holds the
lock. -/
theorem Lock.step (hlock : B.Lock c a) (hc : B.Serves c₀ a.reports c) (h : a.Step b) :
    ∃ c', B.Serves c₀ b.reports c' ∧ B.Lock c' b := by
  cases h with
  | start job hidle hrun => exact ⟨c, hc, hlock.start hrun⟩
  | proceed hv hrun => exact hlock.proceed hc hv hrun
  | fail hv hrun => exact ⟨c, hc, hlock.fail hc.healthy hv hrun⟩
  | leave hv => exact ⟨c, hc, hlock.leave hv⟩

/-- However clients take their steps, the reported calls account for all contents. -/
theorem exists_serves (hc : B.Healthy c) (h : Arena.Reachable (B.resting c) a) :
    ∃ c', B.Serves c a.reports c' ∧ B.Lock c' a := by
  -- contents at rest are the same from one step to the next unless a call commits
  induction h with
  | opening => exact ⟨c, .nil hc, .free rfl (by simp [Arena.opening])⟩
  | step _ hstep ih =>
    obtain ⟨c', hserves, hlock⟩ := ih
    exact hlock.step hserves hstep

end Update

theorem Lock.committed_eq (h : B.Lock c a) {committed : σ → κ}
    (hresting : ∀ c, committed (B.resting c) = c)
    (hbusy : ∀ c w, committed (B.busy c w).1 = c) : committed a.store = c := by
  cases h with
  | free hstore hall => rw [hstore, hresting]
  | held hv hheld hsees hothers =>
    have hstore : a.store = _ := congrArg Prod.fst hheld
    rw [hstore, hbusy]

theorem Lock.store_eq (h : B.Lock c a) (hidle : ∀ i, a.attempts i = none) :
    a.store = B.resting c := by
  cases h with
  | free hstore hall => exact hstore
  | @held i v w hv hbusy hsees hothers => simp [hidle i] at hv

/-- The runs of healthy contents have ids of their own. -/
theorem Healthy.nodup_ids (h : B.Healthy c) : ((B.runs c).map FlowRun.id).Nodup := by
  obtain ⟨t, ht⟩ := h.shows
  exact ((B.perm_runs ht).map FlowRun.id).nodup_iff.1 (B.wellFormed ht).holds_runs.nodup

/-- Over contents without runs, whatever clients come to is serial. -/
theorem Healthy.serial [DecidableEq ι] (hc : B.Healthy c) (hnil : B.runs c = []) {committed : σ → κ}
    (hresting : ∀ c, committed (B.resting c) = c) (hbusy : ∀ c w, committed (B.busy c w).1 = c)
    (h : Arena.Reachable (B.resting c) a) : a.Serial (B.resting c) committed B.runs := by
  obtain ⟨c', hserves, hlock⟩ := exists_serves hc h
  have hperm : (B.runs c').Perm (a.reports.flatMap Report.created) := by
    have hperm := hserves.perm_runs
    rw [hnil, List.nil_append] at hperm
    exact hperm
  have hids : ((a.reports.flatMap Report.created).map FlowRun.id).Nodup :=
    (hperm.map FlowRun.id).nodup_iff.1 hserves.healthy.nodup_ids
  have hcommitted := hlock.committed_eq hresting hbusy
  refine ⟨?_, ?_, fun hidle => ?_, ?_, hids, ?_⟩
  · rw [hserves.replay_eq]
  · rw [hserves.replay_eq, hcommitted, hresting]
  · rw [hserves.replay_eq, hlock.store_eq hidle]
  · rw [List.map_flatMap, List.nodup_flatMap] at hids
    refine hids.2.imp fun {p q} hdisjoint r hr r' hr' e => ?_
    exact hdisjoint (List.mem_map_of_mem hr) (e ▸ List.mem_map_of_mem hr')
  · rw [hcommitted]
    exact hperm.symm

end Backend

end Invariant

/-- From a store without runs on, clients that schedule runs at the same time do what they would do
one after the other, and each stored run is returned by exactly one call. -/
theorem each_run_created_once (ι : Type) [DecidableEq ι] :
    (∀ t : Keyed.Tables, t.WellFormed → t.runs.values = [] →
      ∀ a : Arena Keyed.Ledger Keyed.Transaction ι, Arena.Reachable ⟨t, false⟩ a →
        a.Serial ⟨t, false⟩ (·.committed) (·.runs.values)) ∧
    ∀ (v : Relational.Version) (w : Relational.Tables), w.Kept → w.runRows = [] →
      ∀ a : Arena Relational.Database Relational.Transaction ι,
        Arena.Reachable ⟨⟨w, false⟩, .fresh, .fresh, false, v⟩ a →
          a.Serial ⟨⟨w, false⟩, .fresh, .fresh, false, v⟩ (·.file.tables) (·.runRows) := by
  constructor
  · intro t ht hruns a ha
    have hc : Keyed.Ledger.backend.Healthy t := Backend.healthy_of_runs_eq_nil ⟨rfl, ht⟩ hruns
    exact hc.serial hruns (fun _ => rfl) (fun _ _ => rfl) ha
  · intro v w hw hruns a ha
    have hc : (Relational.Database.backend v).Healthy w :=
      Backend.healthy_of_runs_eq_nil (hw.shows hruns) hruns
    exact hc.serial hruns (fun _ => rfl) (fun _ _ => rfl) ha

/-- A call that schedules a deployment. -/
def plainJob (deploymentId : String) : Job :=
  ⟨.updateJoin, ⟨deploymentId, none, none, none⟩, 0⟩

/-- A deployment that has no schedules. -/
def plainDeployment : Deployment := ⟨"known", "plain", "flow", 0⟩

/-- Tables with that deployment and nothing else. -/
def plainTables : Keyed.Tables :=
  { Keyed.Tables.empty with
    deployments := .insert .empty plainDeployment.id plainDeployment
    names := .insert .empty plainDeployment.name () }

/-- Rows with that deployment and nothing else. -/
def plainRows : Relational.Tables :=
  { Relational.Tables.empty with deployments := some [plainDeployment] }

/-- A schedule for every hour from the start of 1970 on. -/
def hourly : Schedule := ⟨"hourly", "known", 3600, ⟨0⟩, "\x7b\x7d", 0⟩

/-- The hours from the start of 1970 on, and those before. -/
def hours : Grid := ⟨⟨0⟩, 3600000, by decide⟩

theorem grid_hourly : hourly.grid = .ok hours := rfl

/-- The tables with the deployment and its schedule. -/
def hourlyTables : Keyed.Tables :=
  { plainTables with schedules := .insert .empty hourly.id hourly }

/-- The rows with the deployment and its schedule. -/
def hourlyRows : Relational.Tables := { plainRows with schedules := some [hourly] }

theorem wellFormed_plainTables : plainTables.WellFormed :=
  Keyed.Tables.wellFormed_empty.insertDeployment (d := plainDeployment) rfl

theorem wellFormed_hourlyTables : hourlyTables.WellFormed :=
  wellFormed_plainTables.insertSchedule (s := hourly) rfl

/-- Asks for the first hour. -/
def firstHour : Request := ⟨"known", some ⟨0⟩, some ⟨0⟩, none⟩

/-- Asks for the first two hours. -/
def firstHours : Request := ⟨"known", some ⟨0⟩, some ⟨3600000⟩, none⟩

/-- The candidate for an hour, with the ids of its run and of its state. -/
def hourlyCandidate (t : Instant) (runId stateId : String) : Candidate where
  run := {
    id := runId, flowId := plainDeployment.flowId, deploymentId := plainDeployment.id
    parameters := hourly.parameters, idempotencyKey := Occurrence.idempotencyKey hourly.id t
    tags := Occurrence.tags, scheduleId := hourly.id, autoScheduled := true
    stateId := none, createdAt := 0 }
  state := {
    id := stateId, runId, kind := RunState.scheduled, message := Occurrence.scheduledMessage
    details := (Occurrence.details hourly.id t).toOption.getD "", createdAt := 0 }
  scheduledAt := t

/-- The candidate for the first hour. -/
def midnight : Candidate := hourlyCandidate ⟨0⟩
  "60b33986-da58-8e7f-942b-15bfcb35ee42" "ce48748f-dd0c-8490-9963-53496bc34c87"

/-- The candidate for the second hour. -/
def oneOClock : Candidate := hourlyCandidate ⟨3600000⟩
  "396e090c-bfd1-8fa2-9457-642ce0a8bcdb" "9525f776-f42c-8667-84a9-583ede3af680"

theorem candidate_hourly {t : Instant} {runId stateId text : String}
    (hrun : Occurrence.runId plainDeployment.flowId (Occurrence.idempotencyKey hourly.id t) = runId)
    (hstate : Occurrence.initialStateId runId = stateId)
    (htext : Occurrence.details hourly.id t = .ok text) :
    Occurrence.candidate plainDeployment hourly 0 t = .ok (hourlyCandidate t runId stateId) := by
  subst hstate hrun
  rw [Occurrence.candidate_eq_ok]
  refine ⟨text, htext, ?_⟩
  rw [hourlyCandidate, htext]
  rfl

theorem candidate_midnight :
    Occurrence.candidate plainDeployment hourly 0 ⟨0⟩ = .ok midnight :=
  candidate_hourly (Uuid.toString_ofText (by decide +kernel))
    (Uuid.toString_ofText (by decide +kernel)) rfl

theorem candidate_oneOClock :
    Occurrence.candidate plainDeployment hourly 0 ⟨3600000⟩ = .ok oneOClock :=
  candidate_hourly (Uuid.toString_ofText (by decide +kernel))
    (Uuid.toString_ofText (by decide +kernel)) rfl

/-- With the schedule at hand, its hours in a window are what is generated. -/
theorem ofSchedules_hourly {r : Request} {ts : List Instant} {cs : List Candidate}
    (hdates : hours.dates r.limit (r.windowStart ⟨0⟩) (r.windowEnd ⟨0⟩) = ts)
    (hcs : ts.map (Occurrence.candidate plainDeployment hourly 0) = cs.map .ok) :
    r.ofSchedules ⟨0⟩ plainDeployment [hourly] = .ok cs := by
  have hone : r.ofSchedule ⟨0⟩ plainDeployment hourly = .ok cs := by
    refine ofSchedule_eq_ok.2 ⟨hours, grid_hourly, mapM_eq_ok_iff.2 ?_⟩
    rw [hdates]
    exact hcs
  refine ofSchedules_eq_ok.2 ⟨[cs], mapM_eq_ok_iff.2 ?_, List.append_nil cs⟩
  rw [List.map_singleton, hone, List.map_singleton]

theorem ofSchedules_firstHour :
    firstHour.ofSchedules ⟨0⟩ plainDeployment [hourly] = .ok [midnight] := by
  have hdates : hours.dates firstHour.limit (firstHour.windowStart ⟨0⟩) (firstHour.windowEnd ⟨0⟩) =
      [⟨0⟩] := by decide +kernel
  apply ofSchedules_hourly hdates
  rw [List.map_singleton, candidate_midnight, List.map_singleton]

theorem ofSchedules_firstHours :
    firstHours.ofSchedules ⟨0⟩ plainDeployment [hourly] = .ok [midnight, oneOClock] := by
  have hdates : hours.dates firstHours.limit (firstHours.windowStart ⟨0⟩)
      (firstHours.windowEnd ⟨0⟩) = [⟨0⟩, ⟨3600000⟩] := by decide +kernel
  apply ofSchedules_hourly hdates
  rw [List.map_cons, candidate_midnight, List.map_singleton, candidate_oneOClock]
  rfl

/-- The tables once the run of the first hour has been stored. -/
def midnightTables : Keyed.Tables := (hourlyTables.materialize .updateJoin [midnight]).2

theorem materialize_firstHour :
    (hourlyTables.materialize .updateJoin [midnight]).1 = .ok [midnight.linkedRun] := by
  decide +kernel

/-- The run of the first hour is there, and that of the second hour meets nothing. -/
theorem materialize_firstHours :
    (midnightTables.materialize .updateJoin [midnight, oneOClock]).1 =
      .ok [oneOClock.linkedRun] := by
  decide +kernel

/-- A store over contents with the deployment and its schedule, and with the runs and the states of
keyed tables. -/
structure Copying.Hourly [Repository σ τ] (C : Copying σ κ) (Shows : κ → Keyed.Tables → Prop) :
    Prop where
  find_known : ∀ {w t} c, Shows w t → (Repository.findDeployment "known").run (C.busy c w) =
    (.ok (some plainDeployment), C.busy c w)
  find_unknown : ∀ {w t} c, Shows w t → (Repository.findDeployment "unknown").run (C.busy c w) =
    (.ok none, C.busy c w)
  list_known : ∀ {w t} c, Shows w t → (Repository.listSchedules "known").run (C.busy c w) =
    (.ok [hourly], C.busy c w)
  materialize : ∀ {w t} c {cs : List Candidate} {created}, Shows w t →
    (∀ a ∈ cs, ∀ x ∈ a.texts, Text.NulFree x) →
    (t.materialize .updateJoin cs).1 = .ok created → ∃ w',
      (Timetable.materialize .updateJoin cs).run (C.busy c w) = (.ok created, C.busy c w') ∧
        Shows w' (t.materialize .updateJoin cs).2

namespace Arena

variable {σ τ κ ι : Type} [Repository σ τ] [DecidableEq ι] {C : Copying σ κ} {s : σ}
  {a : Arena σ τ ι} {i : ι} {c w : κ} {cs : List Candidate} {created : List FlowRun}

/-- A client that begins a transaction may make its call, which is then reported. -/
theorem Reachable.call (h : Reachable s a) (job : Job) (hstore : a.store = C.resting c)
    (hidle : a.attempts i = none)
    (hgenerate : (job.request.generate job.now).run (C.busy c c) = (.ok cs, C.busy c c))
    (hmaterialize : (materialize job.strategy cs).run (C.busy c c) = (.ok created, C.busy c w)) :
    ∃ tx, (∀ s : σ, Repository.release (s, tx) = ([], s)) ∧
      Reachable s ⟨C.resting w, Function.update a.attempts i (some ⟨job, tx, .ended⟩),
        a.reports ++ [⟨job, created⟩]⟩ := by
  obtain ⟨tx, hcommit, hrelease⟩ := C.run_commit_busy c w
  have hbegin : (Repository.begin : Action σ τ).run a.store = _ :=
    hstore ▸ C.run_begin_resting c
  have h := h.step (.start job hidle hbegin)
  have h := h.step (.proceed (i := i) (Function.update_self ..) (Action.run_bind_of_ok hgenerate))
  have h := h.step
    (.proceed (i := i) (Function.update_self ..) (Action.run_bind_of_ok hmaterialize))
  have h := h.step (.proceed (i := i) (Function.update_self ..) (Action.run_bind_of_ok hcommit))
  rw [Function.update_idem, Function.update_idem, Function.update_idem, List.append_nil,
    List.append_nil] at h
  exact ⟨tx, hrelease, h⟩

end Arena

/-- A call that asks for hours, made at the start of 1970. -/
def hourlyJob (r : Request) : Job := ⟨.updateJoin, r, 0⟩

theorem nulFree_hours : ∀ a ∈ [midnight, oneOClock], ∀ x ∈ a.texts, Text.NulFree x := by
  decide +kernel

theorem nulFree_midnight : ∀ a ∈ [midnight], ∀ x ∈ a.texts, Text.NulFree x := fun a ha =>
  nulFree_hours a (List.mem_cons.2 (.inl (List.mem_singleton.1 ha)))

section Hourly

variable {σ τ κ : Type} [Repository σ τ] {C : Copying σ κ} {Shows : κ → Keyed.Tables → Prop}
  {c w : κ} {t : Keyed.Tables}

theorem Copying.Hourly.run_generate (hC : C.Hourly Shows) (h : Shows w t) {r : Request}
    (hr : r.deploymentId = "known") {cs : List Candidate}
    (hcs : r.ofSchedules ⟨0⟩ plainDeployment [hourly] = .ok cs) :
    (r.generate ⟨0⟩).run (C.busy c w) = (.ok cs, C.busy c w) := by
  rw [Request.generate, hr, Action.run_bind_of_ok (hC.find_known c h),
    Action.run_bind_of_ok (hC.list_known c h)]
  exact congrArg (fun x => (x, C.busy c w)) hcs

/-- Two clients have asked for hours that they have in common, the second one before the first one
has left. Then the first one has come back and asked for a deployment that is not there. -/
theorem Copying.Hourly.exists_reachable (hC : C.Hourly Shows) (h : Shows c hourlyTables) :
    ∃ a : Arena σ τ Bool, Arena.Reachable (C.resting c) a ∧
      a.reports = [⟨hourlyJob firstHour, [midnight.linkedRun]⟩,
        ⟨hourlyJob firstHours, [oneOClock.linkedRun]⟩] ∧
      (a.attempts true).map Attempt.job = some (plainJob "unknown") ∧
      (a.attempts false).map Attempt.job = some (hourlyJob firstHours) := by
  obtain ⟨c₁, hfirst, h₁⟩ := hC.materialize c h nulFree_midnight materialize_firstHour
  obtain ⟨c₂, hrest, h₂⟩ := hC.materialize c₁ h₁ nulFree_hours materialize_firstHours
  have hunknown : ((plainJob "unknown").request.generate ⟨0⟩).run (C.busy c₂ c₂) =
      (.error (.deploymentNotFound "unknown"), C.busy c₂ c₂) := by
    rw [Request.generate]
    exact Action.run_bind_of_ok (hC.find_unknown c₂ h₂)
  have hstart : Arena.Reachable (C.resting c) (.opening _ : Arena σ τ Bool) := .opening
  obtain ⟨tx, hrelease, hreach⟩ := hstart.call (i := true) (hourlyJob firstHour) rfl rfl
    (hC.run_generate h rfl ofSchedules_firstHour) hfirst
  obtain ⟨tx', -, hreach⟩ := hreach.call (i := false) (hourlyJob firstHours) rfl rfl
    (hC.run_generate h₁ rfl ofSchedules_firstHours) hrest
  have hreach := hreach.step (.leave (i := true) rfl)
  rw [hrelease] at hreach
  have hreach := hreach.step (.start (i := true) (plainJob "unknown") rfl (C.run_begin_resting c₂))
  have hreach := hreach.step (.fail (i := true) rfl (Action.run_bind_of_error hunknown))
  exact ⟨_, hreach, rfl, rfl, rfl⟩

end Hourly

theorem Keyed.Ledger.hourly_copying : Keyed.Ledger.copying.Hourly fun t u =>
    t = u ∧ u.WellFormed ∧ u.deployments = hourlyTables.deployments ∧
      u.schedules = hourlyTables.schedules where
  find_known := by
    rintro t _ c ⟨rfl, -, hdeployments, -⟩
    show (Except.ok (t.deployments.get? "known"), _) = _
    rw [hdeployments]
    rfl
  find_unknown := by
    rintro t _ c ⟨rfl, -, hdeployments, -⟩
    show (Except.ok (t.deployments.get? "unknown"), _) = _
    rw [hdeployments]
    rfl
  list_known := by
    rintro t _ c ⟨rfl, -, -, hschedules⟩
    have hlist : hourlyTables.listSchedules "known" = [hourly] := List.mergeSort_singleton hourly
    show (Except.ok (t.listSchedules "known"), _) = _
    rw [Keyed.Tables.listSchedules, hschedules]
    exact congrArg (fun x => (Except.ok x, _)) hlist
  materialize := by
    rintro t _ c cs created ⟨rfl, ht, hdeployments, hschedules⟩ - hok
    have hu := Keyed.Tables.materialized_of_ok ht hok
    have hrun : (Timetable.materialize .updateJoin cs).run (Keyed.Ledger.copying.busy c t) = _ :=
      Keyed.Ledger.run_materialize ht .updateJoin cs
    rw [hok] at hrun
    exact ⟨_, hrun, rfl, hu.wellFormed, hu.deployments_eq.trans hdeployments,
      hu.schedules_eq.trans hschedules⟩

theorem Relational.Database.run_findDeployment_of_mirrors {c w : Relational.Tables}
    {t : Keyed.Tables} (h : Relational.MirrorsRuns hourlyRows w t) (id : String) :
    (Repository.findDeployment id).run ((Relational.Database.copying .current).busy c w) =
      (.ok (hourlyRows.deploymentRows.find? (·.id == Text.untilNul id)),
        (Relational.Database.copying .current).busy c w) := by
  have hrows : w.deploymentRows = hourlyRows.deploymentRows :=
    congrArg (Option.getD · []) h.deployments_eq
  rw [← hrows]
  exact Relational.Database.run_query h.whole rfl

theorem Relational.Database.hourly_copying :
    (Relational.Database.copying .current).Hourly (Relational.MirrorsRuns hourlyRows) where
  find_known c h := by
    have hfind : hourlyRows.deploymentRows.find? (·.id == Text.untilNul "known") =
      some plainDeployment := by decide
    exact hfind ▸ run_findDeployment_of_mirrors h "known"
  find_unknown c h := by
    have hfind : hourlyRows.deploymentRows.find? (·.id == Text.untilNul "unknown") = none := by
      decide
    exact hfind ▸ run_findDeployment_of_mirrors h "unknown"
  list_known := by
    intro w t c h
    have hlist : w.listSchedules "known" = [hourly] := by
      rw [Relational.Tables.listSchedules, Relational.Tables.scheduleRows, h.schedules_eq]
      exact List.mergeSort_singleton hourly
    have hrun : (Repository.listSchedules "known").run
        ((Relational.Database.copying .current).busy c w) =
          (.ok (w.listSchedules (Text.untilNul "known")), _) :=
      Relational.Database.run_query h.whole rfl
    rw [Text.untilNul_of_nulFree (by decide), hlist] at hrun
    exact hrun
  materialize := by
    intro w t c cs created h hcs hok
    obtain ⟨_, hrun, w', rfl, h'⟩ :=
      (Relational.Database.tracks .current c hourlyRows).run_materialize_of_ok ⟨w, rfl, h⟩ hcs rfl
        hok
    exact ⟨w', hrun, h'⟩

theorem mirrorsRuns_hourlyRows : Relational.MirrorsRuns hourlyRows hourlyRows hourlyTables where
  whole := ⟨rfl, rfl, rfl, rfl⟩
  deployments_eq := rfl
  schedules_eq := rfl
  wellFormed := wellFormed_hourlyTables
  runs := .empty
  states := .empty

/-- Of two clients that ask for hours in common, one is told of the first hour's run and the other
of the second hour's alone. A call that fails in between is not told of any. -/
theorem each_run_created_once_two_clients :
    (∃ a : Arena Keyed.Ledger Keyed.Transaction Bool,
      a.reports = [⟨hourlyJob firstHour, [midnight.linkedRun]⟩,
        ⟨hourlyJob firstHours, [oneOClock.linkedRun]⟩] ∧
      (a.attempts true).map Attempt.job = some (plainJob "unknown") ∧
      (a.attempts false).map Attempt.job = some (hourlyJob firstHours) ∧
      a.Serial ⟨hourlyTables, false⟩ (·.committed) (·.runs.values)) ∧
    ∃ b : Arena Relational.Database Relational.Transaction Bool,
      b.reports = [⟨hourlyJob firstHour, [midnight.linkedRun]⟩,
        ⟨hourlyJob firstHours, [oneOClock.linkedRun]⟩] ∧
      (b.attempts true).map Attempt.job = some (plainJob "unknown") ∧
      (b.attempts false).map Attempt.job = some (hourlyJob firstHours) ∧
      b.Serial ⟨⟨hourlyRows, false⟩, .fresh, .fresh, false, .current⟩ (·.file.tables)
        (·.runRows) := by
  constructor
  · obtain ⟨a, ha, hreports, hleft, hright⟩ := Keyed.Ledger.hourly_copying.exists_reachable
      ⟨rfl, wellFormed_hourlyTables, rfl, rfl⟩
    exact ⟨a, hreports, hleft, hright,
      (each_run_created_once Bool).1 _ wellFormed_hourlyTables rfl a ha⟩
  · have hkept : hourlyRows.Kept := by
      refine ⟨⟨rfl, rfl, rfl, rfl⟩, ?_, by decide, by decide⟩
      intro s hs
      cases hs
    obtain ⟨b, hb, hreports, hleft, hright⟩ :=
      Relational.Database.hourly_copying.exists_reachable mirrorsRuns_hourlyRows
    exact ⟨b, hreports, hleft, hright, (each_run_created_once Bool).2 .current _ hkept rfl b hb⟩

end Timetable
