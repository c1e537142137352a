import Timetable.Proofs.Shared

/-!
# Ledgers that others use, too

A `Scene` is a ledger at rest, together with what others will ask of it. A store that `Follows`
scenes shows at each transaction of its client what the scene shows then. A ledger that nobody else
uses does so (`Keyed.Ledger.follows`), and so does one that is shared (`Shared.follows`).
-/

namespace Timetable

/-! ### Tables that calls are made on -/

namespace Keyed

open Tables

variable {t u : Tables}

namespace Tables

/-- The ids of the deployments, in ascending order. -/
def deploymentIds (t : Tables) : List String := t.deployments.values.map Deployment.id

theorem WellFormed.deploymentIds_eq_keys (ht : t.WellFormed) :
    t.deploymentIds = t.deployments.keys := by
  rw [deploymentIds, OrderedMap.values, OrderedMap.keys, List.map_map]
  refine List.map_congr_left fun e he => ?_
  exact ht.deployment_id (OrderedMap.get?_eq_some_iff.2 he)

theorem WellFormed.ascending_deploymentIds (ht : t.WellFormed) :
    t.deploymentIds.Pairwise (· < ·) := by
  rw [ht.deploymentIds_eq_keys]
  exact List.pairwise_map.2 t.deployments.ascending

theorem WellFormed.nodup_deploymentIds (ht : t.WellFormed) : t.deploymentIds.Nodup := by
  rw [ht.deploymentIds_eq_keys]
  exact t.deployments.nodup_keys

theorem WellFormed.perform (ht : t.WellFormed) (job : Job) : (t.perform job).2.WellFormed := by
  rcases t.perform_cases job with ⟨e, hperform⟩ | ⟨cs, created, -, hok, hperform⟩
  · rw [hperform]
    exact ht
  · rw [hperform]
    exact ht.materialize hok

theorem deployments_perform (ht : t.WellFormed) (job : Job) :
    (t.perform job).2.deployments = t.deployments := by
  rcases t.perform_cases job with ⟨e, hperform⟩ | ⟨cs, created, -, hok, hperform⟩
  · rw [hperform]
  · rw [hperform]
    exact (materialized_of_ok ht hok).deployments_eq

theorem deploymentIds_perform (ht : t.WellFormed) (job : Job) :
    (t.perform job).2.deploymentIds = t.deploymentIds := by
  rw [deploymentIds, deployments_perform ht, deploymentIds]

end Tables

namespace Ledger

/-- A change to the catalogue adds at most one deployment. -/
theorem length_deploymentIds_of_request {change : Change} {l : Ledger} {phase : Phase} {o : Outcome}
    (h : change.request.run (l, (⟨t, phase⟩ : Transaction)) = (.ok o, l, ⟨u, phase⟩)) :
    u.deploymentIds.length ≤ t.deploymentIds.length + 1 := by
  have hcases : ∀ {f : Tables → Except Refusal Tables},
      (Ledger.change f).run (l, ⟨t, phase⟩) = (.ok o, l, ⟨u, phase⟩) → u = t ∨ f t = .ok u := by
    intro f hrun
    cases hf : f t with
    | ok v =>
      rw [run_change_of_ok hf] at hrun
      cases hrun
      exact .inr rfl
    | error e =>
      rw [run_change_of_error hf] at hrun
      cases hrun
      exact .inl rfl
  simp only [deploymentIds, List.length_map]
  cases change with
  | insertDeployment d =>
    rcases hcases (f := (·.insertDeployment d)) h with rfl | hu
    · exact Nat.le_succ _
    · obtain ⟨-, -, rfl⟩ := insertDeployment_eq_ok.1 hu
      exact OrderedMap.length_values_insert_le _ _ _
  | deleteDeployment id =>
    rcases hcases (f := (·.deleteDeployment id)) h with rfl | hu
    · exact Nat.le_succ _
    · obtain ⟨d, -, rfl⟩ := deleteDeployment_eq_ok.1 hu
      exact Nat.le_succ_of_le (OrderedMap.length_values_erase_le _ _)
  | insertSchedule s =>
    rcases hcases (f := (·.insertSchedule s)) h with rfl | hu
    · exact Nat.le_succ _
    · obtain ⟨-, -, -, rfl⟩ := insertSchedule_eq_ok.1 hu
      exact Nat.le_succ _
  | deleteSchedule id =>
    rcases hcases (f := (·.deleteSchedule id)) h with rfl | hu
    · exact Nat.le_succ _
    · obtain ⟨-, rfl⟩ := deleteSchedule_eq_ok.1 hu
      exact Nat.le_succ _

/-- A ledger is at rest over well-formed tables with no more than so many deployments. -/
def Holds (n : Nat) (l : Ledger) : Prop :=
  ∃ t : Tables, l = ⟨t, false⟩ ∧ t.WellFormed ∧ t.deploymentIds.length ≤ n

variable {n : Nat}

theorem keeps_holds_listDeployments (offset : UInt64) (limit : Option UInt64) :
    Keeps (fun w : World Ledger => Holds n w.store)
      (World.transact (Repository.listDeployments offset limit)) := by
  rintro ⟨_, clock, log⟩ ⟨t, rfl, ht⟩
  have hrun : (Repository.listDeployments offset limit).run (copying.busy t t) =
      (.ok (t.listDeployments offset limit), copying.busy t t) := rfl
  have htransact : (World.transact (Repository.listDeployments offset limit)).run
      ⟨(⟨t, false⟩ : Ledger), clock, log⟩ = _ := copying.run_transact hrun clock log
  rw [htransact]
  exact ⟨t, rfl, ht⟩

theorem keeps_holds_scheduleRuns (strategy : LinkStrategy) (r : Request) :
    Keeps (fun w : World Ledger => Holds n w.store) (scheduleRuns strategy r) := by
  rintro ⟨_, clock, log⟩ ⟨t, rfl, ht, hlength⟩
  obtain ⟨log', hrun⟩ := run_scheduleRuns ht ⟨strategy, r, clock⟩ log
  rw [hrun]
  refine ⟨_, rfl, ht.perform _, ?_⟩
  rw [deploymentIds_perform ht]
  exact hlength

/-- Serving a call adds at most one deployment. -/
theorem Holds.serve {w : World Ledger} (h : Holds n w.store) (v : Visit) :
    Holds (n + 1) (serve w v).store := by
  have hmore : ∀ {l : Ledger}, Holds n l → Holds (n + 1) l := by
    rintro l ⟨t, rfl, ht, hlength⟩
    exact ⟨t, rfl, ht, Nat.le_succ_of_le hlength⟩
  obtain ⟨call, clock⟩ := v
  cases call with
  | change context change =>
    obtain ⟨_, before, log⟩ := w
    obtain ⟨t, rfl, ht, hlength⟩ := h
    obtain ⟨o, u, hrequest, hu, -⟩ : ∃ o u, change.request.run (copying.busy t t) =
        (.ok o, copying.busy t u) ∧ KeepsRuns t u := run_request ht change
    have hle := length_deploymentIds_of_request hrequest
    obtain ⟨x, hrun⟩ : ∃ x, (demand context change.request).run (copying.busy t t) =
        (x, copying.busy t u) := by
      cases o with
      | ok done => exact ⟨_, run_demand_of_ok hrequest⟩
      | error e => exact ⟨_, run_demand_of_refused hrequest⟩
    have hserve : (Timetable.serve (⟨⟨t, false⟩, before, log⟩ : World Ledger)
        ⟨.change context change, clock⟩).store = ⟨Copying.settled x t u, false⟩ :=
      congrArg (fun y => y.2.store) (copying.run_transact hrun clock log)
    refine ⟨_, hserve, ?_⟩
    cases x with
    | ok done => exact ⟨hu, Nat.le_trans hle (Nat.succ_le_succ hlength)⟩
    | error e => exact ⟨ht, Nat.le_succ_of_le hlength⟩
  -- the other calls add none
  | scheduleRuns strategy r =>
    have hkeeps : Keeps (fun w : World Ledger => Holds n w.store)
        (Call.perform (.scheduleRuns strategy r)) :=
      .bind (keeps_holds_scheduleRuns strategy r) fun _ => .pure ()
    exact hmore (hkeeps _ h)
  | sweep strategy o =>
    have hsweep : Keeps (fun w : World Ledger => Holds n w.store) (Timetable.sweep strategy o) :=
      keeps_sweep (fun _ _ _ _ hw => hw) keeps_holds_listDeployments keeps_holds_scheduleRuns
        strategy o
    have hkeeps : Keeps (fun w : World Ledger => Holds n w.store)
        (Call.perform (.sweep strategy o)) := .bind hsweep fun _ => .pure ()
    exact hmore (hkeeps _ h)

/-- The ledger after any calls is at rest, and each of them has added at most one deployment. -/
theorem holds_storeAfter {l : Ledger} (h : Holds n l) (visits : List Visit) :
    Holds (n + visits.length) (storeAfter l visits) := by
  have hfoldl : ∀ {n} {w : World Ledger}, Holds n w.store →
      Holds (n + visits.length) (visits.foldl Timetable.serve w).store := by
    induction visits with
    | nil => exact fun h => h
    | cons v visits ih =>
      intro n w h
      have hnext := ih (h.serve v)
      rwa [Nat.add_assoc, Nat.add_comm 1] at hnext
  exact hfoldl h

end Ledger

end Keyed

/-! ### Scenes -/

/-- A ledger at rest over keyed tables, and what others will ask of it before each transaction of a
client. -/
structure Scene where
  tables : Keyed.Tables
  others : List (List Visit)

namespace Scene

/-- The tables that the next transaction finds. -/
def next (s : Scene) : Keyed.Tables :=
  (storeAfter (⟨s.tables, false⟩ : Keyed.Ledger) (s.others.headD [])).committed

/-- The scene after a transaction that leaves the given tables. -/
def after (s : Scene) (t : Keyed.Tables) : Scene := ⟨t, s.others.tail⟩

/-- The tables are well-formed, and there will never be more than so many deployments. -/
structure Fits (n : Nat) (s : Scene) : Prop where
  wellFormed : s.tables.WellFormed
  length_le : s.tables.deploymentIds.length + s.others.flatten.length ≤ n

variable {s : Scene} {n : Nat}

theorem next_of_nil (h : s.others = []) : s.next = s.tables := by
  rw [next, h]
  rfl

theorem arrival_eq (ht : s.tables.WellFormed) :
    storeAfter (⟨s.tables, false⟩ : Keyed.Ledger) (s.others.headD []) = ⟨s.next, false⟩ := by
  obtain ⟨u, hstore, -⟩ := Keyed.Ledger.holds_storeAfter ⟨s.tables, rfl, ht, Nat.le_refl _⟩
    (s.others.headD [])
  rw [next, hstore]

theorem Fits.next (h : s.Fits n) : (s.after s.next).Fits n := by
  obtain ⟨u, hstore, hu, hlength⟩ :=
    Keyed.Ledger.holds_storeAfter ⟨s.tables, rfl, h.wellFormed, Nat.le_refl _⟩ (s.others.headD [])
  have hnext : s.next = u := by rw [Scene.next, hstore]
  have hothers : (s.others.headD []).length + s.others.tail.flatten.length =
      s.others.flatten.length := by
    cases s.others <;> simp
  have hn := h.length_le
  refine ⟨hnext ▸ hu, ?_⟩
  show s.next.deploymentIds.length + s.others.tail.flatten.length ≤ n
  rw [hnext]
  omega

theorem Fits.wellFormed_next (h : s.Fits n) : s.next.WellFormed := h.next.wellFormed

theorem Fits.perform (h : s.Fits n) (job : Job) : (s.after (s.next.perform job).2).Fits n := by
  refine ⟨h.wellFormed_next.perform job, ?_⟩
  have hids : (s.next.perform job).2.deploymentIds = s.next.deploymentIds :=
    Keyed.Tables.deploymentIds_perform h.wellFormed_next job
  show (s.next.perform job).2.deploymentIds.length + s.others.tail.flatten.length ≤ n
  rw [hids]
  exact h.next.length_le

end Scene

/-- A store shows what scenes show: `At` says that it is at rest in a scene, that its client has read
pages of certain tables, and that it has looked for certain deployments. -/
structure Follows {σ τ : Type} [Repository σ τ]
    (At : Scene → List Keyed.Tables → List String → σ → Prop) : Prop where
  pageBound : ∀ {s reads asked x}, At s reads asked x →
    Repository.pageBound x = s.tables.deploymentIds.length + 1 + s.others.flatten.length
  page : ∀ {s reads asked x}, s.tables.WellFormed → At s reads asked x →
    ∀ offset limit clock log, ∃ x',
      (World.transact (Repository.listDeployments offset limit)).run ⟨x, clock, log⟩ =
          (.ok (s.next.listDeployments offset limit), ⟨x', clock, log⟩) ∧
        At (s.after s.next) (reads ++ [s.next]) asked x'
  call : ∀ {n s reads asked x}, s.Fits n → At s reads asked x → ∀ (job : Job) log, ∃ x' log',
    (scheduleRuns job.strategy job.request).run ⟨x, job.clock, log⟩ =
        ((s.next.perform job).1, ⟨x', job.clock, log'⟩) ∧
      At (s.after (s.next.perform job).2) reads (asked ++ [job.request.deploymentId]) x'

/-- A ledger that nobody else uses. -/
def Keyed.Ledger.Alone (s : Scene) (_ : List Keyed.Tables) (_ : List String)
    (l : Keyed.Ledger) : Prop :=
  s.others = [] ∧ l = ⟨s.tables, false⟩

theorem Keyed.Ledger.follows : Follows Keyed.Ledger.Alone where
  pageBound := by
    rintro ⟨t, _⟩ reads asked _ ⟨rfl, rfl⟩
    simp [Repository.pageBound, Keyed.Tables.deploymentIds, OrderedMap.values]
  page := by
    rintro ⟨t, _⟩ reads asked _ ht ⟨rfl, rfl⟩ offset limit clock log
    have hrun : (Repository.listDeployments offset limit).run (copying.busy t t) =
        (.ok (t.listDeployments offset limit), copying.busy t t) := rfl
    exact ⟨_, copying.run_transact hrun clock log, rfl, rfl⟩
  call := by
    rintro n ⟨t, _⟩ reads asked _ hfits ⟨rfl, rfl⟩ job log
    obtain ⟨log', hrun⟩ := run_scheduleRuns hfits.wellFormed job log
    exact ⟨_, log', hrun, rfl, rfl⟩

/-- A ledger that is shared. -/
def Shared.At (s : Scene) (reads : List Keyed.Tables) (asked : List String)
    (x : Shared Keyed.Ledger) : Prop :=
  x = ⟨⟨s.tables, false⟩, s.others, reads.map (⟨·, true⟩), asked⟩

/-- A transaction of a shared ledger works on the tables that the scene shows next. -/
theorem Shared.At.run_transact {s : Scene} {reads : List Keyed.Tables} {asked : List String}
    {x : Shared Keyed.Ledger} (h : At s reads asked x) (ht : s.tables.WellFormed)
    {f : Shared Keyed.Ledger → Shared Keyed.Ledger} (hf : ∀ y, (f y).store = y.store)
    {body : Action (Keyed.Ledger × Keyed.Transaction) α} {r : Except Failure α} {u : Keyed.Tables}
    (hbody : body.run (Keyed.Ledger.copying.busy s.next s.next) =
      (r, Keyed.Ledger.copying.busy s.next u)) (clock : Int) (log : List Log.Entry) :
    (World.transact (takeDown f >>= fun _ => pass body)).run ⟨x, clock, log⟩ =
      (r, ⟨{ f (x.begun ⟨s.next, true⟩) with store := ⟨Copying.settled r s.next u, false⟩ },
        clock, log⟩) := by
  have harrival : x.arrival = Keyed.Ledger.copying.resting s.next := by
    rw [h]
    exact s.arrival_eq ht
  have hbegin := Keyed.Ledger.copying.run_begin_resting s.next
  have htransact := Keyed.Ledger.copying.run_transact hbody clock log
  rw [← harrival] at hbegin htransact
  exact Shared.run_transact hf hbegin htransact

theorem Shared.follows : Follows Shared.At where
  pageBound := by
    rintro s reads asked _ rfl
    simp [Repository.pageBound, Keyed.Tables.deploymentIds, OrderedMap.values]
  page := by
    intro s reads asked x ht hAt offset limit clock log
    have hrun : (Repository.listDeployments offset limit).run
        (Keyed.Ledger.copying.busy s.next s.next) =
          (.ok (s.next.listDeployments offset limit), Keyed.Ledger.copying.busy s.next s.next) := rfl
    refine ⟨_, hAt.run_transact ht (f := Shared.read) (fun _ => rfl) hrun clock log, ?_⟩
    rw [At, hAt, List.map_append]
    rfl
  call := by
    intro n s reads asked x hfits hAt job log
    obtain ⟨r, u, hwork, hperform⟩ := Keyed.Ledger.run_schedulingWork hfits.wellFormed_next job
    have htransact := hAt.run_transact hfits.wellFormed (f := Shared.ask job.request.deploymentId)
      (fun _ => rfl) hwork job.clock log
    rw [← Shared.schedulingWork_eq] at htransact
    obtain ⟨log', hrun⟩ := run_scheduleRuns_of_transact htransact
    rw [hperform]
    refine ⟨_, log', hrun, ?_⟩
    rw [At, hAt]
    rfl

end Timetable
