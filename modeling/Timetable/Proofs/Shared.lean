import Timetable.Proofs.Order

/-!
# A store that others use, too

A `Shared` store is one that other clients use between the transactions of a client of its own:
what they ask for is served before each of these transactions. It takes down which pages of
deployments its own client reads and which deployments it looks for. Whatever scheduling does to a
store it does to a shared one as well (`Shared.schedulingWork_eq`), in a transaction that begins once
others have had their turn (`Shared.run_transact`).
-/

namespace Timetable

/-- A store that others use between the transactions of a client. -/
structure Shared (σ : Type) where
  store : σ
  /-- What others ask for before each transaction that is still to come. -/
  others : List (List Visit)
  /-- The store as it was whenever a page of deployments was read. -/
  reads : List σ
  /-- The deployments that have been looked for. -/
  asked : List String

namespace Shared

/-- A store that has not been asked for anything. -/
def fresh (s : σ) (others : List (List Visit)) : Shared σ := ⟨s, others, [], []⟩

/-- Does something in a transaction of the store. -/
def pass (x : Action (σ × τ) α) : Action (Shared σ × τ) α :=
  x.onPart (fun s => (s.1.store, s.2)) fun r s => ({ s.1 with store := r.1 }, r.2)

/-- Takes down what a transaction is about. -/
def takeDown (f : Shared σ → Shared σ) : Action (Shared σ × τ) Unit :=
  .update fun s => (f s.1, s.2)

/-- Takes down that a deployment is looked for. -/
def ask (id : String) (s : Shared σ) : Shared σ := { s with asked := s.asked ++ [id] }

/-- Takes down that a page is read. -/
def read (s : Shared σ) : Shared σ := { s with reads := s.reads ++ [s.store] }

section Repository

variable [Repository σ τ]

/-- The store once others have had their turn. -/
def arrival (s : Shared σ) : σ := storeAfter s.store (s.others.headD [])

instance : Repository (Shared σ) τ where
  dialect s := Repository.dialect s.store
  begin := fun s =>
    let r := (Repository.begin : Action σ τ).run s.arrival
    (r.1, { s with store := r.2, others := s.others.tail })
  commit := pass Repository.commit
  rollback := pass Repository.rollback
  isCommitted := Repository.isCommitted σ
  release s :=
    let r := Repository.release (s.1.store, s.2)
    (r.1, { s.1 with store := r.2 })
  insertDeployment d := pass (Repository.insertDeployment d)
  findDeployment id := do
    takeDown (ask id)
    pass (Repository.findDeployment id)
  listDeployments offset limit := do
    takeDown read
    pass (Repository.listDeployments offset limit)
  deleteDeployment id := pass (Repository.deleteDeployment id)
  insertSchedule s := pass (Repository.insertSchedule s)
  listSchedules id := pass (Repository.listSchedules id)
  deleteSchedule id := pass (Repository.deleteSchedule id)
  insertRuns rs := pass (Repository.insertRuns rs)
  statelessRunIds ids := pass (Repository.statelessRunIds ids)
  insertStates ss := pass (Repository.insertStates ss)
  linkStates strategy ids := pass (Repository.linkStates strategy ids)
  findRun id := pass (Repository.findRun id)
  listRuns id := pass (Repository.listRuns id)
  listStates id := pass (Repository.listStates id)
  pageBound s := Repository.pageBound s.store + s.others.flatten.length

end Repository

/-! ### What is passed on -/

section Pass

variable {σ τ α β : Type}

theorem run_pass {x : Action (σ × τ) α} {s : Shared σ} {s' : σ} {tx tx' : τ}
    {r : Except Failure α} (h : x.run (s.store, tx) = (r, s', tx')) :
    (pass x).run (s, tx) = (r, { s with store := s' }, tx') := by
  show ((x.run (s.store, tx)).1, ({ s with store := (x.run (s.store, tx)).2.1 } : Shared σ),
    (x.run (s.store, tx)).2.2) = _
  rw [h]

theorem pass_bind (x : Action (σ × τ) α) (f : α → Action (σ × τ) β) :
    pass (x >>= f) = pass x >>= fun a => pass (f a) := by
  funext s
  simp only [pass, Action.onPart, Bind.bind]
  rcases x (s.1.store, s.2) with ⟨e | a, y⟩ <;> rfl

theorem pass_demand (context : String) (x : Action (σ × τ) Outcome) :
    demand context (pass x) = pass (demand context x) := by
  rw [demand, demand, pass_bind]
  rfl

variable [Repository σ τ]

theorem materialize_eq (strategy : LinkStrategy) (cs : List Candidate) :
    (materialize strategy cs : Action (Shared σ × τ) _) = pass (materialize strategy cs) := by
  unfold materialize
  split
  · rfl
  · simp only [pass_bind, ← pass_demand]
    refine congrArg _ (funext fun _ => congrArg _ (funext fun x => congrArg _ (funext fun _ => ?_)))
    split
    · rfl
    · simp only [pass_bind, ← pass_demand]
      rfl

theorem bind_assoc {γ : Type} (x : Action σ α) (f : α → Action σ β) (g : β → Action σ γ) :
    x >>= f >>= g = x >>= fun a => f a >>= g := by
  funext s
  simp only [Bind.bind]
  rcases x s with ⟨e | a, s'⟩ <;> rfl

theorem generate_eq (r : Request) (now : Instant) :
    (r.generate now : Action (Shared σ × τ) _) =
      takeDown (ask r.deploymentId) >>= fun _ => pass (r.generate now) := by
  show (takeDown (ask r.deploymentId) >>= fun _ =>
    pass (Repository.findDeployment r.deploymentId)) >>= _ = _
  rw [bind_assoc, Request.generate, pass_bind]
  refine congrArg _ (funext fun _ => congrArg _ (funext fun d => ?_))
  cases d with
  | none => rfl
  | some d =>
    exact (pass_bind (Repository.listSchedules r.deploymentId) fun ss =>
      .ofExcept (r.ofSchedules now d ss)).symm

/-- Scheduling takes down which deployment it is about, and is passed on for the rest. -/
theorem schedulingWork_eq (strategy : LinkStrategy) (r : Request) (now : Instant) :
    (schedulingWork strategy r now : Action (Shared σ × τ) _) =
      takeDown (ask r.deploymentId) >>= fun _ => pass (schedulingWork strategy r now) := by
  simp only [schedulingWork, generate_eq, materialize_eq, bind_assoc, pass_bind]
  rfl

end Pass

section Transact

variable {σ τ : Type} [Repository σ τ] {s : Shared σ} {s' : σ} {tx : τ} {w : World σ}
  {r : Except Failure α} {x : Action (σ × τ) α} {f : Shared σ → Shared σ} {clock : Int}
  {log : List Log.Entry}

/-- What a transaction finds when it has begun. -/
def begun (s : Shared σ) (store : σ) : Shared σ :=
  { s with store := store, others := s.others.tail }

theorem commit_eq (f : Shared σ → Shared σ) (x : Action (σ × τ) α) :
    (takeDown f >>= (fun _ => pass x) >>= fun a => Repository.commit >>= fun _ => pure a) =
      takeDown f >>= fun _ => pass (x >>= fun a => Repository.commit >>= fun _ => pure a) := by
  simp only [bind_assoc, pass_bind]
  rfl

/-- A transaction of a shared store does what one of the store does once others have had their
turn. -/
theorem run_transact (hf : ∀ s, (f s).store = s.store)
    (hbegin : (Repository.begin : Action σ τ).run s.arrival = (.ok tx, s'))
    (h : (World.transact x).run ⟨s.arrival, clock, log⟩ = (r, w)) :
    (World.transact (takeDown f >>= fun _ => pass x)).run ⟨s, clock, log⟩ =
      (r, ⟨{ f (s.begun s') with store := w.store }, w.clock, w.log⟩) := by
  rcases hwork : (x >>= fun a => Repository.commit >>= fun _ => pure a).run (s', tx) with ⟨r', y⟩
  rw [World.run_transact_of_begin hbegin hwork] at h
  cases h
  have hbegin' : (Repository.begin : Action (Shared σ) τ).run s = (.ok tx, s.begun s') := by
    show (((Repository.begin : Action σ τ).run s.arrival).1,
      s.begun ((Repository.begin : Action σ τ).run s.arrival).2) = _
    rw [hbegin]
  have hdown : (takeDown f).run (s.begun s', tx) = (.ok (), f (s.begun s'), tx) := rfl
  have hwork' : (takeDown f >>= (fun _ => pass x) >>= fun a => Repository.commit >>= fun _ =>
      pure a).run (s.begun s', tx) = (r, { f (s.begun s') with store := y.1 }, y.2) := by
    rw [commit_eq, Action.run_bind_of_ok hdown]
    -- what is taken down does not change the store that the rest is passed on to
    refine run_pass ?_
    rw [hf]
    exact hwork
  rw [World.run_transact_of_begin hbegin' hwork']
  rfl

end Transact

end Shared

end Timetable
