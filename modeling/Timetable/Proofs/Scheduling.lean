import Timetable.Proofs.Backend
import Timetable.Scheduling

/-!
# Scheduling a deployment

`scheduleRuns` is one transaction: what its work leaves is committed if it ends well and forgotten
if it fails (`run_scheduleRuns`). On healthy contents of a backend it stores what it generates, which
adds the runs that it returns and nothing else (`Backend.Healthy.run_scheduleRuns`).
-/

namespace Timetable

/-- What is done in the transaction of `scheduleRuns`. -/
def schedulingWork [Repository σ τ] (strategy : LinkStrategy) (r : Request) (now : Instant) :
    Action (σ × τ) (Nat × List FlowRun) := do
  let candidates ← r.generate now
  let created ← materialize strategy candidates
  return (candidates.length, created)

/-- Logs how many candidates there were and how many runs were made of them. -/
def noteScheduled (r : Request) (candidates created : Nat) : Action (World σ) Unit :=
  World.note .info "scheduled runs"
    [.text "deployment_id" r.deploymentId, .number "candidates" candidates,
      .number "created" created]

theorem scheduleRuns_eq [Repository σ τ] (strategy : LinkStrategy) (r : Request) :
    (scheduleRuns strategy r : Action (World σ) (List FlowRun)) =
      (Action.read >>= fun w => World.transact (schedulingWork strategy r w.now) >>= fun x =>
        noteScheduled r x.1 x.2.length >>= fun _ => pure x.2) := rfl

/-- Scheduling ends as its transaction does; what it adds to the log is another matter. -/
theorem run_scheduleRuns_of_transact {σ τ : Type} [Repository σ τ] {strategy : LinkStrategy}
    {r : Request} {clock : Int} {log : List Log.Entry} {s s' : σ}
    {x : Except Failure (Nat × List FlowRun)}
    (h : (World.transact (schedulingWork strategy r (.ofNanos clock))).run ⟨s, clock, log⟩ =
      (x, ⟨s', clock, log⟩)) : ∃ log',
    (scheduleRuns strategy r).run ⟨s, clock, log⟩ = (x.map Prod.snd, ⟨s', clock, log'⟩) := by
  have hread : (Action.read : Action (World σ) (World σ)).run ⟨s, clock, log⟩ =
      (.ok ⟨s, clock, log⟩, ⟨s, clock, log⟩) := rfl
  rw [scheduleRuns_eq, Action.run_bind_of_ok hread, World.now]
  cases x with
  | ok a =>
    rw [Action.run_bind_of_ok h]
    exact ⟨_, rfl⟩
  | error e =>
    rw [Action.run_bind_of_error h]
    exact ⟨log, rfl⟩

/-- Scheduling has ended as its transaction did, and left the store as that did. -/
theorem run_transact_of_scheduleRuns {σ τ : Type} [Repository σ τ] {strategy : LinkStrategy}
    {r : Request} {clock : Int} {log : List Log.Entry} {s : σ} {w : World σ}
    {x : Except Failure (List FlowRun)}
    (h : (scheduleRuns strategy r).run ⟨s, clock, log⟩ = (x, w)) : ∃ y w',
    (World.transact (schedulingWork strategy r (.ofNanos clock))).run ⟨s, clock, log⟩ = (y, w') ∧
      x = y.map Prod.snd ∧ w.store = w'.store := by
  have hread : (Action.read : Action (World σ) (World σ)).run ⟨s, clock, log⟩ =
      (.ok ⟨s, clock, log⟩, ⟨s, clock, log⟩) := rfl
  rw [scheduleRuns_eq, Action.run_bind_of_ok hread, World.now] at h
  rcases hwork : (World.transact (schedulingWork strategy r (.ofNanos clock))).run
    ⟨s, clock, log⟩ with ⟨e | a, w'⟩
  · rw [Action.run_bind_of_error hwork] at h
    cases h
    exact ⟨_, _, rfl, rfl, rfl⟩
  · rw [Action.run_bind_of_ok hwork] at h
    cases h
    exact ⟨_, w', rfl, rfl, rfl⟩

namespace Copying

variable {σ τ κ : Type} [Repository σ τ] (C : Copying σ κ) {c w : κ} {strategy : LinkStrategy}
  {r : Request} {clock : Int} {log : List Log.Entry}

theorem run_scheduleRuns_eq :
    (scheduleRuns strategy r).run ⟨C.resting c, clock, log⟩ =
      (World.transact (schedulingWork strategy r (.ofNanos clock)) >>= fun x =>
        noteScheduled r x.1 x.2.length >>= fun _ => pure x.2).run ⟨C.resting c, clock, log⟩ := by
  have hread : (Action.read : Action (World σ) (World σ)).run ⟨C.resting c, clock, log⟩ =
      (.ok ⟨C.resting c, clock, log⟩, ⟨C.resting c, clock, log⟩) := rfl
  rw [scheduleRuns_eq, Action.run_bind_of_ok hread, World.now]

theorem run_scheduleRuns_of_ok {n : Nat} {created : List FlowRun}
    (h : (schedulingWork strategy r (.ofNanos clock)).run (C.busy c c) =
      (.ok (n, created), C.busy c w)) : ∃ log',
    (scheduleRuns strategy r).run ⟨C.resting c, clock, log⟩ =
      (.ok created, ⟨C.resting w, clock, log'⟩) := by
  rw [run_scheduleRuns_eq, Action.run_bind_of_ok (C.run_transact h clock log)]
  exact ⟨_, rfl⟩

theorem run_scheduleRuns_of_error {e : Failure}
    (h : (schedulingWork strategy r (.ofNanos clock)).run (C.busy c c) = (.error e, C.busy c w)) :
    (scheduleRuns strategy r).run ⟨C.resting c, clock, log⟩ =
      (.error e, ⟨C.resting c, clock, log⟩) := by
  rw [run_scheduleRuns_eq, Action.run_bind_of_error (C.run_transact h clock log)]
  rfl

end Copying

namespace Backend.Healthy

variable {σ τ κ : Type} [Repository σ τ] {B : Backend σ κ} {c w : κ}

/-- The work of scheduling stores what is generated. -/
theorem run_schedulingWork (h : B.Healthy c) (strategy : LinkStrategy) (r : Request)
    (now : Instant) : ∃ x w,
    (schedulingWork strategy r now).run (B.busy c c) = (x, B.busy c w) ∧
      ∀ n created, x = .ok (n, created) → ∃ cs,
        (r.generate now).run (B.busy c c) = (.ok cs, B.busy c c) ∧ B.Added c cs created w := by
  obtain ⟨t, ht⟩ := h.shows
  obtain ⟨generated, hgenerate, hgenuine⟩ := B.run_generate c r now ht
  rw [schedulingWork]
  cases generated with
  | error e =>
    rw [Action.run_bind_of_error hgenerate]
    exact ⟨.error e, c, rfl, by simp⟩
  | ok cs =>
    obtain ⟨x, w, hmaterialize, hadded⟩ := h.run_materialize c strategy (hgenuine cs rfl)
    rw [Action.run_bind_of_ok hgenerate]
    cases x with
    | error e =>
      rw [Action.run_bind_of_error hmaterialize]
      exact ⟨.error e, w, rfl, by simp⟩
    | ok created =>
      rw [Action.run_bind_of_ok hmaterialize]
      refine ⟨.ok (cs.length, created), w, rfl, ?_⟩
      rintro n created' ⟨⟩
      exact ⟨cs, hgenerate, hadded created rfl⟩

/-- Scheduling commits what is generated, or leaves no trace. -/
theorem run_scheduleRuns (h : B.Healthy c) (strategy : LinkStrategy) (r : Request) (clock : Int)
    (log : List Log.Entry) : ∃ x c' log',
    (scheduleRuns strategy r).run ⟨B.resting c, clock, log⟩ = (x, ⟨B.resting c', clock, log'⟩) ∧
      (∀ created, x = .ok created → ∃ cs,
        (r.generate (.ofNanos clock)).run (B.busy c c) = (.ok cs, B.busy c c) ∧
          B.Added c cs created c') ∧ ∀ e, x = .error e → c' = c := by
  obtain ⟨x, w, hwork, hadded⟩ := h.run_schedulingWork strategy r (.ofNanos clock)
  cases x with
  | error e => exact ⟨.error e, c, log, B.run_scheduleRuns_of_error hwork, by simp, by simp⟩
  | ok result =>
    obtain ⟨n, created⟩ := result
    obtain ⟨log', hrun⟩ : ∃ log', (scheduleRuns strategy r).run ⟨B.resting c, clock, log⟩ =
      (.ok created, ⟨B.resting w, clock, log'⟩) := B.run_scheduleRuns_of_ok hwork
    refine ⟨.ok created, w, log', hrun, ?_, by simp⟩
    rintro created' ⟨⟩
    exact hadded n created rfl

end Backend.Healthy

end Timetable
