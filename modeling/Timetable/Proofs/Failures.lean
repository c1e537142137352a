import Timetable.Proofs.Relational.Database
import Timetable.Proofs.Scheduling

/-!
# What an action fails with

`FailsOnly P` says of an action that it fails for causes with the property `P` and for no others.
The relational store answers a request to write with a refusal, which is not a failure yet, so
storing candidates fails because something is refused (`failsOnly_materialize`). What is wrong with
an argument therefore shows while candidates are generated (`generate_of_scheduleRuns_error`).
-/

namespace Timetable

/-- An action fails only for causes with a property. -/
def FailsOnly (P : Failure → Prop) (x : Action σ α) : Prop :=
  ∀ s e s', x.run s = (.error e, s') → P e

namespace FailsOnly

variable {P : Failure → Prop} {σ α β : Type} {x : Action σ α} {f : α → Action σ β}

theorem pure (a : α) : FailsOnly P (Pure.pure a : Action σ α) := by
  intro s e s' h
  cases h

theorem ofState (g : σ → α × σ) : FailsOnly P (Action.ofState g) := by
  intro s e s' h
  cases h

theorem ofExcept {r : Except Failure α} (h : ∀ e, r = .error e → P e) :
    FailsOnly P (Action.ofExcept r : Action σ α) := by
  intro s e s' hrun
  cases hrun
  exact h e rfl

theorem bind (hx : FailsOnly P x) (hf : ∀ a, FailsOnly P (f a)) : FailsOnly P (x >>= f) := by
  intro s e s' h
  rcases hrun : x.run s with ⟨e' | a, m⟩
  · rw [Action.run_bind_of_error hrun] at h
    cases h
    exact hx _ _ _ hrun
  · rw [Action.run_bind_of_ok hrun] at h
    exact hf a m e s' h

/-- What is demanded fails because it is refused. -/
theorem demand {x : Action σ Outcome} {context : String} (hx : FailsOnly P x)
    (hrefused : ∀ refusal, P (.refused context refusal)) :
    FailsOnly P (Timetable.demand context x) := by
  refine hx.bind fun o => ofExcept fun e he => ?_
  cases o with
  | ok _ => cases he
  | error refusal =>
    cases he
    exact hrefused refusal

end FailsOnly

/-- No refusal is about an argument. -/
theorem Failure.kind_refused_ne (context : String) (refusal : Refusal) :
    (Failure.refused context refusal).kind ≠ .invalidArgument := by
  rw [Failure.kind]
  cases refusal.code <;> nofun

namespace Relational.Database

variable {v : Version} {P : Failure → Prop}

/-! ### Requests -/

theorem failsOnly_execute (s : Statement α) : FailsOnly P (execute s) :=
  .ofState _

theorem failsOnly_change (uses refers : List TableName) (f : Tables → Except Fault Tables) :
    FailsOnly P (change uses refers f) := by
  refine (failsOnly_execute _).bind fun r => ?_
  split <;> exact .pure _

theorem failsOnly_changeEach {change : α → Action (Database × Transaction) Outcome}
    (h : ∀ a, FailsOnly P (change a)) (as : List α) : FailsOnly P (changeEach change as) := by
  induction as with
  | nil => exact .pure _
  | cons a as ih =>
    refine (h a).bind fun o => ?_
    cases o with
    | ok _ => exact ih
    | error e => exact .pure _

/-- That the engine is too old is a refusal, not a failure. -/
theorem failsOnly_linkBatches (strategy : LinkStrategy) (ids : List String) :
    FailsOnly P (linkBatches strategy ids) := by
  intro s e s' h
  by_cases hknows : s.1.version.knows strategy = true
  · rw [run_linkBatches_of_knows hknows] at h
    exact failsOnly_changeEach (fun _ => failsOnly_change _ _ _) _ s e s' h
  · rw [run_linkBatches_of_not_knows hknows] at h
    cases h

theorem failsOnly_statelessRunIds (found : List String) (batches : List (List String)) :
    FailsOnly P (statelessRunIds found batches) := by
  induction batches generalizing found with
  | nil => exact .pure _
  | cons ids batches ih =>
    refine (failsOnly_execute _).bind fun r => ?_
    split
    · exact ih _
    · exact .pure _

/-- Storing candidates fails only because something is refused. -/
theorem failsOnly_materialize (hrefused : ∀ context refusal, P (.refused context refusal))
    (strategy : LinkStrategy) (cs : List Candidate) :
    FailsOnly P (materialize strategy cs : Action (Database × Transaction) _) := by
  unfold materialize
  split
  · exact .pure _
  have hruns : ∀ rs, FailsOnly P (Repository.insertRuns rs : Action (Database × Transaction) _) :=
    failsOnly_changeEach fun _ => failsOnly_change _ _ _
  refine ((hruns _).demand (hrefused _)).bind fun _ => ?_
  refine (failsOnly_statelessRunIds [] _).bind fun found => ?_
  refine FailsOnly.bind (.ofExcept fun e he => ?_) fun _ => ?_
  · cases hfound : found.1 with
    | ok _ =>
      rw [hfound] at he
      cases he
    | error refusal =>
      rw [hfound] at he
      cases he
      exact hrefused _ _
  split
  · exact .pure _
  have hstates : ∀ ss,
      FailsOnly P (Repository.insertStates ss : Action (Database × Transaction) _) :=
    failsOnly_changeEach fun _ => failsOnly_change _ _ _
  refine ((hstates _).demand (hrefused _)).bind fun _ => ?_
  exact ((failsOnly_linkBatches strategy _).demand (hrefused _)).bind fun _ => .pure _

/-- Committing fails in the engine, or for want of the lock. -/
theorem failsOnly_commit (hengine : ∀ fault, P (.engine fault)) (hlock : P .lockNotHeld) :
    FailsOnly P commit := by
  rintro ⟨db, tx⟩ e x' h
  simp only [Action.run, commit, unlock] at h
  split at h
  · cases h
    exact hengine _
  · split at h <;> cases h
    exact hlock

/-! ### Scheduling -/

/-- A call that fails for an argument has failed while candidates were generated. -/
theorem generate_of_scheduleRuns_error {c : Tables} {strategy : LinkStrategy} {r : Request}
    {clock : Int} {log : List Log.Entry} {e : Failure} {w : World Database}
    {x : Except Failure (List Candidate)}
    (hgenerate : (r.generate (.ofNanos clock)).run ((copying v).busy c c) =
      (x, (copying v).busy c c))
    (hrun : (scheduleRuns strategy r).run ⟨(copying v).resting c, clock, log⟩ = (.error e, w))
    (hkind : e.kind = .invalidArgument) : x = .error e := by
  cases x with
  | error e' =>
    have hwork : (schedulingWork strategy r (.ofNanos clock)).run ((copying v).busy c c) =
        (.error e', (copying v).busy c c) := Action.run_bind_of_error hgenerate
    rw [(copying v).run_scheduleRuns_of_error hwork] at hrun
    cases hrun
    rfl
  | ok cs =>
    obtain ⟨y, w', htransact, hy, -⟩ := run_transact_of_scheduleRuns hrun
    rcases hbody : (schedulingWork strategy r (.ofNanos clock) >>= fun a =>
        Repository.commit >>= fun _ => pure a).run ((copying v).busy c c) with ⟨z, m⟩
    rw [World.run_transact_of_begin ((copying v).run_begin_resting c) hbody] at htransact
    obtain rfl : z = y := congrArg Prod.fst htransact
    -- behind the candidates nothing fails for an argument
    have hrest : FailsOnly (fun e => e.kind ≠ .invalidArgument)
        ((materialize strategy cs >>= fun created => pure (cs.length, created)) >>= fun a =>
          (Repository.commit : Action (Database × Transaction) Unit) >>= fun _ => pure a) := by
      refine .bind (.bind (failsOnly_materialize Failure.kind_refused_ne _ _) fun _ => .pure _)
        fun a => .bind (failsOnly_commit ?_ ?_) fun _ => .pure _
      · nofun
      · nofun
    rw [schedulingWork, Action.run_bind_congr (Action.run_bind_of_ok hgenerate)] at hbody
    cases z with
    | ok _ => cases hy
    | error e' =>
      cases hy
      exact absurd hkind (hrest _ _ _ hbody)

end Relational.Database

end Timetable
