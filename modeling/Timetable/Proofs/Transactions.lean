import Timetable.Repository

/-!
# Stores whose transactions work on copies

At rest such a store is what has been committed. A transaction that begins takes a copy of it,
works on the copy, and either replaces the committed contents by the copy or leaves no trace. No
other transaction begins until then. `run_transact` says what this makes of `World.transact`:
nothing is ever half done.
-/

namespace Timetable

namespace World

variable {s s' : σ} {clock : Int} {log : List Log.Entry}

theorem run_onStore {x : Action σ α} {r : Except Failure α} (h : x.run s = (r, s')) :
    (onStore x).run ⟨s, clock, log⟩ = (r, ⟨s', clock, log⟩) := by
  show ((x.run s).1, (⟨(x.run s).2, clock, log⟩ : World σ)) = _
  rw [h]

theorem run_within {x : Action (σ × τ) α} {tx tx' : τ} {r : Except Failure α}
    (h : x.run (s, tx) = (r, s', tx')) :
    (within tx x).run ⟨s, clock, log⟩ = (.ok (r, tx'), ⟨s', clock, log⟩) := by
  show (Except.ok ((x.run (s, tx)).1, (x.run (s, tx)).2.2),
    (⟨(x.run (s, tx)).2.1, clock, log⟩ : World σ)) = _
  rw [h]

theorem run_transact_of_begin_error [Repository σ τ] {body : Action (σ × τ) α} {e : Failure}
    (hbegin : (Repository.begin : Action σ τ).run s = (.error e, s')) :
    (transact body).run ⟨s, clock, log⟩ = (.error e, ⟨s', clock, log⟩) := by
  rw [transact, Action.run_bind_of_error (run_onStore hbegin)]

/-- A transaction that has begun ends as its body and the commit behind it do, and is given up. -/
theorem run_transact_of_begin [Repository σ τ] {body : Action (σ × τ) α} {tx : τ} {x : σ × τ}
    {r : Except Failure α} (hbegin : (Repository.begin : Action σ τ).run s = (.ok tx, s'))
    (hbody : (body >>= fun a => Repository.commit >>= fun _ => pure a).run (s', tx) = (r, x)) :
    (transact body).run ⟨s, clock, log⟩ =
      (r, ⟨(Repository.release x).2, clock, log ++ (Repository.release x).1⟩) := by
  rw [transact, Action.run_bind_of_ok (run_onStore hbegin), Action.run_bind_of_ok (run_within hbody)]
  rfl

/-- A transaction that succeeds has begun, its body has succeeded, and it has been committed. -/
theorem run_transact_eq_ok [Repository σ τ] {body : Action (σ × τ) α} {a : α} {w : World σ}
    (h : (transact body).run ⟨s, clock, log⟩ = (.ok a, w)) : ∃ tx s' x y,
    (Repository.begin : Action σ τ).run s = (.ok tx, s') ∧ body.run (s', tx) = (.ok a, x) ∧
      Repository.commit.run x = (.ok (), y) ∧ w.store = (Repository.release y).2 := by
  rcases hbegin : (Repository.begin : Action σ τ).run s with ⟨e | tx, s'⟩
  · rw [run_transact_of_begin_error hbegin] at h
    cases h
  rcases hwork : (body >>= fun a => Repository.commit >>= fun _ => pure a).run (s', tx) with ⟨r, y⟩
  rw [run_transact_of_begin hbegin hwork] at h
  cases h
  obtain ⟨_, x, hbody, hrest⟩ := Action.run_bind_eq_ok hwork
  obtain ⟨⟨⟩, _, hcommit, hdone⟩ := Action.run_bind_eq_ok hrest
  cases hdone
  exact ⟨tx, s', x, _, rfl, hbody, hcommit, rfl⟩

end World

/-- A way to see a store as one that is at rest over its contents, or busy with one transaction that
sees contents of its own. -/
structure Copying (σ : Type) {τ : Type} [Repository σ τ] (κ : Type) where
  resting : κ → σ
  /-- The store over what has been committed, and the transaction that sees the second. -/
  busy : κ → κ → σ × τ
  run_begin_resting : ∀ c, (Repository.begin : Action σ τ).run (resting c) =
    (.ok (busy c c).2, (busy c c).1)
  run_begin_busy : ∀ c w, (Repository.begin : Action σ τ).run (busy c w).1 =
    (.error .waiting, (busy c w).1)
  /-- A transaction that has been committed no longer matters to anyone. -/
  run_commit_busy : ∀ c w, ∃ tx, Repository.commit.run (busy c w) = (.ok (), resting w, tx) ∧
    ∀ s : σ, Repository.release (s, tx) = ([], s)
  /-- Neither does one that has been rolled back. -/
  run_rollback_busy : ∀ c w, ∃ tx, Repository.rollback.run (busy c w) = (.ok (), resting c, tx) ∧
    ∀ s : σ, Repository.release (s, tx) = ([], s)
  release_busy : ∀ c w, Repository.release (busy c w) = ([], resting c)

namespace Copying

variable {σ τ κ : Type} [Repository σ τ] (C : Copying σ κ) {c w : κ}

/-- What is committed in the end: the contents that the transaction saw last, or those from before
if it failed. -/
def settled (r : Except Failure α) (before after : κ) : κ :=
  match r with
  | .ok _ => after
  | .error _ => before

/-- A body that ends with success is committed, and one that fails leaves no trace. -/
theorem run_transact {body : Action (σ × τ) α} {r : Except Failure α}
    (h : body.run (C.busy c c) = (r, C.busy c w)) (clock : Int) (log : List Log.Entry) :
    (World.transact body).run ⟨C.resting c, clock, log⟩ =
      (r, ⟨C.resting (settled r c w), clock, log⟩) := by
  cases r with
  | ok a =>
    obtain ⟨tx, hcommit, hrelease⟩ := C.run_commit_busy c w
    have hbody : (body >>= fun a => Repository.commit >>= fun _ => pure a).run (C.busy c c) =
        (.ok a, C.resting w, tx) := by
      rw [Action.run_bind_of_ok h, Action.run_bind_of_ok hcommit]
      rfl
    rw [World.run_transact_of_begin (C.run_begin_resting c) hbody, hrelease, List.append_nil]
    rfl
  | error e =>
    have hbody : (body >>= fun a => Repository.commit >>= fun _ => pure a).run (C.busy c c) =
        (.error e, C.busy c w) := Action.run_bind_of_error h
    rw [World.run_transact_of_begin (C.run_begin_resting c) hbody, C.release_busy, List.append_nil]
    rfl

end Copying

end Timetable
