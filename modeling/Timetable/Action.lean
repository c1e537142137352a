import Timetable.Failure

/-!
# Computations that may fail halfway

An `Action σ α` changes a state of type `σ` and ends with a value or a failure. What it changed
before a failure stays changed: undoing is the business of transactions. `attempt` turns a failure
into a value, and `onPart` runs an action on a part of a larger state.
-/

namespace Timetable

/-- A computation over a state, which it leaves behind whether or not it fails. -/
def Action (σ α : Type) : Type := σ → Except Failure α × σ

namespace Action

/-- Runs an action from a state. -/
def run (x : Action σ α) (s : σ) : Except Failure α × σ := x s

instance : Monad (Action σ) where
  pure a := fun s => (.ok a, s)
  bind x f := fun s =>
    match x s with
    | (.ok a, s') => f a s'
    | (.error e, s') => (.error e, s')

/-- Ends with a failure. -/
def fail (e : Failure) : Action σ α := fun s => (.error e, s)

/-- The current state. -/
def read : Action σ σ := fun s => (.ok s, s)

/-- Replaces the state. -/
def write (s : σ) : Action σ Unit := fun _ => (.ok (), s)

/-- Changes the state. -/
def update (f : σ → σ) : Action σ Unit := fun s => (.ok (), f s)

/-- A value and a change of the state, both without failure. -/
def ofState (f : σ → α × σ) : Action σ α := fun s => (.ok (f s).1, (f s).2)

/-- A value or a failure that does not depend on the state. -/
def ofExcept (r : Except Failure α) : Action σ α := fun s => (r, s)

/-- Ends with the result of an action, be it a failure. -/
def attempt (x : Action σ α) : Action σ (Except Failure α) := fun s => (.ok (x s).1, (x s).2)

/-- Runs an action on a part of the state, which `part` reads and `put` replaces. -/
def onPart (part : σ → ρ) (put : ρ → σ → σ) (x : Action ρ α) : Action σ α := fun s =>
  ((x (part s)).1, put (x (part s)).2 s)

@[simp] theorem run_pure (a : α) (s : σ) : (pure a : Action σ α).run s = (.ok a, s) := rfl

@[simp] theorem run_fail (e : Failure) (s : σ) : (fail e : Action σ α).run s = (.error e, s) := rfl

theorem run_bind_of_ok {x : Action σ α} {f : α → Action σ β} {s s' : σ} {a : α}
    (h : x.run s = (.ok a, s')) : (x >>= f).run s = (f a).run s' := by
  have h : x s = (.ok a, s') := h
  simp [run, bind, h]

theorem run_bind_of_error {x : Action σ α} {f : α → Action σ β} {s s' : σ} {e : Failure}
    (h : x.run s = (.error e, s')) : (x >>= f).run s = (.error e, s') := by
  have h : x s = (.error e, s') := h
  simp [run, bind, h]

/-- Actions that succeed one after the other have each succeeded. -/
theorem run_bind_eq_ok {x : Action σ α} {f : α → Action σ β} {s s' : σ} {b : β}
    (h : (x >>= f).run s = (.ok b, s')) :
    ∃ a m, x.run s = (.ok a, m) ∧ (f a).run m = (.ok b, s') := by
  rcases hx : x.run s with ⟨e | a, m⟩
  · rw [run_bind_of_error hx] at h
    cases h
  · rw [run_bind_of_ok hx] at h
    exact ⟨a, m, rfl, h⟩

theorem run_bind_congr {x y : Action σ α} {f : α → Action σ β} {s t : σ}
    (h : x.run s = y.run t) : (x >>= f).run s = (y >>= f).run t := by
  rcases hy : y.run t with ⟨e | a, t'⟩
  · rw [run_bind_of_error hy, run_bind_of_error (h.trans hy)]
  · rw [run_bind_of_ok hy, run_bind_of_ok (h.trans hy)]

end Action

/-- Goes on only if a store did what `context` names. -/
def Outcome.orFail (context : String) : Outcome → Except Failure Unit
  | .ok () => .ok ()
  | .error refusal => .error (.refused context refusal)

end Timetable
