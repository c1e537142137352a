import Mathlib.Logic.Function.Basic
import Timetable.Proofs.Parity

/-!
# A store and its transaction objects

A client may have any number of transaction objects at a time, end each of them as often as it likes,
and go on sending errands through one that has ended. `Desk` is a store with such objects, and
`Desk.step` is what one deed does. A deed touches the store and its own object and no other object
(`objects_step_of_ne`), so what an object has seen since its transaction began can be told from its
own errands: `errands`.
-/

namespace Timetable

/-! ### Errands -/

/-- A request that reads. -/
inductive Inquiry
  | findDeployment (id : String)
  | listDeployments (offset : UInt64) (limit : Option UInt64)
  | listSchedules (deploymentId : String)
  | statelessRunIds (ids : List String)
  | findRun (id : String)
  | listRuns (deploymentId : String)
  | listStates (runId : String)

namespace Inquiry

/-- What an inquiry finds. -/
def Finding : Inquiry → Type
  | findDeployment _ => Option Deployment
  | listDeployments _ _ => List Deployment
  | listSchedules _ => List Schedule
  | statelessRunIds _ => Outcome × List String
  | findRun _ => Option FlowRun
  | listRuns _ => List FlowRun
  | listStates _ => List RunState

/-- Makes an inquiry in a transaction. -/
def request [Repository σ τ] : (q : Inquiry) → Action (σ × τ) q.Finding
  | findDeployment id => Repository.findDeployment id
  | listDeployments offset limit => Repository.listDeployments offset limit
  | listSchedules id => Repository.listSchedules id
  | statelessRunIds ids => Repository.statelessRunIds ids
  | findRun id => Repository.findRun id
  | listRuns id => Repository.listRuns id
  | listStates id => Repository.listStates id

end Inquiry

/-- What can be asked for through a transaction object. -/
inductive Errand
  | write (w : Write)
  | read (q : Inquiry)

/-- The store and the object after an errand. -/
def Errand.run [Repository σ τ] (s : σ × τ) : Errand → σ × τ
  | write w => ((w.request : Action (σ × τ) Outcome).run s).2
  | read q => ((q.request : Action (σ × τ) q.Finding).run s).2

/-- What can be done with transaction objects, which go by names. -/
inductive Deed (ι : Type)
  | begin (i : ι)
  | errand (i : ι) (e : Errand)
  | commit (i : ι)
  | rollback (i : ι)
  | destroy (i : ι)

namespace Deed

/-- The object that a deed is about. -/
def object : Deed ι → ι
  | begin i | errand i _ | commit i | rollback i | destroy i => i

end Deed

/-- The errands of one object, in the order in which they were sent. -/
def errands [DecidableEq ι] (i : ι) (ds : List (Deed ι)) : List Errand :=
  ds.filterMap fun
    | .errand j e => if j = i then some e else none
    | .begin _ | .commit _ | .rollback _ | .destroy _ => none

section Errands

variable {ι : Type} [DecidableEq ι] {i : ι} {ds ds' : List (Deed ι)} {e : Errand}

theorem errands_cons_errand (i j : ι) (e : Errand) (ds : List (Deed ι)) :
    errands i (.errand j e :: ds) = if j = i then e :: errands i ds else errands i ds := by
  by_cases h : j = i <;> simp [errands, h]

theorem errands_append : errands i (ds ++ ds') = errands i ds ++ errands i ds' :=
  List.filterMap_append

theorem mem_errands : e ∈ errands i ds ↔ .errand i e ∈ ds := by
  rw [errands, List.mem_filterMap]
  constructor
  · rintro ⟨d, hd, h⟩
    cases d with
    | errand j e' =>
      dsimp only at h
      split at h
      · next hji =>
        cases h
        rwa [← hji]
      · cases h
    | begin j | commit j | rollback j | destroy j => cases h
  · exact fun h => ⟨_, h, by simp⟩

end Errands

/-! ### The desk -/

/-- A store, and the transaction objects that there are. -/
structure Desk (σ τ ι : Type) where
  store : σ
  objects : ι → Option τ

namespace Desk

/-- A store without transaction objects. -/
def opening (s : σ) : Desk σ τ ι := ⟨s, fun _ => none⟩

variable [DecidableEq ι]

/-- Puts the store and an object back. -/
def put (x : Desk σ τ ι) (i : ι) (s : σ × τ) : Desk σ τ ι :=
  ⟨s.1, Function.update x.objects i (some s.2)⟩

/-- Puts the store back and takes an object away. -/
def drop (x : Desk σ τ ι) (i : ι) (s : σ) : Desk σ τ ι := ⟨s, Function.update x.objects i none⟩

/-- Uses an object, if there is one with that name. -/
def use (x : Desk σ τ ι) (i : ι) (f : σ × τ → σ × τ) : Desk σ τ ι :=
  match x.objects i with
  | some tx => x.put i (f (x.store, tx))
  | none => x

variable [Repository σ τ]

/-- Does one deed. A transaction begins only under a name that is free. -/
def step (x : Desk σ τ ι) : Deed ι → Desk σ τ ι
  | .begin i =>
    match x.objects i, (Repository.begin : Action σ τ).run x.store with
    | none, (.ok tx, s) => x.put i (s, tx)
    | none, (.error _, s) => { x with store := s }
    | some _, _ => x
  | .errand i e => x.use i fun s => e.run s
  | .commit i => x.use i fun s => ((Repository.commit : Action (σ × τ) Unit).run s).2
  | .rollback i => x.use i fun s => ((Repository.rollback : Action (σ × τ) Unit).run s).2
  | .destroy i =>
    match x.objects i with
    | some tx => x.drop i (Repository.release (x.store, tx)).2
    | none => x

/-- Does one deed after the other. -/
def after (x : Desk σ τ ι) (ds : List (Deed ι)) : Desk σ τ ι := ds.foldl step x

end Desk

/-! ### What a deed leaves alone -/

namespace Desk

section Use

variable {σ τ ι : Type} [DecidableEq ι] {x : Desk σ τ ι} {i j : ι} {tx : τ} {f : σ × τ → σ × τ}

theorem use_of_some (h : x.objects i = some tx) : x.use i f = x.put i (f (x.store, tx)) := by
  rw [use, h]

theorem use_of_none (h : x.objects i = none) : x.use i f = x := by
  rw [use, h]

@[simp] theorem objects_put_self (s : σ × τ) : (x.put i s).objects i = some s.2 :=
  Function.update_self _ _ _

theorem objects_put_of_ne (s : σ × τ) (h : j ≠ i) : (x.put i s).objects j = x.objects j :=
  Function.update_of_ne h _ _

@[simp] theorem objects_drop_self (s : σ) : (x.drop i s).objects i = none :=
  Function.update_self _ _ _

theorem objects_drop_of_ne (s : σ) (h : j ≠ i) : (x.drop i s).objects j = x.objects j :=
  Function.update_of_ne h _ _

/-- The objects that are left are others than the one that is gone. -/
theorem objects_drop_eq_some {s : σ} : (x.drop i s).objects j = some tx ↔
    j ≠ i ∧ x.objects j = some tx := by
  by_cases h : j = i
  · subst h
    simp
  · simp [objects_drop_of_ne s h, h]

/-- An object that is put back as it was, on the store as it was, changes nothing. -/
theorem put_self (h : x.objects i = some tx) : x.put i (x.store, tx) = x := by
  rw [put, ← h, Function.update_eq_self]

theorem objects_use_of_ne (h : j ≠ i) : (x.use i f).objects j = x.objects j := by
  unfold use
  split
  · exact objects_put_of_ne _ h
  · rfl

end Use

section Step

variable {σ τ ι : Type} [Repository σ τ] [DecidableEq ι] {x : Desk σ τ ι} {i j : ι} {tx : τ} {s : σ}

@[simp] theorem after_nil (x : Desk σ τ ι) : x.after [] = x := rfl

@[simp] theorem after_cons (x : Desk σ τ ι) (d : Deed ι) (ds : List (Deed ι)) :
    x.after (d :: ds) = (x.step d).after ds := rfl

theorem after_append (x : Desk σ τ ι) (ds ds' : List (Deed ι)) :
    x.after (ds ++ ds') = (x.after ds).after ds' :=
  List.foldl_append

theorem step_begin_of_some (h : x.objects i = some tx) : x.step (.begin i) = x := by
  simp only [step, h]

theorem step_begin_of_ok (h : x.objects i = none)
    (hrun : (Repository.begin : Action σ τ).run x.store = (.ok tx, s)) :
    x.step (.begin i) = x.put i (s, tx) := by
  simp only [step, h, hrun]

theorem step_begin_of_error (h : x.objects i = none) {e : Failure}
    (hrun : (Repository.begin : Action σ τ).run x.store = (.error e, s)) :
    x.step (.begin i) = { x with store := s } := by
  simp only [step, h, hrun]

theorem step_errand (e : Errand) : x.step (.errand i e) = x.use i fun s => e.run s := rfl

theorem step_commit : x.step (.commit i) =
    x.use i fun s => ((Repository.commit : Action (σ × τ) Unit).run s).2 := rfl

theorem step_rollback : x.step (.rollback i) =
    x.use i fun s => ((Repository.rollback : Action (σ × τ) Unit).run s).2 := rfl

theorem step_destroy_of_some (h : x.objects i = some tx) :
    x.step (.destroy i) = x.drop i (Repository.release (x.store, tx)).2 := by
  simp only [step, h]

theorem step_destroy_of_none (h : x.objects i = none) : x.step (.destroy i) = x := by
  simp only [step, h]

theorem after_concat (x : Desk σ τ ι) (ds : List (Deed ι)) (d : Deed ι) :
    x.after (ds ++ [d]) = (x.after ds).step d :=
  x.after_append ds [d]

/-- A deed leaves all objects alone but the one that it is about. -/
theorem objects_step_of_ne (d : Deed ι) (h : j ≠ d.object) :
    (x.step d).objects j = x.objects j := by
  cases d with
  | begin i =>
    cases hi : x.objects i with
    | some tx => rw [step_begin_of_some hi]
    | none =>
      rcases hrun : (Repository.begin : Action σ τ).run x.store with ⟨e | tx, s⟩
      · rw [step_begin_of_error hi hrun]
      · rw [step_begin_of_ok hi hrun]
        exact objects_put_of_ne _ h
  | errand i e => exact objects_use_of_ne h
  | commit i => exact objects_use_of_ne h
  | rollback i => exact objects_use_of_ne h
  | destroy i =>
    cases hi : x.objects i with
    | some tx =>
      rw [step_destroy_of_some hi]
      exact objects_drop_of_ne _ h
    | none => rw [step_destroy_of_none hi]

/-- A deed about a name that is free does nothing unless it begins a transaction. -/
theorem step_of_none {d : Deed ι} (h : x.objects d.object = none) (hd : ∀ i, d ≠ .begin i) :
    x.step d = x := by
  cases d with
  | begin i => exact absurd rfl (hd i)
  | errand i e =>
    rw [step_errand]
    exact use_of_none h
  | commit i =>
    rw [step_commit]
    exact use_of_none h
  | rollback i =>
    rw [step_rollback]
    exact use_of_none h
  | destroy i => exact step_destroy_of_none h

end Step

end Desk

end Timetable
