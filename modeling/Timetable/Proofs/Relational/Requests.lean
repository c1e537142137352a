import Timetable.Proofs.Desk
import Timetable.Proofs.Service

/-!
# Requests as series of statements

A request carries out statements one after the other. So what each statement keeps, a request keeps
(`keeps_write`, `keeps_inquiry`), and nothing has to be known of the client that carries them out:
pages may be damaged and tables may be missing.
-/

namespace Timetable.Relational

/-- A statement after which the tables are what they were before. -/
def Statement.ReadsOnly (s : Statement α) : Prop := ∀ t a u, s.run t = .ok (a, u) → u = t

theorem Statement.readsOnly_query (uses : List TableName) (f : Tables → α) :
    (query uses f).ReadsOnly := by
  rintro t a u h
  cases h
  rfl

theorem Statement.readsOnly_queryUpTo (limit : Option UInt64) (uses : List TableName)
    (f : Tables → α) : (queryUpTo limit uses f).ReadsOnly := by
  rintro t a u h
  cases h
  rfl

namespace Database

variable {I : Database × Transaction → Prop}

theorem keeps_read {s : Statement α} (h : Keeps I (execute s)) : Keeps I (read s) := by
  refine .bind h fun x => ?_
  split <;> exact fun _ hx => hx

theorem keeps_changeEach {change : α → Action (Database × Transaction) Outcome}
    (h : ∀ a, Keeps I (change a)) (as : List α) : Keeps I (changeEach change as) := by
  induction as with
  | nil => exact .pure _
  | cons a as ih =>
    refine .bind (h a) fun x => ?_
    split
    · exact ih
    · exact .pure _

section Inquiry

variable (h : ∀ {α : Type} (s : Statement α), s.ReadsOnly → Keeps I (execute s))

include h

theorem keeps_query (uses : List TableName) (f : Tables → α) : Keeps I (query uses f) :=
  keeps_read (h _ (Statement.readsOnly_query uses f))

theorem keeps_statelessRunIds (found : List String) (batches : List (List String)) :
    Keeps I (statelessRunIds found batches) := by
  induction batches generalizing found with
  | nil => exact .pure _
  | cons ids batches ih =>
    refine .bind (h _ (Statement.readsOnly_query _ _)) fun x => ?_
    split
    · exact ih _
    · exact .pure _

/-- What all statements that only read keep, a request that reads keeps. -/
theorem keeps_inquiry (q : Inquiry) :
    Keeps I (q.request : Action (Database × Transaction) q.Finding) := by
  cases q with
  | findDeployment id | listSchedules id | findRun id | listRuns id | listStates id =>
    exact keeps_query h _ _
  | listDeployments offset limit => exact keeps_read (h _ (Statement.readsOnly_queryUpTo _ _ _))
  | statelessRunIds ids => exact keeps_statelessRunIds h _ _

end Inquiry

section Write

variable (h : ∀ {α : Type} (s : Statement α), s.visitsRows = true → Keeps I (execute s))

include h

theorem keeps_change (uses refers : List TableName) (f : Tables → Except Fault Tables) :
    Keeps I (change uses refers f) := by
  refine .bind (h _ rfl) fun x => ?_
  split <;> exact .pure _

theorem keeps_delete (uses refers : List TableName) (f : Tables → Nat × Tables)
    (absent : Refusal) : Keeps I (delete uses refers f absent) := by
  refine .bind (h _ rfl) fun x => ?_
  split <;> exact .pure _

theorem keeps_insertSchedule (s : Schedule) : Keeps I (insertSchedule s) := by
  refine .bind (h _ rfl) fun x => ?_
  split <;> exact .pure _

/-- An engine that is too old for links carries out no statement at all. -/
theorem keeps_linkBatches (strategy : LinkStrategy) (ids : List String) :
    Keeps I (linkBatches strategy ids) := by
  intro x hx
  by_cases hknows : x.1.version.knows strategy = true
  · rw [run_linkBatches_of_knows hknows]
    exact keeps_changeEach (fun _ => keeps_change h _ _ _) _ x hx
  · rw [run_linkBatches_of_not_knows hknows]
    exact hx

/-- What all statements that look at rows keep, a request that writes keeps. -/
theorem keeps_write (w : Write) :
    Keeps I (w.request : Action (Database × Transaction) Outcome) := by
  cases w with
  | change c =>
    cases c with
    | insertDeployment d => exact keeps_change h _ _ _
    | deleteDeployment id | deleteSchedule id => exact keeps_delete h _ _ _ _
    | insertSchedule s => exact keeps_insertSchedule h s
  | insertRuns rs | insertStates ss => exact keeps_changeEach (fun _ => keeps_change h _ _ _) _
  | linkStates strategy ids => exact keeps_linkBatches h strategy ids

end Write

end Database

end Timetable.Relational
