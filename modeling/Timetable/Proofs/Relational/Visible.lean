import Timetable.Proofs.Relational.Effects

/-!
# What the program's statements see

The statements of a transaction see the tables that are pending, and after it has ended those of
the file (`Database.visible`). Nothing else of the store decides what they do: a statement that is
carried out was carried out on these tables (`execute_eq_ok`), and one that reads a table is
answered from them (`run_read_of_readable`) unless the table is missing or a page is damaged. A
batch that is accepted has been accepted one by one (`changeEach_append_eq_ok`).
-/

namespace Timetable.Relational

open Text (untilNul)

/-! ### Statements -/

/-- A statement that is carried out has found its tables and, if it looks at rows, no damage. -/
theorem Client.execute_eq_ok {s : Statement α} {blocked : Bool} {file file' : File} {c c' : Client}
    {a : α} (h : c.execute s blocked file = (.ok a, file', c')) :
    s.missing (c.pending.getD file.tables).names = none ∧
      ¬ (file.damaged = true ∧ s.visitsRows = true) ∧ file'.damaged = file.damaged ∧
      s.run (c.pending.getD file.tables) = .ok (a, c'.pending.getD file'.tables) := by
  simp only [Client.execute] at h
  split at h
  · cases h
  split at h
  · cases h
  next hmissing =>
  split at h
  · cases h
  split at h
  · cases h
  next hsound =>
  split at h
  · cases h
  next a' u hrun =>
  cases hpending : c.pending with
  | none =>
    rw [if_neg (by simp [hpending])] at h
    cases h
    simp only [hpending, Option.getD_none] at hmissing hrun ⊢
    exact ⟨hmissing, hsound, trivial, hrun⟩
  | some t =>
    rw [if_pos (by simp [hpending])] at h
    cases h
    simp only [hpending, Option.getD_some] at hmissing hrun ⊢
    exact ⟨hmissing, hsound, trivial, hrun⟩

/-- A statement that reads is carried out on tables that exist, unless a page is damaged. -/
theorem Client.execute_of_reads {s : Statement α} {blocked : Bool} {file : File} {c : Client}
    {a : α} {u : Tables} (hwrites : s.writes = false) (hsound : file.damaged = false)
    (hmissing : s.missing (c.pending.getD file.tables).names = none)
    (hrun : s.run (c.pending.getD file.tables) = .ok (a, u)) :
    (c.execute s blocked file).1 = .ok a := by
  simp only [Client.execute, hmissing, hsound, hwrites, hrun, Bool.false_and, Bool.and_false,
    Bool.false_eq_true, false_and, if_false]
  split <;> rfl

namespace Database

/-- The tables that the statements of the program see. -/
def visible (db : Database) : Tables := db.own.pending.getD db.file.tables

variable {x x' : Database × Transaction}

theorem execute_eq_ok {s : Statement α} {a : α} (h : (execute s).run x = (.ok (.ok a), x')) :
    ¬ (x.1.file.damaged = true ∧ s.visitsRows = true) ∧
      x'.1.file.damaged = x.1.file.damaged ∧ s.run x.1.visible = .ok (a, x'.1.visible) := by
  obtain ⟨db, tx⟩ := x
  rcases hexecute : db.own.execute s db.other.pending.isSome db.file with ⟨r, file, own⟩
  have hrun : (execute s).run (db, tx) = (.ok r, { db with file, own }, tx) := by
    show (Except.ok (db.own.execute s db.other.pending.isSome db.file).1, _, _) = _
    rw [hexecute]
  rw [hrun] at h
  cases h
  exact (Client.execute_eq_ok hexecute).2

/-- A table is there, and its rows can be read. -/
structure Readable (db : Database) (table : TableName) : Prop where
  undamaged : db.file.damaged = false
  mem_names : table ∈ db.visible.names

/-- A statement that reads one table is carried out on what is visible. -/
theorem run_read_of_readable {table : TableName} (h : x.1.Readable table) {s : Statement α} {a : α}
    {u : Tables} (hwrites : s.writes = false) (huses : s.uses = [table]) (hrefers : s.refers = [])
    (hrun : s.run x.1.visible = .ok (a, u)) : ((read s).run x).1 = .ok a := by
  obtain ⟨db, tx⟩ := x
  have hmissing : s.missing db.visible.names = none := by
    simp [Statement.missing, huses, hrefers, h.mem_names]
  have hexecute : (db.own.execute s db.other.pending.isSome db.file).1 = .ok a :=
    Client.execute_of_reads hwrites h.undamaged hmissing hrun
  have hdone : (execute s).run (db, tx) = (.ok (.ok a), _) :=
    Prod.ext (congrArg Except.ok hexecute) rfl
  rw [read, Action.run_bind_of_ok hdone]
  rfl

theorem run_query_of_readable {table : TableName} (h : x.1.Readable table) (f : Tables → α) :
    ((query [table] f).run x).1 = .ok (f x.1.visible) :=
  run_read_of_readable h rfl rfl rfl rfl

/-- A change that is carried out has met no damage, and has been made to what is visible. -/
theorem execute_change_eq_ok {uses refers : List TableName} {f : Tables → Except Fault Tables}
    (h : (execute (.change uses refers f)).run x = (.ok (.ok ()), x')) :
    x.1.file.damaged = false ∧ x'.1.file.damaged = false ∧
      f x.1.visible = .ok x'.1.visible := by
  obtain ⟨hsound, hfile, hmade⟩ := execute_eq_ok h
  have hundamaged : x.1.file.damaged = false :=
    eq_false_of_ne_true fun hdamaged => hsound ⟨hdamaged, rfl⟩
  exact ⟨hundamaged, hfile.trans hundamaged, Statement.run_change_eq_ok hmade⟩

theorem change_eq_ok {uses refers : List TableName} {f : Tables → Except Fault Tables}
    (h : (change uses refers f).run x = (.ok (.ok ()), x')) :
    x.1.file.damaged = false ∧ x'.1.file.damaged = false ∧
      f x.1.visible = .ok x'.1.visible := by
  obtain ⟨_ | ⟨⟨⟩⟩, m, hexecute, hrest⟩ := Action.run_bind_eq_ok h
  · cases hrest
  · cases hrest
    exact execute_change_eq_ok hexecute

theorem insertSchedule_eq_ok {q : Schedule}
    (h : (insertSchedule q).run x = (.ok (.ok ()), x')) :
    x.1.file.damaged = false ∧ x'.1.file.damaged = false ∧
      x.1.visible.insertSchedule (q.mapTexts untilNul) = .ok x'.1.visible := by
  rw [← bindSchedule_eq]
  obtain ⟨⟨_, fault⟩ | ⟨⟨⟩⟩, m, hexecute, hrest⟩ := Action.run_bind_eq_ok h
  · cases fault <;> cases hrest
  · cases hrest
    exact execute_change_eq_ok hexecute

/-! ### Batches -/

section Batches

variable {α : Type} {f : α → Action (Database × Transaction) Outcome} {as bs : List α}

/-- A batch that is accepted has been accepted one by one. -/
theorem changeEach_cons_eq_ok {a : α}
    (h : (changeEach f (a :: as)).run x = (.ok (.ok ()), x')) : ∃ m,
    (f a).run x = (.ok (.ok ()), m) ∧ (changeEach f as).run m = (.ok (.ok ()), x') := by
  obtain ⟨_ | ⟨⟨⟩⟩, m, ha, hrest⟩ := Action.run_bind_eq_ok h
  · cases hrest
  · exact ⟨m, ha, hrest⟩

theorem changeEach_append_eq_ok (h : (changeEach f (as ++ bs)).run x = (.ok (.ok ()), x')) :
    ∃ m, (changeEach f as).run x = (.ok (.ok ()), m) ∧
      (changeEach f bs).run m = (.ok (.ok ()), x') := by
  induction as generalizing x with
  | nil => exact ⟨x, rfl, h⟩
  | cons a as ih =>
    obtain ⟨n, ha, hrest⟩ := changeEach_cons_eq_ok h
    obtain ⟨m, has, hbs⟩ := ih hrest
    refine ⟨m, ?_, hbs⟩
    rw [changeEach, Action.run_bind_of_ok ha]
    exact has

/-- What each change keeps, a batch that is accepted keeps. -/
theorem changeEach_keeps {P : Database → Prop}
    (hstep : ∀ a y y', (f a).run y = (.ok (.ok ()), y') → P y.1 → P y'.1)
    (h : (changeEach f as).run x = (.ok (.ok ()), x')) (hx : P x.1) : P x'.1 := by
  induction as generalizing x with
  | nil =>
    cases h
    exact hx
  | cons a as ih =>
    obtain ⟨m, ha, hrest⟩ := changeEach_cons_eq_ok h
    exact ih hrest (hstep a x m ha hx)

end Batches

end Database

end Timetable.Relational
