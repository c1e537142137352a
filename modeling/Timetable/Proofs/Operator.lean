import Timetable.CommandLine.Operator
import Timetable.Json
import Timetable.Proofs.Relational.Spares

/-!
# What an operator's orders change

An order that is carried out does to the tables of the chosen database what it says
(`Order.Effect`), and to no other tables anything; one that fails, wherever that happens, changes
nothing: `changes_only_what_is_ordered`. Nothing is assumed of the words of the operator, of what
stands on the disk, or of what the configuration chooses. Each order but one is one transaction
around one request, so `Database.exists_of_transact` says what it commits.
-/

namespace Timetable

open Relational

/-! ### Database files -/

namespace Disk

/-- The tables of the database file with a name. Those that are missing have no rows, nor have those
of a file that is missing. -/
def tables (d : Disk) (name : Path) : Tables :=
  match d.files.lookup name with
  | some (.database file) => file.tables.create
  | _ => .empty

/-- The name of the file that a path leads to, if it leads to one. -/
def nameOf? (path : String) : Option Path :=
  match Locator.ofPath path with
  | .ok ⟨.file name, _, _⟩ => some name
  | _ => none

theorem lookup_filter_ne {α : Type} {name other : Path} (h : name ≠ other) :
    ∀ files : List (Path × α), (files.filter fun e => e.1 ≠ other).lookup name = files.lookup name
  | [] => rfl
  | (k, a) :: files => by
    by_cases hk : k = other
    · rw [List.filter_cons_of_neg (by simpa using hk), lookup_filter_ne h, List.lookup_cons,
        beq_eq_false_iff_ne.2 (hk ▸ h)]
    · rw [List.filter_cons_of_pos (by simpa using hk), List.lookup_cons, List.lookup_cons,
        lookup_filter_ne h]

/-- Writing a database back changes the tables of one file. -/
theorem tables_save (d : Disk) (path : String) (file : File) (name : Path) :
    (d.save path file).tables name =
      if nameOf? path = some name then file.tables.create else d.tables name := by
  rcases hpath : Locator.ofPath path with e | ⟨_ | other, access, isImmutable⟩
  · simp [nameOf?, save, hpath]
  · simp [nameOf?, save, hpath]
  · simp only [nameOf?, save, hpath, Option.some.injEq, tables, List.lookup_cons]
    by_cases h : other = name
    · rw [if_pos h, beq_iff_eq.2 h.symm]
    · rw [if_neg h, beq_eq_false_iff_ne.2 (Ne.symm h), lookup_filter_ne (Ne.symm h)]

/-- The tables of a file are those that are found there, or none yet. -/
theorem tables_of_find {d : Disk} {path : String} {file : File} {name : Path}
    (hfind : d.find path = .ok file) (hname : nameOf? path = some name) :
    d.tables name = file.tables.create := by
  rcases hpath : Locator.ofPath path with e | ⟨_ | other, access, isImmutable⟩
  · simp [nameOf?, hpath] at hname
  · simp [nameOf?, hpath] at hname
  · simp only [nameOf?, hpath, Option.some.injEq] at hname
    subst hname
    simp only [find, hpath, Except.mapError, bind, Except.bind] at hfind
    rcases hlookup : d.files.lookup other with _ | found | _ <;>
      simp only [tables, hlookup] at hfind ⊢
    · -- a file that is missing is made, without tables
      split at hfind
      · cases hfind
      split at hfind <;> cases hfind
      rfl
    · split at hfind <;> cases hfind
      rfl
    · cases hfind

end Disk

namespace CommandLine

open Text (NulFree)

/-! ### What orders say -/

namespace Order

/-- What an order says that it does to tables, once it has answered. -/
def Effect (output : String) (u v : Tables) : Order → Prop
  | createDeployment name flowId => ∃ d : Deployment,
    output = d.id ++ "\n" ∧ d.name = name ∧ d.flowId = flowId ∧
      (∀ e ∈ u.deploymentRows, e.id ≠ d.id) ∧
      v = { u with deployments := some (u.deploymentRows ++ [d]) }
  | deleteDeployment id =>
    (∃ d ∈ u.deploymentRows, d.id = id) ∧
      v = { u with
        deployments := some (u.deploymentRows.filter (·.id ≠ id))
        schedules := some (u.scheduleRows.filter (·.deploymentId ≠ id)) }
  | addSchedule deploymentId intervalSeconds anchor parameters => ∃ s : Schedule,
    output = s.id ++ "\n" ∧ s.deploymentId = deploymentId ∧
      s.intervalSeconds = intervalSeconds ∧ (∀ t ∈ anchor, s.anchor = t) ∧
      s.parameters = parameters ∧ (∀ q ∈ u.scheduleRows, q.id ≠ s.id) ∧
      v = { u with schedules := some (u.scheduleRows ++ [s]) }
  | scheduleRuns _ _ => u.Spares v
  | listDeployments _ _ | listSchedules _ | listRuns _ => v = u

/-- An order that is carried out does what it says, and one that fails does nothing. -/
def Faithful (order : Order) (u v : Tables) : Except Failure (List String) → Prop
  | .ok answer => order.Effect (lines answer) u v
  | .error _ => v = u

/-- The texts of an order. -/
def texts : Order → List String
  | createDeployment name flowId => [name, flowId]
  | addSchedule deploymentId _ _ parameters => [deploymentId, parameters]
  | deleteDeployment id | listSchedules id | scheduleRuns id _ | listRuns id => [id]
  | listDeployments _ _ => []

theorem nulFree_parameters {isObject : String → Bool} {text? : Option String} {text : String}
    (htext : ∀ x ∈ text?, NulFree x) (h : parameters isObject text? = .ok text) : NulFree text := by
  cases text? with
  | none =>
    cases h
    decide
  | some x =>
    simp only [parameters] at h
    split at h
    · cases h
      exact htext _ rfl
    · cases h

/-- The texts of an order are words of it, or the parameters that need not be given. -/
theorem nulFree_texts {isObject : String → Bool} {words : List String}
    (hwords : ∀ x ∈ words, NulFree x) {order : Order}
    (h : ofArguments isObject words = .ok order) : ∀ x ∈ order.texts, NulFree x := by
  unfold ofArguments at h
  split at h
  · cases h
    simp_all [texts]
  · simp only [bind, Except.bind] at h
    split at h
    · cases h
    split at h <;> cases h
    simp [texts]
  · cases h
    simp_all [texts]
  · next deploymentId interval rest =>
    simp only [bind, Except.bind] at h
    split at h
    · cases h
    split at h
    · cases h
    split at h
    · cases h
    next parameters hparameters =>
    split at h <;> cases h
    have hrest : ∀ x ∈ rest[1]?, NulFree x := fun x hx =>
      hwords x (by simp [List.mem_of_getElem? hx])
    have hparameters := nulFree_parameters hrest hparameters
    simp_all [texts]
  · cases h
    simp_all [texts]
  · simp only [bind, Except.bind] at h
    split at h <;> cases h
    simp_all [texts]
  · cases h
    simp_all [texts]
  · cases h

/-! ### Orders on a database -/

section Database

variable {u v : Tables} {order : Order} {output : String}

/-- What is said of a database does not depend on whether missing tables have been added to it. -/
theorem Effect.create (h : order.Effect output u v) (hu : u.Whole) :
    order.Effect output u v.create := by
  cases order with
  | createDeployment name flowId =>
    obtain ⟨d, houtput, hname, hflow, hnew, rfl⟩ := h
    refine ⟨d, houtput, hname, hflow, hnew, ?_⟩
    exact Tables.Whole.create_eq { hu with deployments := rfl }
  | deleteDeployment id =>
    obtain ⟨hd, rfl⟩ := h
    exact ⟨hd, Tables.Whole.create_eq { hu with deployments := rfl, schedules := rfl }⟩
  | addSchedule deploymentId intervalSeconds anchor parameters =>
    obtain ⟨s, houtput, hdeployment, hinterval, hanchor, hparameters, hnew, rfl⟩ := h
    refine ⟨s, houtput, hdeployment, hinterval, hanchor, hparameters, hnew, ?_⟩
    exact Tables.Whole.create_eq { hu with schedules := rfl }
  | scheduleRuns => exact Tables.Spares.create h hu
  | listDeployments | listSchedules | listRuns =>
    obtain rfl : v = u := h
    exact hu.create_eq

theorem Faithful.create {r : Except Failure (List String)} (h : order.Faithful u v r)
    (hu : u.Whole) : order.Faithful u v.create r := by
  cases r with
  | ok answer => exact Effect.create h hu
  | error e =>
    obtain rfl : v = u := h
    exact hu.create_eq

end Database

section Perform

variable {db : Database} {clock : Int} {log : List Log.Entry} {w : World Database}
  {order : Order} {r : Except Failure (List String)}

/-- An order that is one transaction does what the transaction commits. -/
theorem faithful_of_transact {α : Type} {body : Action (Database × Relational.Transaction) α}
    {f : α → List String} (hkeeps : ∀ c, Keeps (Database.Open c) body)
    (hleads : Database.Leads (· = db.file.tables) body fun a v =>
      order.Effect (lines (f a)) db.file.tables v)
    (hidle : db.Idle)
    (hrun : (World.transact body >>= fun a => pure (f a)).run ⟨db, clock, log⟩ = (r, w)) :
    order.Faithful db.file.tables w.store.file.tables r := by
  rcases hwork : (World.transact body).run ⟨db, clock, log⟩ with ⟨e | a, w'⟩
  · rw [Action.run_bind_of_error hwork] at hrun
    cases hrun
    exact congrArg File.tables (Database.file_of_transact_error hkeeps hidle hwork)
  · rw [Action.run_bind_of_ok hwork] at hrun
    cases hrun
    exact Database.exists_of_transact hkeeps hleads hidle hwork

/-- A line of its own is all that is answered about something new. -/
theorem lines_singleton (x : String) : lines [x] = x ++ "\n" := by
  simp [lines, String.join]

/-- Every order is faithful to what it says. -/
theorem faithful (hidle : db.Idle) (hwhole : db.file.tables.Whole)
    (hplain : ∀ x ∈ order.texts, NulFree x) (seed : UInt32) (strategy : LinkStrategy)
    (hrun : (order.perform seed strategy).run ⟨db, clock, log⟩ = (r, w)) :
    order.Faithful db.file.tables w.store.file.tables r := by
  have hread : (Action.read : Action (World Database) (World Database)).run ⟨db, clock, log⟩ =
      (.ok ⟨db, clock, log⟩, ⟨db, clock, log⟩) := rfl
  have hfresh : NulFree (freshId seed) := nulFree_uuid _
  cases order with
  | createDeployment name flowId =>
    rw [perform, Action.run_bind_of_ok hread] at hrun
    refine faithful_of_transact (fun c => ?_) ?_ hidle hrun
    · exact .demand _ (Database.keeps_write_open (.change (.insertDeployment _)))
    refine ((Database.Leads.insertDeployment ?_).demand _).mono fun _ v h => ?_
    · exact List.forall_mem_cons.2 ⟨hfresh, hplain⟩
    · exact ⟨_, lines_singleton _, rfl, rfl, h rfl⟩
  | deleteDeployment id =>
    refine faithful_of_transact (fun c => ?_) ?_ hidle hrun
    · exact .demand _ (Database.keeps_write_open (.change (.deleteDeployment _)))
    have hid : NulFree id := hplain id List.mem_cons_self
    exact ((Database.Leads.deleteDeployment hwhole hid).demand _).mono fun _ v h => h rfl
  | addSchedule deploymentId intervalSeconds anchor parameters =>
    rw [perform, Action.run_bind_of_ok hread] at hrun
    refine faithful_of_transact (fun c => ?_) ?_ hidle hrun
    · exact .demand _ (Database.keeps_write_open (.change (.insertSchedule _)))
    refine ((Database.Leads.insertSchedule_of_nulFree ?_).demand _).mono fun _ v h => ?_
    · exact List.forall_mem_cons.2 ⟨hfresh, hplain⟩
    · refine ⟨_, lines_singleton _, rfl, rfl, fun t ht => ?_, rfl, h rfl⟩
      rw [Option.mem_def.1 ht]
      rfl
  | scheduleRuns deploymentId maxRuns =>
    rcases hwork : (Timetable.scheduleRuns strategy ⟨deploymentId, none, none, maxRuns⟩).run
      ⟨db, clock, log⟩ with ⟨e | created, w'⟩
    · rw [perform, Action.run_bind_of_error hwork] at hrun
      cases hrun
      exact congrArg File.tables (Database.file_of_scheduleRuns_error hidle hwork)
    · rw [perform, Action.run_bind_of_ok hwork] at hrun
      cases hrun
      exact Database.spares_of_scheduleRuns hidle hwork
  | listDeployments offset limit =>
    refine faithful_of_transact (fun c => ?_) ?_ hidle hrun
    · exact Database.keeps_inquiry_open (.listDeployments offset limit)
    have hreads := Statement.readsOnly_queryUpTo limit [.deployment]
      (Tables.listDeployments offset limit)
    exact (Database.Leads.read hreads).mono fun _ v h => h.1
  | listSchedules deploymentId =>
    refine faithful_of_transact (fun c => ?_) ?_ hidle hrun
    · exact Database.keeps_inquiry_open (.listSchedules deploymentId)
    exact Database.Leads.query.mono fun _ v h => h.1
  | listRuns deploymentId =>
    refine faithful_of_transact (fun c => ?_) ?_ hidle hrun
    · exact Database.keeps_inquiry_open (.listRuns deploymentId)
    exact Database.Leads.query.mono fun _ v h => h.1

end Perform

end Order

/-! ### The program -/

/-- The work of the operator's program: it reads an order and carries it out. -/
def operatorJob (s : Surroundings) (words : List String) : Job (Except Misuse (List String)) :=
  fun _ setup =>
    match Order.ofArguments s.isObject words with
    | .error m => return .error m
    | .ok order => do
      let answer ← order.perform s.seed setup.strategy
      return .ok answer

/-- What the operator's program says of its work. -/
def operatorReport (command : String) (done : Outcome (Except Misuse (List String))) : Report :=
  match done.result with
  | .ok (.ok answer) => ⟨0, lines answer, "", done.log⟩
  | .ok (.error m) => m.report done.log
  | .error e => ⟨2, "", lines [e.text], done.log ++ [commandFailed command e]⟩

theorem runOperator_eq (s : Surroundings) {args : List String} {path command : String}
    {rest : List String} (h : arguments args = path :: command :: rest) :
    runOperator s args =
      (operatorReport command (s.operate path (operatorJob s (command :: rest))),
        (s.operate path (operatorJob s (command :: rest))).disk) := by
  rw [runOperator, h]
  show (match (s.operate path (operatorJob s (command :: rest))).result with
    | .ok (.ok answer) => _
    | .ok (.error m) => _
    | .error e => _) = _
  unfold operatorReport
  rcases (s.operate path (operatorJob s (command :: rest))).result with e | m | answer <;> rfl

theorem exitCode_report (m : Misuse) (log : List Log.Entry) : (m.report log).exitCode = 1 := by
  unfold Misuse.report
  split <;> rfl

/-- The exit code is 0 exactly if an order has been answered. -/
theorem exitCode_operatorReport {command : String}
    {done : Outcome (Except Misuse (List String))} :
    (operatorReport command done).exitCode = 0 ↔ ∃ answer, done.result = .ok (.ok answer) := by
  obtain ⟨e | m | answer, log, disk⟩ := done
  · simp [operatorReport]
  · simp [operatorReport, exitCode_report]
  · simp [operatorReport]

/-- Whoever works on a store has left it alone and not answered, or has carried an order out. -/
theorem run_operatorJob [Repository σ τ] {s : Surroundings} {words : List String} {clock : Int}
    {c : Config} {store : σ} {r : Except Failure (Except Misuse (List String))} {w : World σ}
    (h : Job.run (operatorJob s words) clock c store = (r, w)) :
    (w.store = store ∧ ∀ answer, r ≠ .ok (.ok answer)) ∨
      ∃ order strategy log x, Order.ofArguments s.isObject words = .ok order ∧
        (order.perform s.seed strategy).run ⟨store, clock, log⟩ = (x, w) ∧ r = x.map .ok := by
  rw [Job.run, Application.build] at h
  cases hsetup : Setup.resolve (Repository.dialect store) c.scheduler with
  | error e =>
    rw [hsetup] at h
    cases h
    exact .inl ⟨rfl, by simp⟩
  | ok setup =>
    rw [hsetup] at h
    have h : (operatorJob s words c setup).run ⟨store, clock, [setup.ready]⟩ = (r, w) := h
    rw [operatorJob] at h
    cases horder : Order.ofArguments s.isObject words with
    | error m =>
      rw [horder] at h
      cases h
      exact .inl ⟨rfl, by simp⟩
    | ok order =>
      rw [horder] at h
      rcases hperform : (order.perform s.seed setup.strategy).run ⟨store, clock, [setup.ready]⟩ with
        ⟨e | answer, w'⟩
      · rw [Action.run_bind_of_error hperform] at h
        cases h
        exact .inr ⟨order, _, _, _, rfl, hperform, rfl⟩
      · rw [Action.run_bind_of_ok hperform] at h
        cases h
        exact .inr ⟨order, _, _, _, rfl, hperform, rfl⟩

/-- On a database, an order that is answered does what it says; else nothing is done. -/
theorem effect_of_operatorJob {s : Surroundings} {words : List String}
    (hwords : ∀ x ∈ words, NulFree x) {clock : Int} {c : Config} {found : File}
    {r : Except Failure (Except Misuse (List String))} {w : World Database}
    (h : Job.run (operatorJob s words) clock c (Database.connect s.engine found) = (r, w)) :
    (∀ answer, r = .ok (.ok answer) → ∃ order, Order.ofArguments s.isObject words = .ok order ∧
        order.Effect (lines answer) found.tables.create w.store.file.tables.create) ∧
      ((∀ answer, r ≠ .ok (.ok answer)) → w.store.file.tables.create = found.tables.create) := by
  have hwhole := found.tables.whole_create
  rcases run_operatorJob h with ⟨hstore, hno⟩ | ⟨order, strategy, log, x, horder, hrun, rfl⟩
  · refine ⟨fun answer hanswer => absurd hanswer (hno answer), fun _ => ?_⟩
    rw [hstore]
    exact hwhole.create_eq
  have hfaithful : order.Faithful found.tables.create w.store.file.tables x :=
    Order.faithful ⟨rfl, rfl⟩ hwhole (Order.nulFree_texts hwords horder) s.seed strategy hrun
  have hfaithful := hfaithful.create hwhole
  cases x with
  | error e => exact ⟨fun _ h => (nomatch h), fun _ => hfaithful⟩
  | ok answer =>
    refine ⟨fun answer' h => ?_, fun hno => absurd rfl (hno answer)⟩
    cases h
    exact ⟨order, horder, hfaithful⟩

/-! ### The chosen store -/

namespace Surroundings

/-- The name of the database file that the configuration under a path chooses, if it chooses one. -/
def target? (s : Surroundings) (path : String) : Option Path :=
  match (Config.load .path (s.document path)).2 with
  | .ok ⟨.file file _, _, _⟩ => Disk.nameOf? file
  | _ => none

/-- How a program comes to its outcome: it fails before it has a store, or does its job on records
in memory, or on a database, which it writes back. -/
inductive Operates (s : Surroundings) (path : String) (job : Job α) : Outcome α → Prop
  | failed (e : Failure) : Operates s path job ⟨.error e, [], s.disk⟩
  | memory {c : Config} {r : Except Failure α} {w : World Keyed.Ledger}
    (htarget : s.target? path = none) (hrun : Job.run job s.clock c Keyed.Ledger.empty = (r, w)) :
    Operates s path job ⟨r, w.log, s.disk⟩
  | file {c : Config} {file : String} {found : File} {r : Except Failure α} {w : World Database}
    (htarget : s.target? path = Disk.nameOf? file) (hfind : s.disk.find file = .ok found)
    (hrun : Job.run job s.clock c (Database.connect s.engine found) = (r, w)) :
    Operates s path job ⟨r, w.log, s.disk.save file w.store.file⟩

theorem operates (s : Surroundings) (path : String) (job : Job α) :
    s.Operates path job (s.operate path job) := by
  rw [operate]
  cases hload : (Config.load .path (s.document path)).2 with
  | error e => exact .failed e
  | ok c =>
    obtain ⟨database, scheduler, logging⟩ := c
    cases database with
    | unspecified | memory => exact .memory (by rw [target?, hload]) rfl
    | server uri maxConnections => exact .failed _
    | file file busyTimeout =>
      have htarget : s.target? path = Disk.nameOf? file := by rw [target?, hload]
      cases hfind : s.disk.find file with
      | error e =>
        simp only [Storage.open, hfind, Except.map]
        exact .failed e
      | ok found =>
        simp only [Storage.open, hfind, Except.map]
        exact .file htarget hfind rfl

section Operates

variable {s : Surroundings} {path : String} {words : List String}
  {done : Outcome (Except Misuse (List String))}

/-- Work without an answer leaves all files as they were. -/
theorem Operates.tables_of_unanswered (h : s.Operates path (operatorJob s words) done)
    (hwords : ∀ x ∈ words, NulFree x) (hno : ∀ answer, done.result ≠ .ok (.ok answer))
    (name : Path) : done.disk.tables name = s.disk.tables name := by
  cases h with
  | failed | memory => rfl
  | file htarget hfind hrun =>
    rw [Disk.tables_save]
    split
    · next hname =>
      rw [Disk.tables_of_find hfind hname]
      exact (effect_of_operatorJob hwords hrun).2 hno
    · rfl

/-- Work with an answer has done what the order says to the chosen file, and nothing to others. -/
theorem Operates.exists_effect (h : s.Operates path (operatorJob s words) done)
    (hwords : ∀ x ∈ words, NulFree x) {answer : List String}
    (hanswer : done.result = .ok (.ok answer)) :
    ∃ order, Order.ofArguments s.isObject words = .ok order ∧
      ∀ name, (s.target? path = some name →
          order.Effect (lines answer) (s.disk.tables name) (done.disk.tables name)) ∧
        (s.target? path ≠ some name → done.disk.tables name = s.disk.tables name) := by
  cases h with
  | failed => cases hanswer
  | memory htarget hrun =>
    rcases run_operatorJob hrun with ⟨-, hno⟩ | ⟨order, -, -, -, horder, -, -⟩
    · exact absurd hanswer (hno answer)
    · exact ⟨order, horder, fun name => ⟨fun h => by simp [htarget] at h, fun _ => rfl⟩⟩
  | file htarget hfind hrun =>
    obtain ⟨order, horder, heffect⟩ := (effect_of_operatorJob hwords hrun).1 answer hanswer
    refine ⟨order, horder, fun name => ⟨fun h => ?_, fun h => ?_⟩⟩
    · rw [htarget] at h
      rw [Disk.tables_save, if_pos h, Disk.tables_of_find hfind h]
      exact heffect
    · rw [htarget] at h
      rw [Disk.tables_save, if_neg h]

end Operates

end Surroundings

/-- Whatever the words and wherever it goes wrong, the operator's program changes the rows of no
database file if its exit code is not 0. If it is 0, an order has been read from the words, and the
program has done what the order says to the file that the configuration chooses, and nothing to any
other. -/
theorem changes_only_what_is_ordered (s : Surroundings) (args : List String) (name : Path) :
    ((runOperator s args).1.exitCode ≠ 0 →
        (runOperator s args).2.tables name = s.disk.tables name) ∧
      ((runOperator s args).1.exitCode = 0 → ∃ path words order,
        arguments args = path :: words ∧ Order.ofArguments s.isObject words = .ok order ∧
          (s.target? path = some name → order.Effect (runOperator s args).1.output
            (s.disk.tables name) ((runOperator s args).2.tables name)) ∧
          (s.target? path ≠ some name →
            (runOperator s args).2.tables name = s.disk.tables name)) := by
  have hplain : ∀ x ∈ arguments args, NulFree x := by
    intro x hx
    obtain ⟨arg, -, rfl⟩ := List.mem_map.1 hx
    exact Text.nulFree_untilNul arg
  match hargs : arguments args with
  | [] | [_] =>
    have hrun : runOperator s args = (Misuse.report .unknown [], s.disk) := by
      rw [runOperator, hargs]
    rw [hrun]
    exact ⟨fun _ => rfl, fun h => by cases h⟩
  | path :: command :: rest =>
    have hwords : ∀ x ∈ command :: rest, NulFree x := fun x hx =>
      hplain x (hargs ▸ List.mem_cons_of_mem path hx)
    have hdone := s.operates path (operatorJob s (command :: rest))
    rw [runOperator_eq s hargs]
    refine ⟨fun hexit => ?_, fun hexit => ?_⟩
    · refine hdone.tables_of_unanswered hwords (fun answer hanswer => hexit ?_) name
      exact exitCode_operatorReport.2 ⟨answer, hanswer⟩
    · obtain ⟨answer, hanswer⟩ := exitCode_operatorReport.1 hexit
      obtain ⟨order, horder, heffect⟩ := hdone.exists_effect hwords hanswer
      refine ⟨path, _, order, rfl, horder, ?_⟩
      have houtput : (operatorReport command
          (s.operate path (operatorJob s (command :: rest)))).output = lines answer := by
        rw [operatorReport, hanswer]
      rw [houtput]
      exact heffect name

/-- A configuration that keeps records in a file, which is not there yet. -/
def nightDesk : Surroundings where
  disk := .empty
  clock := 0
  seed := 0
  engine := .current
  isObject := Json.isObject
  document _ := ⟨.ok (.mapping []), none,
    .ok ⟨.file "records" 0, Config.default.scheduler, Config.default.logging⟩⟩

/-- An order to make a deployment. -/
def nightOrder : List String := ["config", "deployment", "create", "nightly", "report"]

/-- Given twice, the order is carried out once. The second time it fails, since the name is taken,
and all rows stay as they are. -/
theorem changes_only_what_is_ordered_nightly :
    (∃ d : Deployment, (runOperator nightDesk nightOrder).1.output = d.id ++ "\n" ∧
        d.name = "nightly" ∧ ((runOperator nightDesk nightOrder).2.tables
          (Path.ofText "records")).deploymentRows = [d]) ∧
      (runOperator { nightDesk with disk := (runOperator nightDesk nightOrder).2 }
          nightOrder).1.exitCode ≠ 0 ∧
        (runOperator { nightDesk with disk := (runOperator nightDesk nightOrder).2 }
          nightOrder).2.tables (Path.ofText "records") =
          (runOperator nightDesk nightOrder).2.tables (Path.ofText "records") := by
  have hfirst : (runOperator nightDesk nightOrder).1.exitCode = 0 := by decide +kernel
  have hagain : (runOperator { nightDesk with disk := (runOperator nightDesk nightOrder).2 }
      nightOrder).1.exitCode ≠ 0 := by decide +kernel
  have htarget : nightDesk.target? "config" = some (Path.ofText "records") := by decide +kernel
  have hargs : arguments nightOrder = nightOrder := by decide +kernel
  refine ⟨?_, hagain, (changes_only_what_is_ordered _ _ _).1 hagain⟩
  obtain ⟨path, words, order, hwords, horder, heffect, -⟩ :=
    (changes_only_what_is_ordered nightDesk nightOrder (Path.ofText "records")).2 hfirst
  rw [hargs, nightOrder] at hwords
  cases hwords
  cases horder
  obtain ⟨d, houtput, hname, -, -, htables⟩ := heffect htarget
  refine ⟨d, houtput, hname, ?_⟩
  rw [htables]
  rfl

end CommandLine

end Timetable
