import Timetable.Proofs.Operator
import Timetable.Proofs.Relational.Insertion

/-!
# Schedules that an operator adds

Three places look at the interval of a schedule: the operator's program wants a positive number, the
relational store a positive signed word, and a grid one whose milliseconds fit a signed word. The
first two let more pass than the third. So a schedule that has been added can be expanded exactly if
its interval is at most the longest one (`added_schedule_expands_iff`). If it is, calls for its
deployment fail for an argument only where they did before (`Database.NoWorse`). If it is not, they
all fail, be the other schedules of the deployment what they may (`Database.Blocks`).
-/

namespace Timetable

open Relational
open Text (NulFree)

/-- An interval that is positive and at most the longest one makes a grid. -/
theorem Schedule.exists_grid {s : Schedule} (hpositive : 0 < s.intervalSeconds.toNat)
    (hshort : s.intervalSeconds ≤ longestInterval) : ∃ g, s.grid = .ok g := by
  rw [grid, dif_pos ⟨hpositive, hshort⟩]
  exact ⟨_, rfl⟩

/-! ### Files -/

namespace Disk

variable {d : Disk} {path : String} {found : File}

/-- What is written back under a path where a file has been found is found there. -/
theorem find_save (hfind : d.find path = .ok found) {name : Path}
    (hname : nameOf? path = some name) (file : File) : (d.save path file).find path = .ok file := by
  rcases hpath : Locator.ofPath path with e | ⟨_ | other, access, isImmutable⟩
  · simp [nameOf?, hpath] at hname
  · simp [nameOf?, hpath] at hname
  · simp only [find, hpath, Except.mapError, bind, Except.bind] at hfind
    -- nothing is found that tables cannot be added to, and the rest is written and read alike
    have hwritable : Locator.isReadOnly ⟨.file other, access, isImmutable⟩ = false := by
      by_contra hreadOnly
      rw [Bool.not_eq_false] at hreadOnly
      rcases hlookup : d.files.lookup other with _ | _ | _ <;>
        simp [hlookup, hreadOnly, throw, throwThe, MonadExceptOf.throw] at hfind
      split at hfind <;> cases hfind
    simp [find, save, hpath, Except.mapError, bind, Except.bind, hwritable, pure, Except.pure]

/-- A path that leads to no file leads to a database without tables. -/
theorem eq_blank_of_find (hfind : d.find path = .ok found) (hname : nameOf? path = none) :
    found = .blank := by
  rcases hpath : Locator.ofPath path with e | ⟨_ | other, access, isImmutable⟩
  · simp [find, hpath, Except.mapError, bind, Except.bind] at hfind
  · simp only [find, hpath, Except.mapError, bind, Except.bind] at hfind
    split at hfind <;> cases hfind
    rfl
  · simp [nameOf?, hpath] at hname

end Disk

namespace CommandLine

open Database (copying)

/-! ### Reading the order -/

theorem count_eq_ok_iff {what text : String} {n : UInt64} :
    count what text = .ok n ↔ Numeral.parse? Numeral.largest text = some n := by
  unfold count
  cases Numeral.parse? Numeral.largest text <;> simp

/-- An order to add a schedule has a number that is not zero, and what else is given is in order. -/
theorem Order.ofArguments_add_eq_ok_iff {isObject : String → Bool} {deploymentId text : String}
    {more : List String} {order : Order} :
    ofArguments isObject ("schedule" :: "add" :: deploymentId :: text :: more) = .ok order ↔
      ∃ n anchor given, count "interval_seconds" text = .ok n ∧ n ≠ 0 ∧
        anchor? more[0]? = .ok anchor ∧ parameters isObject more[1]? = .ok given ∧
        order = .addSchedule deploymentId n anchor given := by
  simp only [ofArguments, bind, Except.bind]
  cases hn : count "interval_seconds" text with
  | error m => simp
  | ok n =>
    cases hanchor : anchor? more[0]? with
    | error m => simp
    | ok anchor =>
      cases hgiven : parameters isObject more[1]? with
      | error m => simp
      | ok given =>
        by_cases hzero : n = 0 <;> simp [hzero, pure, Except.pure, eq_comm]

/-! ### Carrying the order out -/

/-- The schedule that is added when an order to add one is carried out. -/
def Surroundings.newSchedule (s : Surroundings) (deploymentId : String) (n : UInt64)
    (anchor : Option Instant) (parameters : String) : Schedule where
  id := Order.freshId s.seed
  deploymentId
  intervalSeconds := n
  anchor := anchor.getD (.ofNanos s.clock)
  parameters
  createdAt := (Instant.ofNanos s.clock).toWord

theorem exists_setup (c : Config.Scheduler) : ∃ setup, Setup.resolve "sqlite" c = .ok setup := by
  have hstrategy : ∃ strategy, LinkStrategy.resolve "sqlite" c.linkChoice = .ok strategy := by
    have hdialect : LinkStrategy.ofDialect? "sqlite" = some .correlatedSubquery := by decide
    rw [LinkStrategy.resolve, hdialect]
    cases LinkStrategy.ofChoice? c.linkChoice <;> exact ⟨_, rfl⟩
  obtain ⟨strategy, hstrategy⟩ := hstrategy
  rw [Setup.resolve, hstrategy]
  exact ⟨_, rfl⟩

section Add

variable {s : Surroundings} {deploymentId : String} {n : UInt64} {anchor : Option Instant}
  {parameters : String} {strategy : LinkStrategy} {log : List Log.Entry}

theorem Order.run_addSchedule (db : Database) :
    (perform s.seed strategy (.addSchedule deploymentId n anchor parameters)).run
        ⟨db, s.clock, log⟩ =
      (World.transact (demand "add schedule" (Repository.insertSchedule
          (s.newSchedule deploymentId n anchor parameters))) >>= fun _ =>
        pure [freshId s.seed]).run ⟨db, s.clock, log⟩ := by
  have hread : (Action.read : Action (World Database) (World Database)).run
      ⟨db, s.clock, log⟩ = (.ok ⟨db, s.clock, log⟩, ⟨db, s.clock, log⟩) := rfl
  rw [perform, Action.run_bind_of_ok hread]
  rfl

variable (hplain : ∀ x ∈ [deploymentId, parameters], NulFree x)

include hplain

theorem bindSchedule_newSchedule :
    Database.bindSchedule (s.newSchedule deploymentId n anchor parameters) =
      s.newSchedule deploymentId n anchor parameters :=
  bindSchedule_of_nulFree (List.forall_mem_cons.2 ⟨nulFree_uuid _, hplain⟩)

/-- A schedule that can be inserted is added. -/
theorem Order.run_addSchedule_of_ok {u v : Tables} (hu : u.Whole)
    (h : u.insertSchedule (s.newSchedule deploymentId n anchor parameters) = .ok v) :
    (perform s.seed strategy (.addSchedule deploymentId n anchor parameters)).run
        ⟨(copying s.engine).resting u, s.clock, log⟩ =
      (.ok [freshId s.seed], ⟨(copying s.engine).resting v, s.clock, log⟩) := by
  rw [← bindSchedule_newSchedule hplain] at h
  rw [run_addSchedule,
    Action.run_bind_of_ok (Database.run_transact_insertSchedule_of_ok hu _ s.clock log h)]
  rfl

/-- A schedule that is added has been inserted into tables whose pages are undamaged. -/
theorem Order.insertSchedule_of_run {found : File} {answer : List String} {w : World Database}
    (hrun : (perform s.seed strategy (.addSchedule deploymentId n anchor parameters)).run
      ⟨.connect s.engine found, s.clock, log⟩ = (.ok answer, w)) :
    found.damaged = false ∧ ∃ v, found.tables.create.insertSchedule
      (s.newSchedule deploymentId n anchor parameters) = .ok v := by
  rw [run_addSchedule] at hrun
  obtain ⟨_, m, htransact, -⟩ := Action.run_bind_eq_ok hrun
  have hsound : found.damaged = false :=
    Database.undamaged_of_insertSchedule ⟨rfl, rfl⟩ htransact
  refine ⟨hsound, ?_⟩
  cases hinsert : found.tables.create.insertSchedule
      (s.newSchedule deploymentId n anchor parameters) with
  | ok v => exact ⟨v, rfl⟩
  | error fault =>
    rw [← bindSchedule_newSchedule hplain] at hinsert
    obtain ⟨e, hfails⟩ := Database.run_transact_insertSchedule_of_error found.tables.whole_create
      "add schedule" s.clock log hinsert
    rw [Database.connect_of_sound hsound, hfails] at htransact
    cases htransact

end Add

/-! ### The program -/

section Program

variable {s : Surroundings} {args : List String} {path command : String} {rest : List String}
  {file : String} {busyTimeout : Nat} {scheduler : Config.Scheduler} {logging : Config.Logging}
  (hargs : arguments args = path :: command :: rest)
  (hload : (Config.load .path (s.document path)).2 =
    .ok ⟨.file file busyTimeout, scheduler, logging⟩)

include hargs hload

/-- An exit code of 0 means that a file has been found and an order has been read. -/
theorem exists_of_exitCode_eq_zero (hexit : (runOperator s args).1.exitCode = 0) :
    ∃ found order, s.disk.find file = .ok found ∧
      Order.ofArguments s.isObject (command :: rest) = .ok order := by
  rw [runOperator_eq s hargs, exitCode_operatorReport, Surroundings.operate, hload] at hexit
  obtain ⟨answer, hanswer⟩ := hexit
  cases hfind : s.disk.find file with
  | error e =>
    simp only [Storage.open, hfind, Except.map] at hanswer
    cases hanswer
  | ok found =>
    rcases hjob : Job.run (operatorJob s (command :: rest)) s.clock
      ⟨.file file busyTimeout, scheduler, logging⟩ (Database.connect s.engine found) with ⟨r, w⟩
    simp only [Storage.open, hfind, Except.map, hjob] at hanswer
    rcases run_operatorJob hjob with ⟨-, hno⟩ | ⟨order, -, -, -, horder, -, -⟩
    · exact absurd hanswer (hno answer)
    · exact ⟨found, order, rfl, horder⟩

/-- On a file that is found, the program does what carrying the order out does to its database. -/
theorem exists_runOperator_eq {found : File} {order : Order} (hfind : s.disk.find file = .ok found)
    (horder : Order.ofArguments s.isObject (command :: rest) = .ok order) : ∃ strategy log,
    ∀ (r : Except Failure (List String)) (w : World Database),
      (order.perform s.seed strategy).run ⟨Database.connect s.engine found, s.clock, log⟩ = (r, w) →
      runOperator s args =
        (operatorReport command ⟨r.map .ok, w.log, s.disk.save file w.store.file⟩,
          s.disk.save file w.store.file) := by
  obtain ⟨setup, hsetup⟩ := exists_setup scheduler
  refine ⟨setup.strategy, [setup.ready], fun r w hperform => ?_⟩
  have hjob : Job.run (operatorJob s (command :: rest)) s.clock
      ⟨.file file busyTimeout, scheduler, logging⟩ (Database.connect s.engine found) =
        (r.map .ok, w) := by
    have hdialect : Setup.resolve (Repository.dialect (Database.connect s.engine found)) scheduler =
        .ok setup := hsetup
    rw [Job.run, Application.build, hdialect]
    show (operatorJob s (command :: rest) _ setup).run
      ⟨Database.connect s.engine found, s.clock, [setup.ready]⟩ = _
    rw [operatorJob, horder]
    cases r with
    | error e => exact Action.run_bind_of_error hperform
    | ok answer => exact Action.run_bind_of_ok hperform
  have hoperate : s.operate path (operatorJob s (command :: rest)) =
      ⟨r.map .ok, w.log, s.disk.save file w.store.file⟩ := by
    rw [Surroundings.operate, hload]
    simp only [Storage.open, hfind, Except.map, hjob]
  rw [runOperator_eq s hargs, hoperate]

end Program

section Addition

variable {s : Surroundings} {args rest : List String} {path file deploymentId parameters : String}
  {busyTimeout : Nat} {scheduler : Config.Scheduler} {logging : Config.Logging} {found : File}
  {n : UInt64} {anchor : Option Instant}
  (hargs : arguments args = path :: "schedule" :: "add" :: rest)
  (hload : (Config.load .path (s.document path)).2 =
    .ok ⟨.file file busyTimeout, scheduler, logging⟩) (hfind : s.disk.find file = .ok found)
  (horder : Order.ofArguments s.isObject ("schedule" :: "add" :: rest) =
    .ok (.addSchedule deploymentId n anchor parameters))

include hargs in
theorem nulFree_of_addSchedule
    (horder : Order.ofArguments s.isObject ("schedule" :: "add" :: rest) =
      .ok (.addSchedule deploymentId n anchor parameters)) :
    ∀ x ∈ [deploymentId, parameters], NulFree x := by
  refine Order.nulFree_texts (fun x hx => ?_) horder
  have hmem : x ∈ arguments args := by
    rw [hargs]
    exact List.mem_cons_of_mem path hx
  obtain ⟨arg, -, rfl⟩ := List.mem_map.1 hmem
  exact Text.nulFree_untilNul arg

include hargs hload hfind horder

/-- If the schedule can be inserted into an undamaged file, the program inserts it and answers with
its id. -/
theorem runOperator_add_of_ok {v : Tables} (hsound : found.damaged = false)
    (hinsert : found.tables.create.insertSchedule
      (s.newSchedule deploymentId n anchor parameters) = .ok v) :
    (runOperator s args).1.exitCode = 0 ∧
      (runOperator s args).1.output = Order.freshId s.seed ++ "\n" ∧
      (runOperator s args).2 = s.disk.save file ⟨v, false⟩ := by
  have hplain := nulFree_of_addSchedule hargs horder
  obtain ⟨strategy, log, hrun⟩ := exists_runOperator_eq hargs hload hfind horder
  have hperform : (Order.perform s.seed strategy
      (.addSchedule deploymentId n anchor parameters)).run
      ⟨Database.connect s.engine found, s.clock, log⟩ =
      (.ok [Order.freshId s.seed], ⟨(copying s.engine).resting v, s.clock, log⟩) := by
    rw [Database.connect_of_sound hsound]
    exact Order.run_addSchedule_of_ok hplain found.tables.whole_create hinsert
  rw [hrun _ _ hperform]
  exact ⟨rfl, Order.lines_singleton _, rfl⟩

/-- The program succeeds only if the schedule can be inserted into an undamaged file. -/
theorem exitCode_add_iff :
    (runOperator s args).1.exitCode = 0 ↔ found.damaged = false ∧ ∃ v,
      found.tables.create.insertSchedule
        (s.newSchedule deploymentId n anchor parameters) = .ok v := by
  constructor
  · intro hexit
    obtain ⟨strategy, log, hrun⟩ := exists_runOperator_eq hargs hload hfind horder
    rcases hperform : (Order.perform s.seed strategy
      (.addSchedule deploymentId n anchor parameters)).run
      ⟨Database.connect s.engine found, s.clock, log⟩ with ⟨e | answer, w⟩
    · rw [hrun _ _ hperform] at hexit
      cases hexit
    · exact Order.insertSchedule_of_run (nulFree_of_addSchedule hargs horder) hperform
  · rintro ⟨hsound, v, hinsert⟩
    exact (runOperator_add_of_ok hargs hload hfind horder hsound hinsert).1

omit hargs hload horder in
/-- The file with the deployment of a schedule is not gone when the program ends. -/
theorem find_save_of_insertSchedule {q : Schedule} {v : Tables}
    (hinsert : found.tables.create.insertSchedule q = .ok v) (saved : File) :
    (s.disk.save file saved).find file = .ok saved := by
  cases hname : Disk.nameOf? file with
  | some name => exact Disk.find_save hfind hname saved
  | none =>
    -- nothing stands in a database without a file
    obtain ⟨-, -, ⟨d, hd, -⟩, -⟩ := insertSchedule_eq_ok_iff.1 hinsert
    rw [Disk.eq_blank_of_find hfind hname] at hd
    cases hd

end Addition

/-- Where one interval is taken, those are taken that are positive and fit a signed word. -/
theorem exitCode_add_iff_signFree {s : Surroundings} {args more : List String}
    {path file deploymentId text given : String} {busyTimeout : Nat}
    {scheduler : Config.Scheduler} {logging : Config.Logging} {found : File} {n n' : UInt64}
    {anchor : Option Instant} {v : Tables}
    (hargs : arguments args = path :: "schedule" :: "add" :: deploymentId :: text :: more)
    (hload : (Config.load .path (s.document path)).2 =
      .ok ⟨.file file busyTimeout, scheduler, logging⟩) (hfind : s.disk.find file = .ok found)
    (hsound : found.damaged = false) (hanchor : anchor? more[0]? = .ok anchor)
    (hgiven : parameters s.isObject more[1]? = .ok given)
    (hinsert : found.tables.create.insertSchedule (s.newSchedule deploymentId n anchor given) =
      .ok v) (hcount : count "interval_seconds" text = .ok n') :
    (runOperator s args).1.exitCode = 0 ↔ 0 < n'.toNat ∧ SignFree n' := by
  by_cases hzero : n' = 0
  · refine iff_of_false (fun hexit => ?_) (by simp [hzero])
    obtain ⟨-, order, -, horder⟩ := exists_of_exitCode_eq_zero hargs hload hexit
    obtain ⟨m, -, -, hm, hpositive, -⟩ := Order.ofArguments_add_eq_ok_iff.1 horder
    rw [hcount] at hm
    cases hm
    exact hpositive hzero
  · have horder : Order.ofArguments s.isObject
        ("schedule" :: "add" :: deploymentId :: text :: more) =
          .ok (.addSchedule deploymentId n' anchor given) :=
      Order.ofArguments_add_eq_ok_iff.2 ⟨n', anchor, given, hcount, hzero, hanchor, hgiven, rfl⟩
    obtain ⟨-, hnew, hthere, -⟩ := insertSchedule_eq_ok_iff.1 hinsert
    rw [exitCode_add_iff hargs hload hfind horder, and_iff_right hsound, ← signed_pos_iff]
    constructor
    · rintro ⟨w, hw⟩
      exact (insertSchedule_eq_ok_iff.1 hw).1
    · exact fun hpositive => ⟨_, insertSchedule_eq_ok_iff.2 ⟨hpositive, hnew, hthere, rfl⟩⟩

/-- Whenever the operator's program adds a schedule to a database file, the schedule is there when
the file is opened again. Of the intervals that could have been given, the program would have taken
those that are positive and fit a signed word. The schedule has a grid exactly if its interval is at
most the longest one. If so, it is not to blame for any call that fails for an argument. If not, all
calls for its deployment fail, and those that have succeeded before fail for its interval. -/
theorem added_schedule_expands_iff (s : Surroundings) {args rest : List String}
    {path file : String} {busyTimeout : Nat} {scheduler : Config.Scheduler}
    {logging : Config.Logging}
    (hargs : arguments args = path :: "schedule" :: "add" :: rest)
    (hload : (Config.load .path (s.document path)).2 =
      .ok ⟨.file file busyTimeout, scheduler, logging⟩)
    (hexit : (runOperator s args).1.exitCode = 0) :
    ∃ (before after : Database) (q : Schedule) (ss : List Schedule) (text : String)
      (more : List String),
      Storage.open s.engine s.disk (.file file busyTimeout) = .ok (.file file before) ∧
      Storage.open s.engine (runOperator s args).2 (.file file busyTimeout) =
        .ok (.file file after) ∧
      (runOperator s args).1.output = q.id ++ "\n" ∧
      rest = q.deploymentId :: text :: more ∧
      Numeral.parse? Numeral.largest text = some q.intervalSeconds ∧
      listed after q.deploymentId = .ok ss ∧ q ∈ ss ∧
      (∀ args' text' n,
        arguments args' = path :: "schedule" :: "add" :: q.deploymentId :: text' :: more →
        Numeral.parse? Numeral.largest text' = some n →
        ((runOperator s args').1.exitCode = 0 ↔ 0 < n.toNat ∧ SignFree n)) ∧
      ((∃ g, q.grid = .ok g) ↔ q.intervalSeconds ≤ Schedule.longestInterval) ∧
      (q.intervalSeconds ≤ Schedule.longestInterval →
        Database.NoWorse before after q.deploymentId) ∧
      (Schedule.longestInterval < q.intervalSeconds → Database.Blocks before after q) := by
  obtain ⟨found, order, hfind, horder⟩ := exists_of_exitCode_eq_zero hargs hload hexit
  match rest with
  | [] | [_] => cases horder
  | deploymentId :: text :: more =>
  obtain ⟨n, anchor, given, hcount, -, hanchor, hgiven, rfl⟩ :=
    Order.ofArguments_add_eq_ok_iff.1 horder
  obtain ⟨hsound, v, hinsert⟩ := (exitCode_add_iff hargs hload hfind horder).1 hexit
  obtain ⟨-, houtput, hdisk⟩ :=
    runOperator_add_of_ok hargs hload hfind horder hsound hinsert
  have hwhole := found.tables.whole_create
  have hwhole' := hwhole.insertSchedule hinsert
  have hid : NulFree deploymentId := nulFree_of_addSchedule hargs horder _ List.mem_cons_self
  have hpositive : 0 < n.toNat := (signed_pos_iff.1 (insertSchedule_eq_ok_iff.1 hinsert).1).1
  refine ⟨(copying s.engine).resting found.tables.create, (copying s.engine).resting v,
    s.newSchedule deploymentId n anchor given, v.listSchedules deploymentId, text, more, ?_, ?_,
    houtput, rfl, count_eq_ok_iff.1 hcount, Database.listed_resting hwhole' hid,
    Tables.mem_listSchedules_of_insertSchedule hinsert, fun args' text' n' hargs' hparse => ?_,
    ⟨?_, fun hshort => ?_⟩, fun hshort => ?_, fun hlong => ?_⟩
  · rw [Storage.open, hfind, ← Database.connect_of_sound hsound]
    rfl
  · rw [hdisk, Storage.open, find_save_of_insertSchedule hfind hinsert]
    show Except.ok (Storage.file file ((copying s.engine).resting v.create)) = _
    rw [hwhole'.create_eq]
  · exact exitCode_add_iff_signFree hargs' hload hfind hsound hanchor hgiven hinsert
      (count_eq_ok_iff.2 hparse)
  · rintro ⟨g, hgrid⟩
    exact (Schedule.grid_eq_ok.1 hgrid).1.2
  · exact Schedule.exists_grid hpositive hshort
  · obtain ⟨g, hgrid⟩ := Schedule.exists_grid (s := s.newSchedule deploymentId n anchor given)
      hpositive hshort
    exact Database.noWorse_of_grid hwhole hinsert hid hgrid
  · exact Database.blocks_of_grid hwhole hinsert hid (Schedule.grid_eq_error.2 ⟨.inr hlong, rfl⟩)

/-- A configuration that keeps records in a file, in which a deployment stands. -/
def stockedDesk : Surroundings :=
  { nightDesk with disk := ⟨[(Path.ofText "records", .database ⟨plainRows, false⟩)]⟩ }

/-- An order to add a schedule of that deployment. -/
def intervalOrder (interval : String) : List String :=
  ["config", "schedule", "add", "known", interval]

/-- The rows of the file once a schedule with an interval has been added. -/
def stockedRows (n : UInt64) : Tables :=
  { plainRows with schedules := some [stockedDesk.newSchedule "known" n none "\x7b\x7d"] }

/-- What fits a signed word is taken, since there are no other schedules. -/
theorem runOperator_stockedDesk {interval : String} {n : UInt64} (hplain : NulFree interval)
    (hcount : count "interval_seconds" interval = .ok n) (hpositive : 0 < n.toNat)
    (hfits : SignFree n) :
    arguments (intervalOrder interval) = intervalOrder interval ∧
      (runOperator stockedDesk (intervalOrder interval)).1.exitCode = 0 ∧
      (runOperator stockedDesk (intervalOrder interval)).2.find "records" =
        .ok ⟨stockedRows n, false⟩ := by
  have hargs : arguments (intervalOrder interval) = intervalOrder interval :=
    map_untilNul_of_nulFree fun x hx => by
      simp only [intervalOrder, List.mem_cons, List.not_mem_nil, or_false] at hx
      rcases hx with rfl | rfl | rfl | rfl | rfl
      exacts [by decide, by decide, by decide, by decide, hplain]
  have hfind : stockedDesk.disk.find "records" = .ok ⟨plainRows, false⟩ := by decide +kernel
  have hzero : n ≠ 0 := fun h => absurd hpositive (by simp [h])
  have horder : Order.ofArguments Json.isObject ["schedule", "add", "known", interval] =
      .ok (.addSchedule "known" n none "\x7b\x7d") :=
    Order.ofArguments_add_eq_ok_iff.2 ⟨n, none, "\x7b\x7d", hcount, hzero, rfl, rfl, rfl⟩
  have hinsert : plainRows.create.insertSchedule
      (stockedDesk.newSchedule "known" n none "\x7b\x7d") = .ok (stockedRows n) :=
    insertSchedule_eq_ok_iff.2
      ⟨signed_pos_iff.2 ⟨hpositive, hfits⟩, nofun, ⟨plainDeployment, List.mem_cons_self, rfl⟩, rfl⟩
  obtain ⟨hexit, -, hdisk⟩ := runOperator_add_of_ok hargs rfl hfind horder rfl hinsert
  refine ⟨hargs, hexit, ?_⟩
  rw [hdisk]
  exact find_save_of_insertSchedule hfind hinsert _

/-- The longest interval is added and can be expanded. One second more is added as well, and no call
for the deployment succeeds any more. -/
theorem added_schedule_expands_iff_longest :
    (∃ after q ss,
      Storage.open .current (runOperator stockedDesk (intervalOrder "9223372036854775")).2
        (.file "records" 0) = .ok (.file "records" after) ∧
      listed after "known" = .ok ss ∧ q ∈ ss ∧ q.intervalSeconds = 9223372036854775 ∧
      ∃ g, q.grid = .ok g) ∧
    ∃ before after q,
      Storage.open .current stockedDesk.disk (.file "records" 0) = .ok (.file "records" before) ∧
      Storage.open .current (runOperator stockedDesk (intervalOrder "9223372036854776")).2
        (.file "records" 0) = .ok (.file "records" after) ∧
      q.deploymentId = "known" ∧ Database.Blocks before after q := by
  have hcount : count "interval_seconds" "9223372036854775" = .ok 9223372036854775 := by
    decide +kernel
  have hcount' : count "interval_seconds" "9223372036854776" = .ok 9223372036854776 := by
    decide +kernel
  obtain ⟨hargs, hexit, -⟩ :=
    runOperator_stockedDesk (by decide +kernel) hcount (by decide) (by decide)
  obtain ⟨hargs', hexit', -⟩ :=
    runOperator_stockedDesk (by decide +kernel) hcount' (by decide) (by decide)
  constructor
  · obtain ⟨-, after, q, ss, text, more, -, hopen, -, hrest, hparse, hlisted, hq, -, hgrid, -⟩ :=
      added_schedule_expands_iff stockedDesk hargs rfl hexit
    simp only [List.cons.injEq] at hrest
    obtain ⟨hid, rfl, -⟩ := hrest
    have hinterval : q.intervalSeconds = 9223372036854775 :=
      Option.some.inj (hparse.symm.trans (count_eq_ok_iff.1 hcount))
    rw [← hid] at hlisted
    exact ⟨after, q, ss, hopen, hlisted, hq, hinterval, hgrid.2 (by rw [hinterval]; decide)⟩
  · obtain ⟨before, after, q, -, text, more, hbefore, hopen, -, hrest, hparse, -, -, -, -, -,
      hlong⟩ := added_schedule_expands_iff stockedDesk hargs' rfl hexit'
    simp only [List.cons.injEq] at hrest
    obtain ⟨hid, rfl, -⟩ := hrest
    have hinterval : q.intervalSeconds = 9223372036854776 :=
      Option.some.inj (hparse.symm.trans (count_eq_ok_iff.1 hcount'))
    exact ⟨before, after, q, hbefore, hopen, hid.symm, hlong (by rw [hinterval]; decide)⟩

/-- An interval that the program and the store let pass stops a deployment. -/
theorem added_interval_stops_deployment : ∃ after q,
    (runOperator stockedDesk (intervalOrder "9223372036854776")).1.exitCode = 0 ∧
    Storage.open .current (runOperator stockedDesk (intervalOrder "9223372036854776")).2
        (.file "records" 0) = .ok (.file "records" after) ∧
    listed after "known" = .ok [q] ∧ q.grid = .error (.invalidInterval q.id) ∧
    ((scheduleRuns .correlatedSubquery ⟨"known", none, none, none⟩).run ⟨after, 0, []⟩).1 =
      .error (.invalidInterval q.id) ∧
    (Failure.invalidInterval q.id).kind = .invalidArgument := by
  let q := stockedDesk.newSchedule "known" 9223372036854776 none "\x7b\x7d"
  have hcount : count "interval_seconds" "9223372036854776" = .ok 9223372036854776 := by
    decide +kernel
  obtain ⟨-, hexit, hfind⟩ :=
    runOperator_stockedDesk (by decide +kernel) hcount (by decide) (by decide)
  have hwhole : (stockedRows 9223372036854776).Whole := ⟨rfl, rfl, rfl, rfl⟩
  have hlist : (stockedRows 9223372036854776).listSchedules "known" = [q] :=
    List.mergeSort_singleton q
  have hgrid : q.grid = .error (.invalidInterval q.id) :=
    Schedule.grid_eq_error.2 ⟨.inr (by decide), rfl⟩
  refine ⟨(copying .current).resting (stockedRows 9223372036854776), q, hexit, ?_, ?_, hgrid, ?_,
    rfl⟩
  · rw [Storage.open, hfind]
    rfl
  · rw [Database.listed_resting hwhole (by decide), hlist]
  · have hgenerate : (Request.generate ⟨"known", none, none, none⟩ (.ofNanos 0)).run
        ((copying .current).busy (stockedRows 9223372036854776)
          (stockedRows 9223372036854776)) = _ :=
      Database.run_generate_of_find (d := plainDeployment) hwhole (by decide) rfl (.ofNanos 0)
    rw [hlist, ofSchedules_cons, Request.ofSchedule, hgrid] at hgenerate
    rw [Database.run_scheduleRuns_of_generate_error hgenerate]

end CommandLine

end Timetable
