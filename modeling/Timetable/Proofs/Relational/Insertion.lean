import Timetable.Proofs.Coverage
import Timetable.Proofs.Failures
import Timetable.Proofs.Generation
import Timetable.Proofs.Relational.Visible

/-!
# A schedule more

A schedule that is inserted burdens the calls for its deployment, since the schedules of a
deployment are expanded one after the other and the first one that fails ends a call. If the new one
has a grid, calls fail for an argument only where they did before (`Database.noWorse_of_grid`). If
it has none, they all fail, whatever the other schedules are (`Database.blocks_of_grid`).
-/

namespace Timetable

open Text (NulFree untilNul untilNul_of_nulFree)

namespace Relational

section Insert

variable {u v : Tables} {q : Schedule}

theorem Tables.Whole.insertSchedule (hu : u.Whole) (h : u.insertSchedule q = .ok v) : v.Whole := by
  rw [eq_of_insertSchedule h]
  exact { hu with schedules := rfl }

/-- The schedule that has been inserted is listed among those of its deployment. -/
theorem Tables.mem_listSchedules_of_insertSchedule (h : u.insertSchedule q = .ok v) :
    q ∈ v.listSchedules q.deploymentId := by
  refine Tables.mem_listSchedules.2 ⟨?_, rfl⟩
  rw [eq_of_insertSchedule h]
  exact List.mem_concat_self

/-- It is the only one with its id. -/
theorem Tables.eq_of_mem_listSchedules (h : u.insertSchedule q = .ok v) {p : Schedule}
    {id : String} (hp : p ∈ v.listSchedules id) (hid : p.id = q.id) : p = q := by
  obtain ⟨hp, -⟩ := Tables.mem_listSchedules.1 hp
  rw [eq_of_insertSchedule h] at hp
  rcases List.mem_append.1 hp with hp | hp
  · exact absurd hid (id_ne_of_insertSchedule h p hp)
  · exact List.mem_singleton.1 hp

/-- Without it, the schedules are listed that were listed before. -/
theorem Tables.filter_listSchedules (h : u.insertSchedule q = .ok v) (id : String) :
    (v.listSchedules id).filter (·.id ≠ q.id) = u.listSchedules id := by
  have hrows : v.scheduleRows.filter (·.id ≠ q.id) = u.scheduleRows := by
    have hkept : u.scheduleRows.filter (·.id ≠ q.id) = u.scheduleRows :=
      List.filter_eq_self.2 fun p hp => decide_eq_true (id_ne_of_insertSchedule h p hp)
    rw [eq_of_insertSchedule h]
    show (u.scheduleRows ++ [q]).filter (·.id ≠ q.id) = _
    rw [List.filter_append, hkept]
    simp
  have hle := @earlier_iff Schedule Schedule.createdAt Schedule.id
  rw [Tables.listSchedules, filter_mergeSort (Precedes.trans_of_iff @hle)
    (Precedes.total_of_iff @hle), List.filter_comm, hrows]
  rfl

end Insert

namespace Database

/-- Calls for a deployment that fail for an argument have failed so before. -/
def NoWorse (before after : Database) (deploymentId : String) : Prop :=
  ∀ (strategy : LinkStrategy) (r : Request) (clock : Int) (log : List Log.Entry) (e : Failure)
    (w : World Database), r.deploymentId = deploymentId →
    (scheduleRuns strategy r).run ⟨after, clock, log⟩ = (.error e, w) →
    e.kind = .invalidArgument → ((scheduleRuns strategy r).run ⟨before, clock, log⟩).1 = .error e

/-- Calls for the deployment of a schedule fail and change nothing. Those that have succeeded before
fail for the interval of the schedule. -/
def Blocks (before after : Database) (q : Schedule) : Prop :=
  ∀ (strategy : LinkStrategy) (r : Request) (clock : Int) (log : List Log.Entry),
    r.deploymentId = q.deploymentId → ∃ e,
    (scheduleRuns strategy r).run ⟨after, clock, log⟩ = (.error e, ⟨after, clock, log⟩) ∧
      ((∃ created, ((scheduleRuns strategy r).run ⟨before, clock, log⟩).1 = .ok created) →
        e = .invalidInterval q.id)

/-- A database over an undamaged file is at rest. -/
theorem connect_of_sound {engine : Version} {file : File} (h : file.damaged = false) :
    connect engine file = (copying engine).resting file.tables.create := by
  rw [connect, h]
  rfl

section Calls

variable {engine : Version} {u v : Tables} {q : Schedule}

/-- The schedules of a deployment that is there are expanded as they are listed. -/
theorem run_generate_of_find {c w : Tables} (hw : w.Whole) {r : Request} {d : Deployment}
    (hid : NulFree r.deploymentId)
    (hfind : w.deploymentRows.find? (·.id == r.deploymentId) = some d) (now : Instant) :
    (r.generate now).run ((copying engine).busy c w) =
      (r.ofSchedules now d (w.listSchedules r.deploymentId), (copying engine).busy c w) := by
  have hfound : (Repository.findDeployment r.deploymentId).run ((copying engine).busy c w) =
      (.ok (w.deploymentRows.find? (·.id == untilNul r.deploymentId)), (copying engine).busy c w) :=
    run_query hw rfl
  have hlisted : (Repository.listSchedules r.deploymentId).run ((copying engine).busy c w) =
      (.ok (w.listSchedules (untilNul r.deploymentId)), (copying engine).busy c w) :=
    run_query hw rfl
  rw [untilNul_of_nulFree hid] at hfound hlisted
  rw [hfind] at hfound
  exact run_generate_of_some hfound hlisted now

/-- Whatever cannot be generated makes a call fail. -/
theorem run_scheduleRuns_of_generate_error {strategy : LinkStrategy} {r : Request} {clock : Int}
    {log : List Log.Entry} {e : Failure}
    (h : (r.generate (.ofNanos clock)).run ((copying engine).busy u u) =
      (.error e, (copying engine).busy u u)) :
    (scheduleRuns strategy r).run ⟨(copying engine).resting u, clock, log⟩ =
      (.error e, ⟨(copying engine).resting u, clock, log⟩) := by
  have hwork : (schedulingWork strategy r (.ofNanos clock)).run ((copying engine).busy u u) =
      (.error e, (copying engine).busy u u) := Action.run_bind_of_error h
  exact (copying engine).run_scheduleRuns_of_error hwork

theorem listed_resting (hu : u.Whole) {id : String} (hid : NulFree id) :
    listed ((copying engine).resting u) id = .ok (u.listSchedules id) := by
  have hlisted : (Repository.listSchedules id).run ((copying engine).busy u u) =
      (.ok (u.listSchedules (untilNul id)), (copying engine).busy u u) := run_query hu rfl
  rw [listed, (copying engine).run_transact hlisted, untilNul_of_nulFree hid]

section Insert

variable (hu : u.Whole) (h : u.insertSchedule q = .ok v) (hid : NulFree q.deploymentId)

include hu h hid

/-- The deployment of a schedule is found with its schedules before that has been inserted and
afterwards. -/
theorem exists_run_generate {r : Request} (hr : r.deploymentId = q.deploymentId) : ∃ d, ∀ now,
    (r.generate now).run ((copying engine).busy u u) =
        (r.ofSchedules now d (u.listSchedules q.deploymentId), (copying engine).busy u u) ∧
      (r.generate now).run ((copying engine).busy v v) =
        (r.ofSchedules now d (v.listSchedules q.deploymentId), (copying engine).busy v v) := by
  obtain ⟨-, -, hthere, -⟩ := insertSchedule_eq_ok_iff.1 h
  obtain ⟨d, hfind⟩ : ∃ d, u.deploymentRows.find? (·.id == q.deploymentId) = some d := by
    rw [← Option.isSome_iff_exists, List.find?_isSome]
    simpa using hthere
  have hafter : v.deploymentRows = u.deploymentRows := by
    rw [eq_of_insertSchedule h]
    rfl
  rw [← hr] at hid hfind ⊢
  exact ⟨d, fun now => ⟨run_generate_of_find hu hid hfind now,
    run_generate_of_find (hu.insertSchedule h) hid (hafter ▸ hfind) now⟩⟩

theorem noWorse_of_grid {g : Grid} (hgrid : q.grid = .ok g) :
    NoWorse ((copying engine).resting u) ((copying engine).resting v) q.deploymentId := by
  intro strategy r clock log e w hr hrun hkind
  obtain ⟨d, hgenerate⟩ := exists_run_generate hu h hid hr
  obtain ⟨hbefore, hafter⟩ := hgenerate (.ofNanos clock)
  have herror := generate_of_scheduleRuns_error hafter hrun hkind
  rcases ofSchedules_filter_eq_error_or (·.id ≠ q.id) herror with herror | ⟨p, hp, hdropped, hfail⟩
  · rw [Tables.filter_listSchedules h] at herror
    rw [herror] at hbefore
    exact congrArg Prod.fst (run_scheduleRuns_of_generate_error hbefore)
  · -- the new schedule itself fails for its instants only
    obtain rfl := Tables.eq_of_mem_listSchedules h hp (by simpa using hdropped)
    rcases ofSchedule_error_cases hfail with hnone | ⟨-, rfl⟩
    · rw [hgrid] at hnone
      cases hnone
    · cases hkind

theorem blocks_of_grid (hgrid : q.grid = .error (.invalidInterval q.id)) :
    Blocks ((copying engine).resting u) ((copying engine).resting v) q := by
  intro strategy r clock log hr
  obtain ⟨d, hgenerate⟩ := exists_run_generate hu h hid hr
  obtain ⟨hbefore, hafter⟩ := hgenerate (.ofNanos clock)
  have hfail : r.ofSchedule (.ofNanos clock) d q = .error (.invalidInterval q.id) := by
    rw [Request.ofSchedule, hgrid]
    rfl
  obtain ⟨e, herror⟩ :=
    exists_ofSchedules_eq_error (Tables.mem_listSchedules_of_insertSchedule h) hfail
  rw [herror] at hafter
  refine ⟨e, run_scheduleRuns_of_generate_error hafter, ?_⟩
  rintro ⟨created, hcreated⟩
  rcases ofSchedules_filter_eq_error_or (·.id ≠ q.id) herror with herror | ⟨p, hp, hdropped, hfails⟩
  · rw [Tables.filter_listSchedules h] at herror
    rw [herror] at hbefore
    rw [run_scheduleRuns_of_generate_error hbefore] at hcreated
    cases hcreated
  · obtain rfl := Tables.eq_of_mem_listSchedules h hp (by simpa using hdropped)
    rw [hfail] at hfails
    cases hfails
    rfl

end Insert

section Transact

variable (hu : u.Whole) (context : String) (clock : Int) (log : List Log.Entry)

include hu

/-- A transaction commits an insertion that is accepted. -/
theorem run_transact_insertSchedule_of_ok (h : u.insertSchedule (bindSchedule q) = .ok v) :
    (World.transact (demand context (Repository.insertSchedule q))).run
        ⟨(copying engine).resting u, clock, log⟩ =
      (.ok (), ⟨(copying engine).resting v, clock, log⟩) := by
  have hinsert : (Repository.insertSchedule q).run ((copying engine).busy u u) =
      (.ok (.ok ()), (copying engine).busy u v) := run_insertSchedule_of_ok hu h
  exact (copying engine).run_transact (run_demand_of_ok hinsert) clock log

/-- It fails if the insertion is refused. -/
theorem run_transact_insertSchedule_of_error {fault : Fault}
    (h : u.insertSchedule (bindSchedule q) = .error fault) : ∃ e,
    (World.transact (demand context (Repository.insertSchedule q))).run
        ⟨(copying engine).resting u, clock, log⟩ =
      (.error e, ⟨(copying engine).resting u, clock, log⟩) := by
  obtain ⟨e, hinsert⟩ : ∃ e, (Repository.insertSchedule q).run ((copying engine).busy u u) =
      (.ok (.error e), (copying engine).busy u u) := run_insertSchedule_of_error hu h
  exact ⟨_, (copying engine).run_transact (run_demand_of_refused hinsert) clock log⟩

end Transact

/-- An insertion that a transaction commits has met no damage. -/
theorem undamaged_of_insertSchedule {db : Database} (hidle : db.Idle) {context : String}
    {clock : Int} {log : List Log.Entry} {w : World Database}
    (hrun : (World.transact (demand context (Repository.insertSchedule q))).run ⟨db, clock, log⟩ =
      (.ok (), w)) : db.file.damaged = false := by
  obtain ⟨tx, db₁, x, y, hbegin, hdemand, -, -⟩ := World.run_transact_eq_ok hrun
  rw [← (pending_of_begin hidle hbegin).1]
  exact (insertSchedule_eq_ok (run_demand_eq_ok hdemand)).1

end Calls

end Database

end Relational

end Timetable
