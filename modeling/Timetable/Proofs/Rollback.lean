import Timetable.Proofs.Order
import Timetable.Proofs.Relational.Requests

/-!
# Calls that fail

Whatever goes wrong with a call that schedules runs, and however far it has got, nothing of it is
committed, and the next transaction can begin: `failed_calls_leave_no_trace`. Nothing is assumed of
what is stored, nor of the clients of a database. A transaction of the program stays open whatever
is asked of it (`Reversible`), so that it is there to be undone when it is released.
-/

namespace Timetable

/-! ### Transactions that can be undone -/

section Statement

variable {σ τ γ : Type} [Repository σ τ]

/-- Calls that fail while no transaction is open leave what is committed, and leave no transaction
open: the next one begins if nobody else is in the way. -/
def LeavesNoTrace (Idle Free : σ → Prop) (contents : σ → γ) : Prop :=
  ∀ (s : σ) (strategy : LinkStrategy) (r : Request) (clock : Int) (log : List Log.Entry)
    (e : Failure) (w : World σ), Idle s →
    (scheduleRuns strategy r).run ⟨s, clock, log⟩ = (.error e, w) →
    contents w.store = contents s ∧ Idle w.store ∧
      (Free s → ∃ tx s', (Repository.begin : Action σ τ).run w.store = (.ok tx, s'))

/-- No transaction is open, and the given contents are committed. -/
structure Restored (Idle : σ → Prop) (contents : σ → γ) (c : γ) (s : σ) : Prop where
  idle : Idle s
  contents_eq : contents s = c

/-- A transaction that begins is open over what is committed. It stays so whatever scheduling asks
of it, and when it is released, nothing of it is left. -/
structure Reversible (Idle : σ → Prop) (contents : σ → γ) (Open : γ → σ × τ → Prop) : Prop where
  begin_ok : ∀ {s s' tx}, Idle s → Repository.begin.run s = (.ok tx, s') →
    Open (contents s) (s', tx)
  begin_error : ∀ {s s' e}, Idle s → (Repository.begin : Action σ τ).run s = (.error e, s') →
    Restored Idle contents (contents s) s'
  findDeployment : ∀ c id, Keeps (Open c) (Repository.findDeployment id)
  listSchedules : ∀ c id, Keeps (Open c) (Repository.listSchedules id)
  insertRuns : ∀ c rs, Keeps (Open c) (Repository.insertRuns rs)
  statelessRunIds : ∀ c ids, Keeps (Open c) (Repository.statelessRunIds ids)
  insertStates : ∀ c ss, Keeps (Open c) (Repository.insertStates ss)
  linkStates : ∀ c strategy ids, Keeps (Open c) (Repository.linkStates strategy ids)
  commit_error : ∀ {c x x' e}, Open c x → Repository.commit.run x = (.error e, x') →
    Restored Idle contents c (Repository.release x').2
  release : ∀ {c x}, Open c x → Restored Idle contents c (Repository.release x).2

end Statement

theorem Keeps.ofExcept {σ α : Type} {I : σ → Prop} (r : Except Failure α) :
    Keeps I (Action.ofExcept r) := fun _ hs => hs

theorem Keeps.demand {σ : Type} {I : σ → Prop} {x : Action σ Outcome} (context : String)
    (hx : Keeps I x) : Keeps I (demand context x) :=
  .bind hx fun _ => .ofExcept _

namespace Reversible

variable {σ τ γ : Type} [Repository σ τ] {Idle : σ → Prop} {contents : σ → γ}
  {Open : γ → σ × τ → Prop} (h : Reversible Idle contents Open) {c : γ} {s : σ}

include h

theorem keeps_generate (r : Request) (now : Instant) : Keeps (Open c) (r.generate now) := by
  refine .bind (h.findDeployment c _) fun d => ?_
  cases d with
  | none => exact .ofExcept _
  | some d => exact .bind (h.listSchedules c _) fun ss => .ofExcept _

theorem keeps_materialize (strategy : LinkStrategy) (cs : List Candidate) :
    Keeps (Open c) (materialize strategy cs) := by
  unfold materialize
  split
  · exact .pure _
  refine .bind (.demand _ (h.insertRuns c _)) fun _ => ?_
  refine .bind (h.statelessRunIds c _) fun x => ?_
  refine .bind (.ofExcept _) fun _ => ?_
  split
  · exact .pure _
  refine .bind (.demand _ (h.insertStates c _)) fun _ => ?_
  exact .bind (.demand _ (h.linkStates c _ _)) fun _ => .pure _

theorem keeps_schedulingWork (strategy : LinkStrategy) (r : Request) (now : Instant) :
    Keeps (Open c) (schedulingWork strategy r now) :=
  .bind (h.keeps_generate r now) fun cs => .bind (h.keeps_materialize strategy cs) fun _ => .pure _

/-- A transaction that fails, be it at its beginning, in its body or when it is committed, leaves no
trace. -/
theorem restored_of_transact {body : Action (σ × τ) α} (hbody : ∀ c, Keeps (Open c) body)
    (hidle : Idle s) {clock : Int} {log : List Log.Entry} {e : Failure} {w : World σ}
    (hfails : (World.transact body).run ⟨s, clock, log⟩ = (.error e, w)) :
    Restored Idle contents (contents s) w.store := by
  rcases hbegin : (Repository.begin : Action σ τ).run s with ⟨e' | tx, s₁⟩
  · rw [World.run_transact_of_begin_error hbegin] at hfails
    cases hfails
    exact h.begin_error hidle hbegin
  have hmid := hbody _ _ (h.begin_ok hidle hbegin)
  rcases hwork : (body >>= fun a => Repository.commit >>= fun _ => pure a).run (s₁, tx) with ⟨r, x⟩
  rw [World.run_transact_of_begin hbegin hwork] at hfails
  cases hfails
  rcases hrun : body.run (s₁, tx) with ⟨e' | a, x'⟩
  · rw [Action.run_bind_of_error hrun] at hwork
    cases hwork
    rw [hrun] at hmid
    exact h.release hmid
  · rw [Action.run_bind_of_ok hrun] at hwork
    rw [hrun] at hmid
    rcases hcommit : Repository.commit.run x' with ⟨e' | done, x''⟩
    · rw [Action.run_bind_of_error hcommit] at hwork
      cases hwork
      exact h.commit_error hmid hcommit
    · rw [Action.run_bind_of_ok hcommit] at hwork
      cases hwork

theorem leavesNoTrace {Free : σ → Prop} (hbegins : ∀ {s s' : σ}, Free s →
      Restored Idle contents (contents s) s' →
      ∃ tx s'', (Repository.begin : Action σ τ).run s' = (.ok tx, s'')) :
    LeavesNoTrace Idle Free contents := by
  intro s strategy r clock log e w hidle hfails
  obtain ⟨e' | a, w', hrun, ⟨⟩, hstore⟩ := run_transact_of_scheduleRuns hfails
  have hrestored := h.restored_of_transact (fun c => h.keeps_schedulingWork strategy r _) hidle hrun
  rw [← hstore] at hrestored
  exact ⟨hrestored.contents_eq, hrestored.idle, fun hfree => hbegins hfree hrestored⟩

end Reversible

/-! ### The two stores -/

namespace Keyed.Ledger

/-- A transaction works on a copy of tables that stay committed. -/
def Open (t : Tables) (x : Ledger × Transaction) : Prop := x.1 = ⟨t, true⟩ ∧ x.2.phase = .active

variable {t : Tables}

theorem keeps_view (f : Tables → α) : Keeps (Open t) (view f) := fun _ hx => hx

theorem keeps_changeAll (f : Tables → Outcome × Tables) : Keeps (Open t) (changeAll f) :=
  fun _ hx => hx

/-- Releasing an open transaction forgets its copy. -/
theorem restored_release {x : Ledger × Transaction} (hx : Open t x) :
    Restored (fun l : Ledger => l.locked = false) committed t (Repository.release x).2 := by
  obtain ⟨l, working, phase⟩ := x
  obtain ⟨rfl, rfl⟩ : l = ⟨t, true⟩ ∧ phase = .active := hx
  exact ⟨rfl, rfl⟩

theorem reversible : Reversible (fun l : Ledger => l.locked = false) committed Open where
  begin_ok := by
    rintro ⟨t, _⟩ s' tx rfl hbegin
    cases hbegin
    exact ⟨rfl, rfl⟩
  begin_error := by
    rintro ⟨t, _⟩ s' e rfl hbegin
    cases hbegin
  findDeployment _ _ := keeps_view _
  listSchedules _ _ := keeps_view _
  insertRuns _ _ := keeps_changeAll _
  statelessRunIds _ _ := keeps_view _
  insertStates _ _ := keeps_changeAll _
  linkStates _ _ _ := keeps_changeAll _
  commit_error := by
    rintro t ⟨l, working, phase⟩ x' e ⟨rfl, rfl⟩ hcommit
    cases hcommit
  release := restored_release

end Keyed.Ledger

namespace Relational

/-- A statement of a client that has a transaction leaves the file alone, and the transaction
goes on. -/
theorem Client.execute_of_pending (s : Statement α) (blocked : Bool) (file : File) {c : Client}
    (hc : c.pending.isSome = true) : (c.execute s blocked file).2.1 = file ∧
      (c.execute s blocked file).2.2.pending.isSome = true := by
  simp only [Client.execute, hc, if_true]
  split
  · exact ⟨rfl, hc⟩
  split
  · exact ⟨rfl, hc⟩
  split
  · exact ⟨rfl, hc⟩
  split
  · exact ⟨rfl, hc⟩
  split
  · exact ⟨rfl, hc⟩
  · exact ⟨rfl, rfl⟩

namespace Database

/-- The program has no transaction, and nobody holds the lock. -/
def Idle (db : Database) : Prop := db.locked = false ∧ db.own.pending = none

/-- What is not the program's own: the file, and the other client. -/
def shared (db : Database) : File × Client := (db.file, db.other)

/-- A transaction has changes pending, holds the lock, and is not finished. -/
structure Open (c : File × Client) (x : Database × Transaction) : Prop where
  shared_eq : x.1.shared = c
  pending : x.1.own.pending.isSome = true
  tx_eq : x.2 = ⟨false, false, true⟩

variable {c : File × Client}

theorem keeps_execute (s : Statement α) : Keeps (Open c) (execute s) := by
  rintro ⟨db, tx⟩ hx
  obtain ⟨hfile, hpending⟩ := Client.execute_of_pending s db.other.pending.isSome db.file hx.pending
  exact {
    shared_eq := by
      rw [← hx.shared_eq]
      exact congrArg (·, db.other) hfile
    pending := hpending
    tx_eq := hx.tx_eq }

theorem keeps_inquiry_open (q : Inquiry) :
    Keeps (Open c) (q.request : Action (Database × Transaction) q.Finding) :=
  keeps_inquiry (fun s _ => keeps_execute s) q

theorem keeps_write_open (w : Write) :
    Keeps (Open c) (w.request : Action (Database × Transaction) Outcome) :=
  keeps_write (fun s _ => keeps_execute s) w

/-- Whoever holds the lock can give it back. -/
theorem run_unlock_of_holds (db : Database) (committed finished : Bool) :
    unlock.run (db, ⟨committed, finished, true⟩) =
      (.ok (), { db with locked := false }, ⟨committed, finished, false⟩) := rfl

section Commit

variable {db : Database} (tx : Transaction) {w : Tables}

theorem run_commit_of_none (h : db.own.pending = none) :
    commit.run (db, tx) = (.error (.engine (.noTransaction .commit)), db, tx) := by
  simp only [Action.run, commit, Client.commit, h]

theorem run_commit_of_spoiled (h : db.own.pending = some w) (hspoiled : db.own.spoiled = true) :
    commit.run (db, tx) = (.error (.engine .malformed),
      { db with own := { db.own with pending := none, spoiled := false } }, tx) := by
  simp only [Action.run, commit, Client.commit, h, hspoiled, if_true]

theorem run_commit_of_sound (h : db.own.pending = some w) (hspoiled : db.own.spoiled = false) :
    commit.run (db, tx) = unlock.run
      ({ db with
          file := { db.file with tables := w }
          own := { db.own with pending := none, spoiled := false } },
        { tx with committed := true, finished := true }) := by
  simp only [Action.run, commit, Client.commit, h, hspoiled, Bool.false_eq_true, if_false]

theorem run_rollback_of_none (h : db.own.pending = none) :
    rollback.run (db, tx) =
      (.error (.engine (.noTransaction .rollback)), db, { tx with finished := true }) := by
  simp only [Action.run, rollback, Client.rollback, h]

theorem run_rollback_of_some (h : db.own.pending = some w) :
    rollback.run (db, tx) = unlock.run
      ({ db with own := { db.own with pending := none, spoiled := false } },
        { tx with finished := true }) := by
  simp only [Action.run, rollback, Client.rollback, h]

end Commit

/-- Releasing a transaction that holds the lock and is not finished undoes what is pending, if
anything is. -/
theorem restored_release (db : Database) :
    Restored Idle shared db.shared
      (Repository.release (db, (⟨false, false, true⟩ : Transaction))).2 := by
  have hlocked : (db.locked && !true) = false := Bool.and_false _
  cases hpending : db.own.pending with
  | none =>
    have hrollback : db.own.rollback = .error (.noTransaction .rollback) := by
      rw [Client.rollback, hpending]
    simp only [Repository.release, release, Bool.false_eq_true, if_false, hrollback]
    exact ⟨⟨hlocked, hpending⟩, rfl⟩
  | some tables =>
    have hrollback : db.own.rollback = .ok { db.own with pending := none, spoiled := false } := by
      rw [Client.rollback, hpending]
    simp only [Repository.release, release, Bool.false_eq_true, if_false, hrollback]
    exact ⟨⟨hlocked, rfl⟩, rfl⟩

/-- An idle database begins a transaction unless the other client has one. -/
theorem run_begin_of_idle {db : Database} (h : db.Idle) : begin.run db =
    if db.other.pending.isSome then (.error (.engine .locked), db)
    else (.ok ⟨false, false, true⟩,
      { db with
        own := { db.own with pending := some db.file.tables, spoiled := false }
        locked := true }) := by
  obtain ⟨hlocked, hpending⟩ := h
  simp only [Action.run, begin, hlocked, Client.begin, hpending, Option.isSome_none,
    Bool.false_eq_true, if_false]
  cases db.other.pending.isSome <;> rfl

/-- A transaction that has begun has the tables of the file pending. -/
theorem pending_of_begin {db db' : Database} {tx : Transaction} (h : db.Idle)
    (hbegin : begin.run db = (.ok tx, db')) :
    db'.file = db.file ∧ db'.own.pending = some db.file.tables := by
  rw [run_begin_of_idle h] at hbegin
  split at hbegin <;> cases hbegin
  exact ⟨rfl, rfl⟩

theorem reversible : Reversible Idle shared Open where
  begin_ok := by
    intro db s' tx hidle hbegin
    have hrun : begin.run db = (.ok tx, s') := hbegin
    rw [run_begin_of_idle hidle] at hrun
    split at hrun
    · cases hrun
    · cases hrun
      exact ⟨rfl, rfl, rfl⟩
  begin_error := by
    intro db s' e hidle hbegin
    have hrun : begin.run db = (.error e, s') := hbegin
    rw [run_begin_of_idle hidle] at hrun
    split at hrun
    · cases hrun
      exact ⟨hidle, rfl⟩
    · cases hrun
  findDeployment _ id := keeps_inquiry_open (.findDeployment id)
  listSchedules _ id := keeps_inquiry_open (.listSchedules id)
  insertRuns _ rs := keeps_write_open (.insertRuns rs)
  statelessRunIds _ ids := keeps_inquiry_open (.statelessRunIds ids)
  insertStates _ ss := keeps_write_open (.insertStates ss)
  linkStates _ strategy ids := keeps_write_open (.linkStates strategy ids)
  commit_error := by
    rintro _ ⟨⟨file, ⟨pending, spoiled, known, met⟩, other, locked⟩, _⟩ x' e ⟨rfl, hpending, rfl⟩
      hcommit
    obtain ⟨tables, rfl⟩ := Option.isSome_iff_exists.1 hpending
    cases spoiled with
    | false => cases hcommit
    | true =>
      -- the engine has undone the transaction, and releasing it reports that there is none
      cases hcommit
      exact restored_release _
  release := by
    rintro _ ⟨db, _⟩ ⟨rfl, -, rfl⟩
    exact restored_release db

end Database

end Relational

/-- Whatever is stored, whatever is asked for and wherever it goes wrong, a call that fails leaves
either store as it was, with no transaction open. The next one begins, in a database unless the
client outside the program has a transaction. -/
theorem failed_calls_leave_no_trace :
    LeavesNoTrace (fun l : Keyed.Ledger => l.locked = false) (fun _ => True)
        Keyed.Ledger.committed ∧
      LeavesNoTrace Relational.Database.Idle (fun db => db.other.pending = none)
        Relational.Database.shared := by
  constructor
  · refine Keyed.Ledger.reversible.leavesNoTrace fun {s s'} _ hrestored => ?_
    obtain ⟨t, locked⟩ := s'
    obtain rfl : locked = false := hrestored.idle
    exact ⟨_, _, rfl⟩
  · refine Relational.Database.reversible.leavesNoTrace fun {s s'} hfree hrestored => ?_
    have hother : s'.other = s.other := congrArg Prod.snd hrestored.contents_eq
    have hbegin := Relational.Database.run_begin_of_idle hrestored.idle
    rw [hother, hfree, if_neg (by simp)] at hbegin
    exact ⟨_, _, hbegin⟩

/-! ### A call that fails after it has written -/

namespace Keyed.Tables

theorem append_quote_ne (s : String) : s ++ "'" ≠ s := by
  intro h
  have hlength := congrArg String.length h
  simp at hlength

/-- A run with neither the id nor the key of a candidate. -/
def strayRun (c : Candidate) : FlowRun :=
  Ledger.plainRun (c.run.id ++ "'") (c.run.idempotencyKey ++ "'")

/-- The first state of a candidate, given to another run. -/
def strayState (c : Candidate) : RunState := { c.state with runId := (strayRun c).id }

/-- Tables where another run has a state with the id of a candidate's first state. -/
def occupied (c : Candidate) : Tables :=
  ((hourlyTables.insertRuns [strayRun c]).2.insertStates [strayState c]).2

variable (c : Candidate)

theorem wellFormed_occupied : (occupied c).WellFormed :=
  (wellFormed_hourlyTables.insertRuns _).insertStates _

theorem occupied_eq : ∃ runKeys statesByRun, occupied c =
    { hourlyTables with
      runs := .insert .empty (strayRun c).id (strayRun c), runKeys
      states := .insert .empty c.state.id (strayState c), statesByRun } := by
  have hstored : (OrderedMap.insert .empty (strayRun c).id (strayRun c)).contains
      (strayState c).runId = true := (OrderedMap.contains_insert _ _ _ _).2 (.inl rfl)
  obtain ⟨statesByRun, hinsert⟩ : ∃ statesByRun,
      (hourlyTables.insertRuns [strayRun c]).2.insertState (strayState c) =
        .ok { (hourlyTables.insertRuns [strayRun c]).2 with
          states := .insert .empty c.state.id (strayState c), statesByRun } := by
    refine ⟨_, (if_neg ?_).trans rfl⟩
    rw [Bool.not_eq_true', Bool.not_eq_false]
    exact hstored
  refine ⟨.insert .empty (strayRun c).key (), statesByRun, ?_⟩
  rw [occupied, insertStates, hinsert]
  rfl

/-- The candidate's run can be inserted, but it cannot be given its state. -/
theorem clash_occupied : (occupied c).Clash [c] := by
  obtain ⟨runKeys, statesByRun, htables⟩ := occupied_eq c
  have hfresh : (occupied c).Fresh [] c.unlinkedRun := by
    intro q hq
    rw [htables, List.append_nil, OrderedMap.mem_values_insert rfl] at hq
    rcases hq with hq | rfl
    · cases hq
    · intro hkey
      exact append_quote_ne _ (congrArg RunKey.idempotencyKey hkey)
  have hnew : (occupied c).IsNew [c] c.run.id := by
    refine ⟨⟨c, List.mem_singleton_self c, rfl⟩, .inr ⟨[], c.unlinkedRun, [], rfl, hfresh, rfl⟩, ?_⟩
    intro s hs
    rw [htables, OrderedMap.mem_values_insert rfl] at hs
    rcases hs with hs | rfl
    · cases hs
    · exact append_quote_ne _
  refine .inr ⟨[], c.firstState, [], ?_, .inl ?_⟩
  · simp [newCandidates, firsts, hnew]
  · rw [htables]
    exact (OrderedMap.contains_insert _ _ _ _).2 (.inl rfl)

end Keyed.Tables

/-- Nothing can be read from the pages of a damaged file. -/
theorem run_scheduleRuns_damaged : ∃ e w, (scheduleRuns .updateJoin firstHour).run
    ⟨Relational.Database.connect .current ⟨.none, true⟩, 0, []⟩ = (.error e, w) := ⟨_, _, rfl⟩

open Keyed.Tables in
/-- The run of the first hour has been inserted when its state is refused, and nothing of it is
left. A database with a damaged file stays as it is, too. -/
theorem failed_calls_leave_no_trace_first_hour :
    (∃ (t : Keyed.Tables) (e : Failure) (w : World Keyed.Ledger),
      (scheduleRuns .updateJoin firstHour).run ⟨(⟨t, false⟩ : Keyed.Ledger), 0, []⟩ =
          (.error e, w) ∧
        t.runs.values ≠ [] ∧ w.store.committed = t ∧ w.store.locked = false) ∧
      ∃ e w, (scheduleRuns .updateJoin firstHour).run
          ⟨Relational.Database.connect .current ⟨.none, true⟩, 0, []⟩ = (.error e, w) ∧
        w.store.shared = (Relational.Database.connect .current ⟨.none, true⟩).shared ∧
        w.store.Idle := by
  obtain ⟨c, hc⟩ := exists_ofSchedules_firstHour
  obtain ⟨runKeys, statesByRun, htables⟩ := occupied_eq c
  have hgenerate : (occupied c).generate firstHour (.ofNanos 0) = .ok [c] :=
    (generate_hourly (by rw [htables]) (by rw [htables]) rfl _).trans hc
  obtain ⟨e, he⟩ := (materialize_refused_iff (wellFormed_occupied c) .updateJoin [c]).2
    (clash_occupied c)
  obtain ⟨log, hrun⟩ := Keyed.Ledger.run_scheduleRuns (wellFormed_occupied c)
    (firstHourJob .updateJoin) []
  rw [perform_of_error hgenerate he] at hrun
  have hruns : (occupied c).runs.values ≠ [] := by
    have hstray : strayRun c ∈ (occupied c).runs.values := by
      rw [htables, OrderedMap.mem_values_insert rfl]
      exact .inr rfl
    exact List.ne_nil_of_mem hstray
  obtain ⟨hcommitted, hlocked, -⟩ :=
    failed_calls_leave_no_trace.1 ⟨occupied c, false⟩ .updateJoin firstHour 0 [] e _ rfl hrun
  obtain ⟨e', w, hdamaged⟩ := run_scheduleRuns_damaged
  obtain ⟨hshared, hidle, -⟩ := failed_calls_leave_no_trace.2
    (Relational.Database.connect .current ⟨.none, true⟩) .updateJoin firstHour 0 [] e' w
    ⟨rfl, rfl⟩ hdamaged
  exact ⟨⟨occupied c, e, _, hrun, hruns, hcommitted, hlocked⟩, e', w, hdamaged, hshared, hidle⟩

end Timetable
