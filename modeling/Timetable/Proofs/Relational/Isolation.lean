import Mathlib.Data.List.Induction
import Timetable.Proofs.Rollback

/-!
# Transaction objects that share a client

All transaction objects of a database send their statements through one client, which does not know
them apart and does not ask how far they have got. So stored rows change in two ways: a commit
through any object makes permanent what the client has pending, and a statement through any object
takes effect at once while nothing is pending (`RowChange`). An object that is used after it has
ended therefore writes rows that nobody commits (`stale_object_writes`). As long as no object is,
transactions are what they should be: `rows_change_by_commit_unless_stale`.
-/

namespace Timetable

namespace Relational

variable {ι : Type} [DecidableEq ι]

/-! ### How stored rows change -/

/-- A deed changes the rows that are stored. -/
def ChangesRows (y : Desk Database Transaction ι) (d : Deed ι) : Prop :=
  (y.step d).store.file.tables ≠ y.store.file.tables

instance (y : Desk Database Transaction ι) (d : Deed ι) : Decidable (ChangesRows y d) :=
  inferInstanceAs (Decidable (_ ≠ _))

/-- The two ways in which stored rows change. -/
inductive RowChange (y : Desk Database Transaction ι) : Deed ι → Prop
  /-- What the client has pending becomes permanent, through whatever object it came there. -/
  | committed {i tx w} (hi : y.objects i = some tx) (hpending : y.store.own.pending = some w)
      (hspoiled : y.store.own.spoiled = false)
      (hrows : (y.step (.commit i)).store.file.tables = w) : RowChange y (.commit i)
  /-- A statement takes effect at once. -/
  | atOnce {i tx w} (hi : y.objects i = some tx) (hpending : y.store.own.pending = none) :
      RowChange y (.errand i (.write w))

/-- A statement that only reads leaves the file alone, in a transaction or outside. -/
theorem Client.file_execute_of_readsOnly {s : Statement α} (hs : s.ReadsOnly) (blocked : Bool)
    (file : File) (c : Client) : (c.execute s blocked file).2.1 = file := by
  simp only [Client.execute]
  split
  · rfl
  split
  · rfl
  split
  · rfl
  split
  · rfl
  split
  · rfl
  next a u hrun =>
  obtain rfl := hs _ _ _ hrun
  cases c.pending <;> rfl

/-- No statement that looks at rows gets anywhere in a damaged file. -/
theorem Client.file_execute_of_damaged {s : Statement α} (hs : s.visitsRows = true) (blocked : Bool)
    {file : File} (hfile : file.damaged = true) (c : Client) :
    (c.execute s blocked file).2.1 = file := by
  simp only [Client.execute, hs, hfile, and_self, if_true]
  split
  · rfl
  split
  · rfl
  split <;> rfl

/-- No statement starts a transaction. -/
theorem Client.pending_execute_of_none (s : Statement α) (blocked : Bool) (file : File) {c : Client}
    (hc : c.pending = none) : (c.execute s blocked file).2.2.pending = none := by
  simp only [Client.execute, hc, Option.isSome_none, Bool.false_eq_true, if_false]
  split
  · exact hc
  split
  · rfl
  split
  · rfl
  split
  · rfl
  split <;> rfl

/-- A client notes a damaged page only if there is one. -/
theorem Client.damaged_of_execute (s : Statement α) (blocked : Bool) (file : File) {c : Client}
    (hc : c.spoiled = true → file.damaged = true)
    (h : (c.execute s blocked file).2.2.spoiled = true) : file.damaged = true := by
  simp only [Client.execute] at h
  split at h
  · exact hc h
  split at h
  · exact hc h
  split at h
  · exact hc h
  split at h
  · next hdamaged => exact hdamaged.1
  split at h
  · exact hc h
  split at h
  · exact hc h
  · exact hc h

namespace Database

theorem file_begin (db : Database) : (begin.run db).2.file = db.file := by
  simp only [Action.run, begin]
  split
  · rfl
  split <;> rfl

theorem file_release (db : Database) (tx : Transaction) : (release (db, tx)).2.file = db.file := by
  simp only [release]
  split
  · rfl
  split <;> rfl

theorem file_unlock (db : Database) (tx : Transaction) :
    (unlock.run (db, tx)).2.1.file = db.file := by
  simp only [Action.run, unlock]
  split <;> rfl

theorem file_rollback (db : Database) (tx : Transaction) :
    (rollback.run (db, tx)).2.1.file = db.file := by
  cases h : db.own.pending with
  | none => rw [run_rollback_of_none _ h]
  | some w => rw [run_rollback_of_some _ h, file_unlock]

theorem file_inquiry (q : Inquiry) (x : Database × Transaction) :
    ((q.request : Action (Database × Transaction) q.Finding).run x).2.1.file = x.1.file :=
  keeps_inquiry (I := fun x' => x'.1.file = x.1.file)
    (fun _ hs _ hx' => (Client.file_execute_of_readsOnly hs _ _ _).trans hx') q x rfl

theorem file_write_of_pending (w : Write) {x : Database × Transaction}
    (hx : x.1.own.pending.isSome = true) :
    ((w.request : Action (Database × Transaction) Outcome).run x).2.1.file = x.1.file := by
  refine (keeps_write (I := fun x' => x'.1.file = x.1.file ∧ x'.1.own.pending.isSome = true) ?_ w x
    ⟨rfl, hx⟩).1
  intro α s _ x' hx'
  obtain ⟨hfile, hpending⟩ := Client.execute_of_pending s x'.1.other.pending.isSome x'.1.file hx'.2
  exact ⟨hfile.trans hx'.1, hpending⟩

end Database

section Step

open Database

variable {y : Desk Database Transaction ι} {i : ι}

theorem file_step_begin : (y.step (.begin i)).store.file = y.store.file := by
  cases hi : y.objects i with
  | some tx => rw [Desk.step_begin_of_some hi]
  | none =>
    have hfile := file_begin y.store
    rcases hrun : begin.run y.store with ⟨e | tx, s⟩
    · rw [hrun] at hfile
      rw [Desk.step_begin_of_error hi hrun]
      exact hfile
    · rw [hrun] at hfile
      rw [Desk.step_begin_of_ok hi hrun]
      exact hfile

theorem file_step_rollback : (y.step (.rollback i)).store.file = y.store.file := by
  rw [Desk.step_rollback]
  cases hi : y.objects i with
  | none => rw [Desk.use_of_none hi]
  | some tx =>
    rw [Desk.use_of_some hi]
    exact file_rollback y.store tx

theorem file_step_destroy : (y.step (.destroy i)).store.file = y.store.file := by
  cases hi : y.objects i with
  | none => rw [Desk.step_destroy_of_none hi]
  | some tx =>
    rw [Desk.step_destroy_of_some hi]
    exact file_release y.store tx

/-- An errand changes the file only if it writes, and nothing is pending. -/
theorem rowChange_of_errand {e : Errand}
    (h : (y.step (.errand i e)).store.file ≠ y.store.file) : RowChange y (.errand i e) := by
  rw [Desk.step_errand] at h
  cases hi : y.objects i with
  | none => exact absurd (by rw [Desk.use_of_none hi]) h
  | some tx =>
    rw [Desk.use_of_some hi] at h
    cases e with
    | read q => exact absurd (file_inquiry q (y.store, tx)) h
    | write w =>
      cases hpending : y.store.own.pending with
      | none => exact .atOnce hi hpending
      | some u =>
        refine absurd (file_write_of_pending w (x := (y.store, tx)) ?_) h
        rw [hpending]
        rfl

/-- A commit changes the file only if something is pending that can be committed. -/
theorem rowChange_of_commit (h : (y.step (.commit i)).store.file ≠ y.store.file) :
    RowChange y (.commit i) := by
  cases hi : y.objects i with
  | none => exact absurd (by rw [Desk.step_commit, Desk.use_of_none hi]) h
  | some tx =>
    have hstep : (y.step (.commit i)).store = (commit.run (y.store, tx)).2.1 := by
      rw [Desk.step_commit, Desk.use_of_some hi]
      rfl
    rw [hstep] at h
    cases hpending : y.store.own.pending with
    | none => exact absurd (by rw [run_commit_of_none _ hpending]) h
    | some w =>
      cases hspoiled : y.store.own.spoiled with
      | true => exact absurd (by rw [run_commit_of_spoiled _ hpending hspoiled]) h
      | false =>
        refine .committed hi hpending hspoiled ?_
        rw [hstep, run_commit_of_sound _ hpending hspoiled, file_unlock]

/-- Rows change in no other way. -/
theorem ChangesRows.rowChange {d : Deed ι} (h : ChangesRows y d) : RowChange y d := by
  have hfile : (y.step d).store.file ≠ y.store.file := fun hfile => h (congrArg File.tables hfile)
  cases d with
  | begin i => exact absurd file_step_begin hfile
  | errand i e => exact rowChange_of_errand hfile
  | commit i => exact rowChange_of_commit hfile
  | rollback i => exact absurd file_step_rollback hfile
  | destroy i => exact absurd file_step_destroy hfile

end Step

/-! ### Objects that are not used after they have ended -/

end Relational

open Relational in
/-- A deed does not use an object that has ended, except to give it up. -/
def Deed.Careful {ι : Type} (y : Desk Database Relational.Transaction ι) : Deed ι → Prop
  | errand i _ | commit i | rollback i => ∀ tx, y.objects i = some tx → tx.finished = false
  | begin _ | destroy _ => True

instance {ι : Type} (y : Desk Relational.Database Relational.Transaction ι) :
    (d : Deed ι) → Decidable (d.Careful y)
  | .errand i _ | .commit i | .rollback i =>
    decidable_of_iff ((y.objects i).all (·.finished = false) = true) (by
      rw [Option.all_eq_true]
      simp [Deed.Careful])
  | .begin _ | .destroy _ => isTrue trivial

namespace Relational

variable {ι : Type} [DecidableEq ι]

/-- Each of a series of deeds is careful when its turn comes. -/
def AllCareful (y : Desk Database Transaction ι) : List (Deed ι) → Prop
  | [] => True
  | d :: ds => d.Careful y ∧ AllCareful (y.step d) ds

/-- Going through the deeds tells whether all are careful. -/
def AllCareful.dec : (y : Desk Database Transaction ι) → (ds : List (Deed ι)) →
    Decidable (AllCareful y ds)
  | _, [] => isTrue trivial
  | y, d :: ds =>
    have := dec (y.step d) ds
    inferInstanceAs (Decidable (d.Careful y ∧ AllCareful (y.step d) ds))

instance (y : Desk Database Transaction ι) (ds : List (Deed ι)) : Decidable (AllCareful y ds) :=
  AllCareful.dec y ds

theorem allCareful_concat {y : Desk Database Transaction ι} {ds : List (Deed ι)} {d : Deed ι} :
    AllCareful y (ds ++ [d]) ↔ AllCareful y ds ∧ d.Careful (y.after ds) := by
  induction ds generalizing y with
  | nil => simp [AllCareful]
  | cons d' ds ih => simp [AllCareful, ih, and_assoc]

/-- A transaction began in an object, and the errands of this object alone have led to `x`. -/
def Work (z : Desk Database Transaction ι) (past : List (Deed ι)) (i : ι)
    (x : Database × Transaction) : Prop :=
  ∃ before during s tx, past = before ++ .begin i :: during ∧
    (Repository.begin : Action Database Transaction).run (z.after before).store = (.ok tx, s) ∧
    x = (errands i during).foldl Errand.run (s, tx)

namespace Work

variable {z : Desk Database Transaction ι} {past : List (Deed ι)} {i : ι}
  {x : Database × Transaction}

theorem errand (h : Work z past i x) (e : Errand) : Work z (past ++ [.errand i e]) i (e.run x) := by
  obtain ⟨before, during, s, tx, rfl, hbegin, rfl⟩ := h
  refine ⟨before, during ++ [.errand i e], s, tx, by simp, hbegin, ?_⟩
  simp [errands, List.foldl_append]

theorem concat (h : Work z past i x) {d : Deed ι} (hd : ∀ e, d ≠ .errand i e) :
    Work z (past ++ [d]) i x := by
  obtain ⟨before, during, s, tx, rfl, hbegin, rfl⟩ := h
  refine ⟨before, during ++ [d], s, tx, by simp, hbegin, ?_⟩
  have hnone : errands i [d] = [] := by
    cases d with
    | errand j e =>
      have hj : j ≠ i := by
        rintro rfl
        exact hd e rfl
      simp [errands, hj]
    | begin j | commit j | rollback j | destroy j => rfl
  rw [errands_append, hnone, List.append_nil]

end Work

/-- An object that has ended and gave the lock back. -/
def Done (tx : Transaction) : Prop := tx.finished = true ∧ tx.holdsLock = false

/-- A transaction that can be committed, or has met a damaged page. -/
structure Busy (x : Database × Transaction) : Prop where
  tx_eq : x.2 = ⟨false, false, true⟩
  locked : x.1.locked = true
  pending : x.1.own.pending.isSome = true
  damaged : x.1.own.spoiled = true → x.1.file.damaged = true

/-- An object that holds the lock for nothing, since its commit has failed in a damaged file. -/
structure Blocked (x : Database × Transaction) : Prop where
  holdsLock : x.2.holdsLock = true
  locked : x.1.locked = true
  pending : x.1.own.pending = none
  damaged : x.2.finished = false → x.1.file.damaged = true

/-- How a desk stands after careful deeds. -/
inductive Standing (z : Desk Database Transaction ι) (past : List (Deed ι))
    (y : Desk Database Transaction ι) : Prop
  | free (hdone : ∀ j tx, y.objects j = some tx → Done tx) (hidle : y.store.Idle)
  | busy {i tx} (hi : y.objects i = some tx)
      (hothers : ∀ j tx, j ≠ i → y.objects j = some tx → Done tx) (hbusy : Busy (y.store, tx))
      (hwork : Work z past i (y.store, tx))
  | blocked {i tx} (hi : y.objects i = some tx)
      (hothers : ∀ j tx, j ≠ i → y.objects j = some tx → Done tx)
      (hblocked : Blocked (y.store, tx))

section Careful

variable {y : Desk Database Transaction ι} {i : ι} {d : Deed ι}

/-- Whoever is careful does nothing with an object that has ended, except to give it up. -/
theorem step_eq_of_careful (hcareful : d.Careful y)
    (hdone : ∀ tx, y.objects d.object = some tx → Done tx) (hbegin : ∀ j, d ≠ .begin j)
    (hdestroy : ∀ j, d ≠ .destroy j) : y.step d = y := by
  cases hobject : y.objects d.object with
  | none => exact Desk.step_of_none hobject hbegin
  | some tx =>
    have hfinished := (hdone tx hobject).1
    cases d with
    | begin j => exact absurd rfl (hbegin j)
    | destroy j => exact absurd rfl (hdestroy j)
    | errand j e | commit j | rollback j =>
      have hnot := hcareful tx hobject
      rw [hfinished] at hnot
      cases hnot

/-- Giving an object up that has ended changes nothing but that it is gone. -/
theorem release_of_done {db : Database} {tx : Transaction} (h : Done tx) :
    (Repository.release (db, tx)).2 = db := by
  obtain ⟨committed, finished, holdsLock⟩ := tx
  obtain ⟨rfl, rfl⟩ : finished = true ∧ holdsLock = false := h
  show { db with locked := db.locked && true } = db
  rw [Bool.and_true]

/-- While an object holds the lock, nothing comes of what others do, and they stay done. -/
theorem step_other (hlocked : y.store.locked = true)
    (hothers : ∀ j tx, j ≠ i → y.objects j = some tx → Done tx) (hcareful : d.Careful y)
    (hd : d.object ≠ i) : (y.step d).store = y.store ∧
      ∀ j tx, j ≠ i → (y.step d).objects j = some tx → Done tx := by
  cases d with
  | begin j =>
    cases hj : y.objects j with
    | some tx =>
      rw [Desk.step_begin_of_some hj]
      exact ⟨rfl, hothers⟩
    | none =>
      have hrun : (Repository.begin : Action Database Transaction).run y.store =
          (.error .waiting, y.store) := by
        show Database.begin.run y.store = _
        simp only [Action.run, Database.begin, hlocked, if_true]
      rw [Desk.step_begin_of_error hj hrun]
      exact ⟨rfl, hothers⟩
  | destroy j =>
    cases hj : y.objects j with
    | none =>
      rw [Desk.step_destroy_of_none hj]
      exact ⟨rfl, hothers⟩
    | some tx =>
      rw [Desk.step_destroy_of_some hj]
      refine ⟨release_of_done (hothers j tx hd hj), fun k tx' hk h => ?_⟩
      exact hothers k tx' hk (Desk.objects_drop_eq_some.1 h).2
  | errand j e | commit j | rollback j =>
    rw [step_eq_of_careful hcareful (fun tx => hothers _ tx hd) (by simp) (by simp)]
    exact ⟨rfl, hothers⟩

theorem keeps_execute_busy (s : Statement α) : Keeps Busy (Database.execute s) := by
  intro x h
  obtain ⟨hfile, hpending⟩ :=
    Client.execute_of_pending s x.1.other.pending.isSome x.1.file h.pending
  exact {
    tx_eq := h.tx_eq
    locked := h.locked
    pending := hpending
    damaged := by
      intro hspoiled
      rw [show (((Database.execute s).run x).2.1.file) = x.1.file from hfile]
      exact Client.damaged_of_execute s x.1.other.pending.isSome x.1.file h.damaged hspoiled }

theorem Busy.errand {x : Database × Transaction} (h : Busy x) (e : Errand) : Busy (e.run x) := by
  cases e with
  | write w => exact Database.keeps_write (fun s _ => keeps_execute_busy s) w x h
  | read q => exact Database.keeps_inquiry (fun s _ => keeps_execute_busy s) q x h

/-- Outside a transaction, no errand gets anywhere in a damaged file. -/
theorem errand_of_damaged {x : Database × Transaction} (hfile : x.1.file.damaged = true)
    (hpending : x.1.own.pending = none) (e : Errand) : (e.run x).1.file = x.1.file ∧
      (e.run x).1.own.pending = none ∧ (e.run x).1.locked = x.1.locked ∧ (e.run x).2 = x.2 := by
  have hkeeps : ∀ {α : Type} (s : Statement α), s.visitsRows = true ∨ s.ReadsOnly →
      Keeps (fun x' => x'.1.file = x.1.file ∧ x'.1.own.pending = none ∧
        x'.1.locked = x.1.locked ∧ x'.2 = x.2) (Database.execute s) := by
    rintro α s hs x' ⟨hfile', hpending', hlocked, htx⟩
    refine ⟨Eq.trans ?_ hfile', Client.pending_execute_of_none s _ _ hpending', hlocked, htx⟩
    rcases hs with hs | hs
    · rw [← hfile'] at hfile
      exact Client.file_execute_of_damaged hs _ hfile _
    · exact Client.file_execute_of_readsOnly hs _ _ _
  have hx : x.1.file = x.1.file ∧ x.1.own.pending = none ∧ x.1.locked = x.1.locked ∧ x.2 = x.2 :=
    ⟨rfl, hpending, rfl, rfl⟩
  cases e with
  | write w => exact Database.keeps_write (fun s hs => hkeeps s (.inl hs)) w x hx
  | read q => exact Database.keeps_inquiry (fun s hs => hkeeps s (.inr hs)) q x hx

theorem Blocked.errand {x : Database × Transaction} (h : Blocked x) (hx : x.2.finished = false)
    (e : Errand) : Blocked (e.run x) := by
  obtain ⟨hfile, hpending, hlocked, htx⟩ := errand_of_damaged (h.damaged hx) h.pending e
  exact {
    holdsLock := htx ▸ h.holdsLock
    locked := hlocked ▸ h.locked
    pending := hpending
    damaged := fun _ => hfile ▸ h.damaged hx }

/-- Releasing an object that holds the lock for nothing gives the lock back. -/
theorem Blocked.idle_release {x : Database × Transaction} (h : Blocked x) :
    (Repository.release x).2.Idle := by
  obtain ⟨db, committed, finished, holdsLock⟩ := x
  obtain ⟨rfl, -, hpending, -⟩ := h
  have hlocked : (db.locked && !true) = false := Bool.and_false _
  have hrollback : db.own.rollback = .error (.noTransaction .rollback) := by
    rw [Client.rollback, hpending]
  cases finished with
  | true => exact ⟨hlocked, hpending⟩
  | false =>
    show (Database.release (db, _)).2.Idle
    simp only [Database.release, hrollback]
    exact ⟨hlocked, hpending⟩

end Careful

namespace Standing

variable {z y : Desk Database Transaction ι} {past : List (Deed ι)} {i : ι} {d : Deed ι}

/-- Once the only object that was not done is done, nothing is pending for anyone. -/
theorem free_put (hothers : ∀ j tx, j ≠ i → y.objects j = some tx → Done tx)
    {db : Database} {tx : Transaction} (hdone : Done tx) (hidle : db.Idle) :
    Standing z past (y.put i (db, tx)) := by
  refine .free (fun j tx' hj => ?_) hidle
  by_cases hji : j = i
  · subst hji
    rw [Desk.objects_put_self] at hj
    cases hj
    exact hdone
  · rw [Desk.objects_put_of_ne _ hji] at hj
    exact hothers j tx' hji hj

theorem free_drop (hothers : ∀ j tx, j ≠ i → y.objects j = some tx → Done tx) {db : Database}
    (hidle : db.Idle) : Standing z past (y.drop i db) := by
  refine .free (fun j tx' hj => ?_) hidle
  obtain ⟨hji, hj⟩ := Desk.objects_drop_eq_some.1 hj
  exact hothers j tx' hji hj

theorem step_free (hy : y = z.after past) (hdone : ∀ j tx, y.objects j = some tx → Done tx)
    (hidle : y.store.Idle) (hcareful : d.Careful y) : Standing z (past ++ [d]) (y.step d) := by
  cases d with
  | begin i =>
    cases hi : y.objects i with
    | some tx =>
      rw [Desk.step_begin_of_some hi]
      exact .free hdone hidle
    | none =>
      have hrun := Database.run_begin_of_idle hidle
      split at hrun
      · rw [Desk.step_begin_of_error hi hrun]
        exact .free hdone hidle
      · rw [Desk.step_begin_of_ok hi hrun]
        refine .busy (Desk.objects_put_self _) (fun j tx hj h => ?_)
          ⟨rfl, rfl, rfl, by simp [Desk.put]⟩ ⟨past, [], _, _, rfl, ?_, rfl⟩
        · rw [Desk.objects_put_of_ne _ hj] at h
          exact hdone j tx h
        · rw [← hy]
          exact hrun
  | destroy i =>
    cases hi : y.objects i with
    | none =>
      rw [Desk.step_destroy_of_none hi]
      exact .free hdone hidle
    | some tx =>
      rw [Desk.step_destroy_of_some hi, release_of_done (hdone i tx hi)]
      exact free_drop (fun j tx' _ => hdone j tx') hidle
  | errand i e | commit i | rollback i =>
    rw [step_eq_of_careful hcareful (hdone _) (by simp) (by simp)]
    exact .free hdone hidle

/-- A deed about another object than the holder's leaves everything as it stands for the holder. -/
theorem holder_step {tx : Transaction} (hi : y.objects i = some tx) (hd : d.object ≠ i) :
    (y.step d).objects i = some tx := by
  rw [Desk.objects_step_of_ne d (Ne.symm hd)]
  exact hi

theorem others_put (hothers : ∀ j tx, j ≠ i → y.objects j = some tx → Done tx)
    (x : Database × Transaction) : ∀ j tx, j ≠ i → (y.put i x).objects j = some tx → Done tx := by
  intro j tx hj h
  rw [Desk.objects_put_of_ne _ hj] at h
  exact hothers j tx hj h

theorem step_busy {tx : Transaction} (hi : y.objects i = some tx)
    (hothers : ∀ j tx, j ≠ i → y.objects j = some tx → Done tx) (hbusy : Busy (y.store, tx))
    (hwork : Work z past i (y.store, tx)) (hcareful : d.Careful y) :
    Standing z (past ++ [d]) (y.step d) := by
  by_cases hobject : d.object = i
  · obtain ⟨w, hpending⟩ := Option.isSome_iff_exists.1 hbusy.pending
    obtain rfl : tx = ⟨false, false, true⟩ := hbusy.tx_eq
    cases d with
    | begin j =>
      obtain rfl : j = i := hobject
      rw [Desk.step_begin_of_some hi]
      exact .busy hi hothers hbusy (hwork.concat (by simp))
    | errand j e =>
      obtain rfl : j = i := hobject
      rw [Desk.step_errand, Desk.use_of_some hi]
      exact .busy (Desk.objects_put_self _) (others_put hothers _) (hbusy.errand e)
        (hwork.errand e)
    | commit j =>
      obtain rfl : j = i := hobject
      rw [Desk.step_commit, Desk.use_of_some hi]
      show Standing _ _ (y.put j (Database.commit.run (y.store, _)).2)
      cases hspoiled : y.store.own.spoiled with
      | false =>
        rw [Database.run_commit_of_sound _ hpending hspoiled, Database.run_unlock_of_holds]
        exact free_put hothers ⟨rfl, rfl⟩ ⟨rfl, rfl⟩
      | true =>
        -- the engine has undone the transaction, but the object does not take that for its end
        rw [Database.run_commit_of_spoiled _ hpending hspoiled]
        exact .blocked (Desk.objects_put_self _) (others_put hothers _)
          ⟨rfl, hbusy.locked, rfl, fun _ => hbusy.damaged hspoiled⟩
    | rollback j =>
      obtain rfl : j = i := hobject
      rw [Desk.step_rollback, Desk.use_of_some hi]
      show Standing _ _ (y.put j (Database.rollback.run (y.store, _)).2)
      rw [Database.run_rollback_of_some _ hpending, Database.run_unlock_of_holds]
      exact free_put hothers ⟨rfl, rfl⟩ ⟨rfl, rfl⟩
    | destroy j =>
      obtain rfl : j = i := hobject
      rw [Desk.step_destroy_of_some hi]
      exact free_drop hothers (Database.restored_release y.store).idle
  · obtain ⟨hstore, hothers'⟩ := step_other hbusy.locked hothers hcareful hobject
    refine .busy (holder_step hi hobject) hothers' (hstore ▸ hbusy) (hstore ▸ hwork.concat ?_)
    rintro e rfl
    exact hobject rfl

theorem step_blocked {tx : Transaction} (hi : y.objects i = some tx)
    (hothers : ∀ j tx, j ≠ i → y.objects j = some tx → Done tx) (hblocked : Blocked (y.store, tx))
    (hcareful : d.Careful y) : Standing z (past ++ [d]) (y.step d) := by
  by_cases hobject : d.object = i
  · cases d with
    | begin j =>
      obtain rfl : j = i := hobject
      rw [Desk.step_begin_of_some hi]
      exact .blocked hi hothers hblocked
    | errand j e =>
      obtain rfl : j = i := hobject
      rw [Desk.step_errand, Desk.use_of_some hi]
      exact .blocked (Desk.objects_put_self _) (others_put hothers _)
        (hblocked.errand (hcareful tx hi) e)
    | commit j =>
      obtain rfl : j = i := hobject
      rw [Desk.step_commit, Desk.use_of_some hi]
      show Standing _ _ (y.put j (Database.commit.run (y.store, _)).2)
      rw [Database.run_commit_of_none _ hblocked.pending, Desk.put_self hi]
      exact .blocked hi hothers hblocked
    | rollback j =>
      obtain rfl : j = i := hobject
      rw [Desk.step_rollback, Desk.use_of_some hi]
      show Standing _ _ (y.put j (Database.rollback.run (y.store, _)).2)
      rw [Database.run_rollback_of_none _ hblocked.pending]
      exact .blocked (Desk.objects_put_self _) (others_put hothers _)
        ⟨hblocked.holdsLock, hblocked.locked, hblocked.pending, by simp⟩
    | destroy j =>
      obtain rfl : j = i := hobject
      rw [Desk.step_destroy_of_some hi]
      exact free_drop hothers hblocked.idle_release
  · obtain ⟨hstore, hothers'⟩ := step_other hblocked.locked hothers hcareful hobject
    exact .blocked (holder_step hi hobject) hothers' (hstore ▸ hblocked)

theorem step (h : Standing z past y) (hy : y = z.after past) (hcareful : d.Careful y) :
    Standing z (past ++ [d]) (y.step d) := by
  cases h with
  | free hdone hidle => exact step_free hy hdone hidle hcareful
  | busy hi hothers hbusy hwork => exact step_busy hi hothers hbusy hwork hcareful
  | blocked hi hothers hblocked => exact step_blocked hi hothers hblocked hcareful

/-- An object that has not ended is the only one, at work or stuck in a damaged file. -/
theorem of_unfinished (h : Standing z past y) {tx : Transaction} (hi : y.objects i = some tx)
    (hunfinished : tx.finished = false) :
    (∀ j tx, j ≠ i → y.objects j = some tx → Done tx) ∧
      (Busy (y.store, tx) ∧ Work z past i (y.store, tx) ∨ Blocked (y.store, tx)) := by
  have hnot : ¬ Done tx := by
    rintro ⟨hfinished, -⟩
    rw [hunfinished] at hfinished
    cases hfinished
  cases h with
  | free hdone hidle => exact absurd (hdone i tx hi) hnot
  | @busy k tx' hk hothers hbusy hwork =>
    obtain rfl : i = k := by_contra fun hik => hnot (hothers i tx hik hi)
    rw [hi] at hk
    cases hk
    exact ⟨hothers, .inl ⟨hbusy, hwork⟩⟩
  | @blocked k tx' hk hothers hblocked =>
    obtain rfl : i = k := by_contra fun hik => hnot (hothers i tx hik hi)
    rw [hi] at hk
    cases hk
    exact ⟨hothers, .inr hblocked⟩

end Standing

/-- Careful deeds leave a desk in order that was opened on an idle database. -/
theorem standing_of_careful {db : Database} (hidle : db.Idle) {past : List (Deed ι)}
    (h : AllCareful (.opening db) past) :
    Standing (.opening db) past ((Desk.opening db).after past) := by
  induction past using List.reverseRecOn with
  | nil => exact .free (fun j tx hj => by cases hj) hidle
  | append_singleton past d ih =>
    obtain ⟨hpast, hd⟩ := allCareful_concat.1 h
    rw [Desk.after_concat]
    exact (ih hpast).step rfl hd

/-! ### What a commit makes permanent -/

/-- A commit that makes permanent what its object has done since it began, and nothing else. -/
structure OwnCommit (z : Desk Database Transaction ι) (past : List (Deed ι)) (i : ι)
    (tx : Transaction) : Prop where
  object : (z.after past).objects i = some tx
  unfinished : tx.finished = false
  work : Work z past i ((z.after past).store, tx)
  commit_ok : ((Repository.commit : Action (Database × Transaction) Unit).run
    ((z.after past).store, tx)).1 = .ok ()
  rows : (z.after past).store.own.pending =
    some ((z.after past).step (.commit i)).store.file.tables

section Careful

variable {z : Desk Database Transaction ι} {past : List (Deed ι)} {d : Deed ι}

theorem Standing.exists_ownCommit (h : Standing z past (z.after past))
    (hcareful : d.Careful (z.after past)) (hchange : ChangesRows (z.after past) d) :
    ∃ i tx, d = .commit i ∧ OwnCommit z past i tx := by
  cases hchange.rowChange with
  | @committed i tx w hi hpending hspoiled hrows =>
    have hunfinished := hcareful tx hi
    obtain ⟨-, ⟨hbusy, hwork⟩ | hblocked⟩ := h.of_unfinished hi hunfinished
    · obtain rfl : tx = ⟨false, false, true⟩ := hbusy.tx_eq
      refine ⟨i, _, rfl, hi, hunfinished, hwork, ?_, by rw [hpending, hrows]⟩
      show (Database.commit.run _).1 = _
      rw [Database.run_commit_of_sound _ hpending hspoiled, Database.run_unlock_of_holds]
    · have hnone := hblocked.pending
      rw [hpending] at hnone
      cases hnone
  | @atOnce i tx w hi hpending =>
    have hunfinished := hcareful tx hi
    obtain ⟨-, ⟨hbusy, -⟩ | hblocked⟩ := h.of_unfinished hi hunfinished
    · have hsome := hbusy.pending
      rw [hpending] at hsome
      cases hsome
    · obtain ⟨hfile, -⟩ := errand_of_damaged (hblocked.damaged hunfinished) hpending (.write w)
      refine absurd ?_ hchange
      rw [Desk.step_errand, Desk.use_of_some hi]
      exact congrArg File.tables hfile

theorem Standing.store_step (h : Standing z past (z.after past))
    (hcareful : d.Careful (z.after past)) {i : ι} {tx : Transaction}
    (hi : (z.after past).objects i = some tx) (hunfinished : tx.finished = false)
    (hd : d.object ≠ i) : ((z.after past).step d).store = (z.after past).store := by
  obtain ⟨hothers, hholds⟩ := h.of_unfinished hi hunfinished
  have hlocked : (z.after past).store.locked = true :=
    hholds.elim (fun h => h.1.locked) fun h => h.locked
  exact (step_other hlocked hothers hcareful hd).1

end Careful

/-- Stored rows change by a commit of what is pending, or at once while nothing is. If no object is
used after it has ended, they change only by a commit of the unfinished transaction that made the
change, and what others do changes nothing while a transaction is unfinished. -/
theorem rows_change_by_commit_unless_stale (db : Database) (past : List (Deed ι)) (d : Deed ι) :
    (ChangesRows ((Desk.opening db).after past) d → RowChange ((Desk.opening db).after past) d) ∧
      (db.Idle → AllCareful (.opening db) (past ++ [d]) →
        (ChangesRows ((Desk.opening db).after past) d →
          ∃ i tx, d = .commit i ∧ OwnCommit (.opening db) past i tx) ∧
        ∀ i tx, ((Desk.opening db).after past).objects i = some tx → tx.finished = false →
          d.object ≠ i →
          (((Desk.opening db).after past).step d).store = ((Desk.opening db).after past).store) := by
  refine ⟨fun hchange => hchange.rowChange, fun hidle hcareful => ?_⟩
  obtain ⟨hpast, hd⟩ := allCareful_concat.1 hcareful
  have hstanding := standing_of_careful hidle hpast
  exact ⟨hstanding.exists_ownCommit hd, fun i tx hi => hstanding.store_step hd hi⟩

/-- A database in memory that has just been made, and nobody at its desk. -/
def newDesk : Desk Database Transaction Bool := .opening (Database.connect .current ⟨.none, false⟩)

/-- Inserts a deployment through an object. -/
def insertion (i : Bool) (id : String) : Deed Bool :=
  .errand i (.write (.change (.insertDeployment ⟨id, id, "flow", 0⟩)))

/-- A deployment that is inserted while another object waits. -/
def keptDeeds : List (Deed Bool) := [.begin true, insertion true "kept", .begin false]

/-- The commit of the object that has inserted it makes the deployment permanent. -/
theorem rows_change_by_commit_kept : (Database.connect .current ⟨.none, false⟩).Idle ∧
    AllCareful newDesk (keptDeeds ++ [.commit true]) ∧
    ChangesRows (newDesk.after keptDeeds) (.commit true) ∧
    ∃ tx, OwnCommit newDesk keptDeeds true tx := by
  have hidle : (Database.connect .current ⟨.none, false⟩).Idle := ⟨rfl, rfl⟩
  have hcareful : AllCareful newDesk (keptDeeds ++ [.commit true]) := by decide +kernel
  have hchange : ChangesRows (newDesk.after keptDeeds) (.commit true) := by decide +kernel
  obtain ⟨-, hthen⟩ := rows_change_by_commit_unless_stale _ keptDeeds (.commit true)
  obtain ⟨i, tx, hi, hown⟩ := (hthen hidle hcareful).1 hchange
  cases hi
  exact ⟨hidle, hcareful, hchange, tx, hown⟩

/-- An object ends, and another one inserts a deployment. -/
def overlappingDeeds : List (Deed Bool) :=
  [.begin true, .rollback true, .begin false, insertion false "new"]

/-- An object that has been rolled back inserts a deployment that nobody commits; rolled back once
more, it takes away what another object has inserted and not yet committed. -/
theorem stale_object_writes :
    ChangesRows (newDesk.after [.begin true, .rollback true]) (insertion true "stale") ∧
      (newDesk.after overlappingDeeds).store.own.pending.map
        (·.deploymentRows.map Deployment.id) = some ["new"] ∧
      (newDesk.after (overlappingDeeds ++ [.rollback true])).store.own.pending = none := by
  decide +kernel

end Relational

end Timetable
