import Timetable.Proofs.Keyed.Ledger
import Timetable.Proofs.Relational.Listings
import Timetable.Proofs.Relational.Backend

/-!
# The two stores side by side

A client works with a store in one transaction after the other, and reads what it likes in between.
It cannot tell keyed tables from relational ones: both accept and refuse the same requests, and what
is read is the same at any time (`stores_agree`). This needs texts without U+0000, times and counts
that fit a signed word, and no run pointed at two of its states at once (`Write.Plain`).

An old engine lacks a link strategy (`Write.known`). With it, the client works as with keyed tables
that turn links by that strategy down (`Dialogue.stepUnder`).
-/

namespace Timetable

open Text

/-! ### Moves -/

/-- A request that writes. -/
inductive Write
  | change (c : Change)
  | insertRuns (rs : List FlowRun)
  | insertStates (ss : List RunState)
  | linkStates (strategy : LinkStrategy) (ids : List String)

/-- Makes a request in a transaction. -/
def Write.request [Repository σ τ] : Write → Action (σ × τ) Outcome
  | change c => c.request
  | insertRuns rs => Repository.insertRuns rs
  | insertStates ss => Repository.insertStates ss
  | linkStates strategy ids => Repository.linkStates strategy ids

/-- What a client may do next. -/
inductive Move
  | begin
  | write (w : Write)
  | commit
  | rollback

/-- Whether an engine has the statements that a request takes. -/
def Write.known (v : Relational.Version) : Write → Bool
  | change _ | insertRuns _ | insertStates _ => true
  | linkStates strategy _ => v.knows strategy

/-- Whether an engine has the statements that a move takes. -/
def Move.known (v : Relational.Version) : Move → Bool
  | write w => w.known v
  | begin | commit | rollback => true

/-- A store, and the transaction that is open on it. -/
structure Dialogue (σ τ : Type) where
  store : σ
  tx : Option τ

namespace Dialogue

variable {σ τ : Type} [Repository σ τ]

/-- A dialogue that is about to begin. -/
def opening (s : σ) : Dialogue σ τ := ⟨s, none⟩

/-- Whether a request has been carried out. -/
def accepted : Except Failure Outcome → Bool
  | .ok (.ok ()) => true
  | .ok (.error _) => false
  | .error _ => false

/-- Ends the open transaction. -/
def finish (ending : Action (σ × τ) Unit) (x : Dialogue σ τ) : Bool × Dialogue σ τ :=
  match x.tx with
  | none => (false, x)
  | some tx =>
    let r := ending.run (x.store, tx)
    (r.1.isOk, ⟨(Repository.release r.2).2, none⟩)

/-- Makes a move, and tells whether that was possible. -/
def step (x : Dialogue σ τ) : Move → Bool × Dialogue σ τ
  | .begin =>
    match x.tx, (Repository.begin : Action σ τ).run x.store with
    | none, (.ok tx, s) => (true, ⟨s, some tx⟩)
    | none, (.error _, s) => (false, ⟨s, none⟩)
    | some _, _ => (false, x)
  | .write w =>
    match x.tx with
    | none => (false, x)
    | some tx =>
      let r := (w.request : Action (σ × τ) Outcome).run (x.store, tx)
      (accepted r.1, ⟨r.2.1, some r.2.2⟩)
  | .commit => x.finish Repository.commit
  | .rollback => x.finish Repository.rollback

/-- Which of a series of moves were possible. -/
def answers (x : Dialogue σ τ) : List Move → List Bool
  | [] => []
  | m :: ms => (x.step m).1 :: (x.step m).2.answers ms

/-- What a series of moves leads to. -/
def after (x : Dialogue σ τ) (ms : List Move) : Dialogue σ τ :=
  ms.foldl (fun x m => (x.step m).2) x

/-- Makes a move as far as an engine has what it takes, and turns down what it has not. -/
def stepUnder (v : Relational.Version) (x : Dialogue σ τ) (m : Move) : Bool × Dialogue σ τ :=
  if m.known v then x.step m else (false, x)

/-- Which of a series of moves were possible under an engine. -/
def answersUnder (v : Relational.Version) (x : Dialogue σ τ) : List Move → List Bool
  | [] => []
  | m :: ms => (x.stepUnder v m).1 :: (x.stepUnder v m).2.answersUnder v ms

/-- What a series of moves leads to under an engine. -/
def afterUnder (v : Relational.Version) (x : Dialogue σ τ) (ms : List Move) : Dialogue σ τ :=
  ms.foldl (fun x m => (x.stepUnder v m).2) x

/-- What is read in the open transaction, or in one of its own if none is open. -/
def view (x : Dialogue σ τ) (read : Action (σ × τ) α) : Except Failure α :=
  match x.tx with
  | some tx => (read.run (x.store, tx)).1
  | none => ((World.transact read).run ⟨x.store, 0, []⟩).1

variable {v : Relational.Version} {ms : List Move}

theorem stepUnder_of_known {m : Move} (h : m.known v = true) (x : Dialogue σ τ) :
    x.stepUnder v m = x.step m :=
  if_pos h

theorem stepUnder_of_not_known {m : Move} (h : ¬ m.known v = true) (x : Dialogue σ τ) :
    x.stepUnder v m = (false, x) :=
  if_neg h

/-- An engine that has all it takes turns nothing down. -/
theorem answersUnder_of_known (h : ∀ m ∈ ms, m.known v = true) (x : Dialogue σ τ) :
    x.answersUnder v ms = x.answers ms := by
  induction ms generalizing x with
  | nil => rfl
  | cons m ms ih =>
    obtain ⟨hm, hms⟩ := List.forall_mem_cons.1 h
    rw [answersUnder, answers, stepUnder_of_known hm, ih hms]

theorem afterUnder_of_known (h : ∀ m ∈ ms, m.known v = true) (x : Dialogue σ τ) :
    x.afterUnder v ms = x.after ms := by
  apply List.foldl_ext
  intro x m hm
  rw [stepUnder_of_known (h m hm)]

end Dialogue

/-! ### Dialogues over contents -/

namespace Copying

variable {σ τ κ : Type} [Repository σ τ] (C : Copying σ κ) {c w w' : κ}

/-- A dialogue without an open transaction. -/
def atRest (c : κ) : Dialogue σ τ := ⟨C.resting c, none⟩

/-- A dialogue with an open transaction that sees the second contents. -/
def during (c w : κ) : Dialogue σ τ := ⟨(C.busy c w).1, some (C.busy c w).2⟩

theorem step_begin : (C.atRest c).step .begin = (true, C.during c c) := by
  simp only [atRest, Dialogue.step, C.run_begin_resting]
  rfl

theorem step_write {write : Write} {o : Outcome}
    (h : write.request.run (C.busy c w) = (.ok o, C.busy c w')) :
    (C.during c w).step (.write write) = (Dialogue.accepted (.ok o), C.during c w') := by
  show (Dialogue.accepted (write.request.run (C.busy c w)).1,
    (⟨(write.request.run (C.busy c w)).2.1, some (write.request.run (C.busy c w)).2.2⟩ :
      Dialogue σ τ)) = _
  rw [h]
  rfl

/-- Ending a transaction leaves a store at rest, if nothing is left to release. -/
theorem finish_during {ending : Action (σ × τ) Unit} {tx : τ}
    (h : ending.run (C.busy c w) = (.ok (), C.resting w', tx))
    (hrelease : ∀ s : σ, Repository.release (s, tx) = ([], s)) :
    (C.during c w).finish ending = (true, C.atRest w') := by
  show ((ending.run (C.busy c w)).1.isOk,
    (⟨(Repository.release (ending.run (C.busy c w)).2).2, none⟩ : Dialogue σ τ)) = _
  rw [h, hrelease]
  rfl

theorem step_commit : (C.during c w).step .commit = (true, C.atRest w) := by
  obtain ⟨tx, hrun, hrelease⟩ := C.run_commit_busy c w
  exact C.finish_during hrun hrelease

theorem step_rollback : (C.during c w).step .rollback = (true, C.atRest c) := by
  obtain ⟨tx, hrun, hrelease⟩ := C.run_rollback_busy c w
  exact C.finish_during hrun hrelease

/-- A read in a transaction of its own finds what has been committed. -/
theorem view_atRest {read : Action (σ × τ) α} {r : Except Failure α}
    (h : read.run (C.busy c c) = (r, C.busy c c)) : (C.atRest c).view read = r := by
  show ((World.transact read).run ⟨C.resting c, 0, []⟩).1 = r
  rw [C.run_transact h]

theorem view_during {read : Action (σ × τ) α} {r : Except Failure α}
    (h : read.run (C.busy c w) = (r, C.busy c w)) : (C.during c w).view read = r := by
  show (read.run (C.busy c w)).1 = r
  rw [h]

end Copying

/-! ### Requests that both stores understand in the same way -/

/-- A change whose texts hold no U+0000 and whose numbers fit a signed word. -/
def Change.Plain : Change → Prop
  | insertDeployment d => ∀ x ∈ d.texts, NulFree x
  | deleteDeployment id => NulFree id
  | insertSchedule s => (∀ x ∈ s.texts, NulFree x) ∧ SignFree s.intervalSeconds ∧
    SignFree s.createdAt
  | deleteSchedule id => NulFree id

/-- The texts of a request hold no U+0000, its numbers fit a signed word, and it does not point a run
at two of its states. -/
def Write.Plain (t : Keyed.Tables) : Write → Prop
  | change c => c.Plain
  | insertRuns rs => ∀ r ∈ rs, (∀ x ∈ r.texts, NulFree x) ∧ SignFree r.createdAt
  | insertStates ss => ∀ s ∈ ss, (∀ x ∈ s.texts, NulFree x) ∧ SignFree s.createdAt
  | linkStates _ ids => (∀ id ∈ ids, NulFree id) ∧ t.OnePerRun ids

/-- A request is plain for what the open transaction sees when it is made. -/
def Move.Plain (x : Dialogue Keyed.Ledger Keyed.Transaction) : Move → Prop
  | write w => ∀ tx, x.tx = some tx → w.Plain tx.working
  | begin | commit | rollback => True

/-- Each of a series of moves is plain when its turn comes. -/
def AllPlain (v : Relational.Version) (x : Dialogue Keyed.Ledger Keyed.Transaction) :
    List Move → Prop
  | [] => True
  | m :: ms => m.Plain x ∧ AllPlain v (x.stepUnder v m).2 ms

/-! ### What reads find -/

/-- Two reads succeed and find things that `R` relates. -/
def Both (R : α → β → Prop) (x : Except Failure α) (y : Except Failure β) : Prop :=
  ∃ a b, x = .ok a ∧ y = .ok b ∧ R a b

/-- Whatever is read is the same, and in the same order where there is one. -/
structure SameReads (x : Dialogue Keyed.Ledger Keyed.Transaction)
    (y : Dialogue Relational.Database Relational.Transaction) : Prop where
  findDeployment : ∀ id, NulFree id →
    Both Eq (x.view (Repository.findDeployment id)) (y.view (Repository.findDeployment id))
  listDeployments : ∀ offset limit, SignFree offset → (∀ n ∈ limit, SignFree n) →
    Both Eq (x.view (Repository.listDeployments offset limit))
      (y.view (Repository.listDeployments offset limit))
  listSchedules : ∀ id, NulFree id →
    Both Eq (x.view (Repository.listSchedules id)) (y.view (Repository.listSchedules id))
  findRun : ∀ id, NulFree id →
    Both Eq (x.view (Repository.findRun id)) (y.view (Repository.findRun id))
  listRuns : ∀ id, NulFree id →
    Both Eq (x.view (Repository.listRuns id)) (y.view (Repository.listRuns id))
  listStates : ∀ id, NulFree id →
    Both Eq (x.view (Repository.listStates id)) (y.view (Repository.listStates id))
  statelessRunIds : ∀ ids, (∀ id ∈ ids, NulFree id) →
    Both (fun found found' => found.1 = .ok () ∧ found'.1 = .ok () ∧
        ∀ id, id ∈ found.2 ↔ id ∈ found'.2)
      (x.view (Repository.statelessRunIds ids)) (y.view (Repository.statelessRunIds ids))

/-! ### Side by side -/

/-- Rows mirror keyed tables in which all times fit a signed word. -/
structure Twins (w : Relational.Tables) (t : Keyed.Tables) : Prop where
  mirrors : Relational.Mirrors w t
  timely : t.Timely

/-- Both stores are at rest over twins, or busy with transactions that see twins. -/
inductive SideBySide (v : Relational.Version) : Dialogue Keyed.Ledger Keyed.Transaction →
    Dialogue Relational.Database Relational.Transaction → Prop
  | atRest {w t} (h : Twins w t) :
      SideBySide v (Keyed.Ledger.copying.atRest t) ((Relational.Database.copying v).atRest w)
  | during {c w t u} (h : Twins c t) (h' : Twins w u) :
      SideBySide v (Keyed.Ledger.copying.during t u) ((Relational.Database.copying v).during c w)

section Writes

variable {v : Relational.Version} {c w : Relational.Tables} {t u : Keyed.Tables}

/-- What two requests come to over twins: both are carried out or both are refused, and what they
lead to are twins. -/
def Alongside (v : Relational.Version) (c w : Relational.Tables) (t u : Keyed.Tables)
    (x : Action (Keyed.Ledger × Keyed.Transaction) Outcome)
    (y : Action (Relational.Database × Relational.Transaction) Outcome) : Prop :=
  ∃ o o' u' w', x.run (Keyed.Ledger.copying.busy t u) = (.ok o, Keyed.Ledger.copying.busy t u') ∧
    y.run ((Relational.Database.copying v).busy c w) =
      (.ok o', (Relational.Database.copying v).busy c w') ∧
    (o = .ok () ↔ o' = .ok ()) ∧ Twins w' u'

/-- A row is inserted in both stores or in none. -/
theorem alongside_of_together {f : Keyed.Tables → Except Refusal Keyed.Tables}
    {r : Except Relational.Fault Relational.Tables}
    {y : Action (Relational.Database × Relational.Transaction) Outcome} (h : Twins w u)
    (hok : ∀ w', r = .ok w' → y.run ((Relational.Database.copying v).busy c w) =
      (.ok (.ok ()), (Relational.Database.copying v).busy c w'))
    (herror : ∀ e, r = .error e → ∃ e', y.run ((Relational.Database.copying v).busy c w) =
      (.ok (.error e'), (Relational.Database.copying v).busy c w))
    (htogether : Relational.Together Relational.Mirrors r (f u))
    (htimely : ∀ u', f u = .ok u' → u'.Timely) :
    Alongside v c w t u (Keyed.Ledger.change f) y := by
  rcases htogether.both_or_neither with ⟨w', u', hw, hu, h'⟩ | ⟨fault, e, hw, hu⟩
  · exact ⟨_, _, u', w', Keyed.Ledger.run_change_of_ok hu, hok w' hw, Iff.rfl, h', htimely u' hu⟩
  · obtain ⟨e', hrun⟩ := herror fault hw
    exact ⟨_, _, u, w, Keyed.Ledger.run_change_of_error hu, hrun, by simp, h⟩

/-- A row is deleted from both stores or from none. -/
theorem alongside_of_delete {f : Keyed.Tables → Except Refusal Keyed.Tables}
    {r : Nat × Relational.Tables} {absent e : Refusal}
    {y : Action (Relational.Database × Relational.Transaction) Outcome} (h : Twins w u)
    (hrun : y.run ((Relational.Database.copying v).busy c w) =
      (.ok (if r.1 = 0 then .error absent else .ok ()), (Relational.Database.copying v).busy c r.2))
    (hboth : r.1 = 0 ∧ f u = .error e ∧ Relational.Mirrors r.2 u ∨
      r.1 ≠ 0 ∧ ∃ u', f u = .ok u' ∧ Relational.Mirrors r.2 u')
    (htimely : ∀ u', f u = .ok u' → u'.Timely) :
    Alongside v c w t u (Keyed.Ledger.change f) y := by
  rcases hboth with ⟨hzero, hu, h'⟩ | ⟨hsome, u', hu, h'⟩
  · rw [if_pos hzero] at hrun
    exact ⟨_, _, u, r.2, Keyed.Ledger.run_change_of_error hu, hrun, by simp, h', h.timely⟩
  · rw [if_neg hsome] at hrun
    exact ⟨_, _, u', r.2, Keyed.Ledger.run_change_of_ok hu, hrun, Iff.rfl, h', htimely u' hu⟩

theorem alongside_change (h : Twins w u) {change : Change} (hplain : change.Plain) :
    Alongside v c w t u change.request change.request := by
  have hw := h.mirrors.whole
  cases change with
  | insertDeployment d =>
    have hrun :
        (Repository.insertDeployment d).run ((Relational.Database.copying v).busy c w) = _ :=
      Relational.Database.run_change hw rfl
    rw [Relational.bindDeployment_of_nulFree hplain] at hrun
    refine alongside_of_together (f := (·.insertDeployment d)) h (fun w' hw' => ?_) (fun e he => ?_)
      (h.mirrors.insertDeployment d) fun u' hu' => h.timely.insertDeployment hu'
    · rw [hw'] at hrun
      exact hrun
    · rw [he] at hrun
      exact ⟨_, hrun⟩
  | deleteDeployment id =>
    have hrun :
        (Repository.deleteDeployment id).run ((Relational.Database.copying v).busy c w) = _ :=
      Relational.Database.run_delete hw rfl
    rw [untilNul_of_nulFree hplain] at hrun
    exact alongside_of_delete (f := (·.deleteDeployment id)) h hrun (h.mirrors.deleteDeployment id)
      fun u' hu' => h.timely.deleteDeployment hu'
  | insertSchedule s =>
    obtain ⟨htexts, hinterval, htime⟩ := hplain
    have hbind := Relational.bindSchedule_of_nulFree htexts
    refine alongside_of_together (f := (·.insertSchedule s)) h (fun w' hw' => ?_) (fun e he => ?_)
      (h.mirrors.insertSchedule hinterval) fun u' hu' => h.timely.insertSchedule htime hu'
    · rw [← hbind] at hw'
      exact Relational.Database.run_insertSchedule_of_ok hw hw'
    · rw [← hbind] at he
      exact Relational.Database.run_insertSchedule_of_error hw he
  | deleteSchedule id =>
    have hrun : (Repository.deleteSchedule id).run ((Relational.Database.copying v).busy c w) = _ :=
      Relational.Database.run_delete hw rfl
    rw [untilNul_of_nulFree hplain] at hrun
    exact alongside_of_delete (f := (·.deleteSchedule id)) h hrun (h.mirrors.deleteSchedule id)
      fun u' hu' => h.timely.deleteSchedule hu'

theorem Alike.ok_iff {R : Refusal → Refusal → Prop} {o o' : Outcome} (h : Alike R o o') :
    o' = .ok () ↔ o = .ok () := by
  cases h <;> simp

/-- A request does the same over twins, if the engine has what it takes. -/
theorem alongside_request (h : Twins w u) {write : Write} (hknown : write.known v = true)
    (hplain : write.Plain u) :
    Alongside v c w t u write.request write.request := by
  have hruns := h.mirrors.toMirrorsRuns
  cases write with
  | change change => exact alongside_change h hplain
  | insertRuns rs =>
    obtain ⟨o, w', hrun, halike, h'⟩ := hruns.run_insertRuns (c := c) fun r hr => (hplain r hr).1
    -- a batch that is refused half-way leaves in both what comes before the row that is to blame
    obtain ⟨runs, runKeys, hframe⟩ := Keyed.Tables.insertRuns_frame u rs
    refine ⟨_, o, (u.insertRuns rs).2, w', rfl, hrun, halike.ok_iff, ?_, ?_⟩
    · exact h.mirrors.of_runs h' (by rw [hframe]) (by rw [hframe])
    · exact h.timely.insertRuns fun r hr => (hplain r hr).2
  | insertStates ss =>
    obtain ⟨o, w', hrun, halike, h'⟩ := hruns.run_insertStates (c := c) fun s hs => (hplain s hs).1
    obtain ⟨states, statesByRun, hframe⟩ := Keyed.Tables.insertStates_frame u ss
    refine ⟨_, o, (u.insertStates ss).2, w', rfl, hrun, halike.ok_iff, ?_, ?_⟩
    · exact h.mirrors.of_runs h' (by rw [hframe]) (by rw [hframe])
    · exact h.timely.insertStates fun s hs => (hplain s hs).2
  | linkStates strategy ids =>
    obtain ⟨htexts, hone⟩ := hplain
    obtain ⟨w', hrun, h'⟩ := hruns.run_linkStates (c := c) hknown htexts hone
    obtain ⟨runs, hframe⟩ := Keyed.Tables.linkStates_frame u strategy ids
    refine ⟨_, _, u.linkStates strategy ids, w', rfl, hrun, Iff.rfl, ?_, ?_⟩
    · exact h.mirrors.of_runs h' (by rw [hframe]) (by rw [hframe])
    · exact h.timely.linkStates strategy ids

/-- What the engine lacks it turns down, and nothing has happened. -/
theorem step_write_of_not_known {write : Write} (hknown : ¬ write.known v = true) :
    ((Relational.Database.copying v).during c w).step (.write write) =
      (false, (Relational.Database.copying v).during c w) := by
  cases write with
  | change | insertRuns | insertStates => exact absurd rfl hknown
  | linkStates strategy ids =>
    show _ = (Dialogue.accepted (.ok (.error v.tooOld)), _)
    apply Copying.step_write
    exact Relational.Database.run_linkBatches_of_not_knows
      (s := (Relational.Database.copying v).busy c w) hknown ids

end Writes

theorem accepted_eq {o o' : Outcome} (h : o = .ok () ↔ o' = .ok ()) :
    Dialogue.accepted (.ok o) = Dialogue.accepted (.ok o') := by
  cases o <;> cases o' <;> simp [Dialogue.accepted] at h ⊢

variable {v : Relational.Version} {x : Dialogue Keyed.Ledger Keyed.Transaction}
  {y : Dialogue Relational.Database Relational.Transaction} {ms : List Move}

/-- A plain move is possible for both stores or for none, and leaves them side by side. -/
theorem SideBySide.step (h : SideBySide v x y) {m : Move} (hplain : m.Plain x) :
    (x.stepUnder v m).1 = (y.step m).1 ∧ SideBySide v (x.stepUnder v m).2 (y.step m).2 := by
  by_cases hknown : m.known v = true
  case neg =>
    rw [Dialogue.stepUnder_of_not_known hknown]
    cases m with
    | begin | commit | rollback => exact absurd rfl hknown
    | write write =>
      cases h with
      | atRest h => exact ⟨rfl, .atRest h⟩
      | during h h' =>
        rw [step_write_of_not_known hknown]
        exact ⟨rfl, .during h h'⟩
  rw [Dialogue.stepUnder_of_known hknown]
  cases h with
  | atRest h =>
    -- nothing but a transaction can be begun, and all else is turned down by both
    cases m with
    | begin =>
      rw [Copying.step_begin, Copying.step_begin]
      exact ⟨rfl, .during h h⟩
    | write write => exact ⟨rfl, .atRest h⟩
    | commit => exact ⟨rfl, .atRest h⟩
    | rollback => exact ⟨rfl, .atRest h⟩
  | during h h' =>
    -- a second transaction has to wait, which is no answer either
    cases m with
    | begin => exact ⟨rfl, .during h h'⟩
    | write write =>
      -- what has been committed stays as it is; what the transactions see changes in both
      obtain ⟨o, o', u', w', hx, hy, hsame, htwins⟩ := alongside_request h' hknown (hplain _ rfl)
      rw [Copying.step_write _ hx, Copying.step_write _ hy]
      exact ⟨accepted_eq hsame, .during h htwins⟩
    | commit =>
      rw [Copying.step_commit, Copying.step_commit]
      exact ⟨rfl, .atRest h'⟩
    | rollback =>
      rw [Copying.step_rollback, Copying.step_rollback]
      exact ⟨rfl, .atRest h⟩

/-- Plain moves keep both stores side by side. -/
theorem SideBySide.run (h : SideBySide v x y) (hplain : AllPlain v x ms) :
    x.answersUnder v ms = y.answers ms ∧ SideBySide v (x.afterUnder v ms) (y.after ms) := by
  induction ms generalizing x y with
  | nil => exact ⟨rfl, h⟩
  | cons m ms ih =>
    obtain ⟨hm, hms⟩ := hplain
    obtain ⟨hanswer, hnext⟩ := h.step hm
    obtain ⟨hanswers, hafter⟩ := ih hnext hms
    refine ⟨?_, hafter⟩
    rw [Dialogue.answersUnder, Dialogue.answers, hanswer, hanswers]

theorem AllPlain.take (h : AllPlain v x ms) (n : Nat) : AllPlain v x (ms.take n) := by
  induction ms generalizing x n with
  | nil =>
    rw [List.take_nil]
    exact h
  | cons m ms ih =>
    cases n with
    | zero => exact trivial
    | succ n => exact ⟨h.1, ih h.2 n⟩

/-! ### Reads -/

/-- What can be read of twins in the same way can be read of stores side by side. -/
theorem SideBySide.both (h : SideBySide v x y) {R : α → β → Prop}
    {read : Action (Keyed.Ledger × Keyed.Transaction) α}
    {read' : Action (Relational.Database × Relational.Transaction) β}
    (hread : ∀ t u c w, Twins w u → ∃ a b,
      read.run (Keyed.Ledger.copying.busy t u) = (.ok a, Keyed.Ledger.copying.busy t u) ∧
      read'.run ((Relational.Database.copying v).busy c w) =
        (.ok b, (Relational.Database.copying v).busy c w) ∧ R a b) :
    Both R (x.view read) (y.view read') := by
  cases h with
  | @atRest w t h =>
    obtain ⟨a, b, ha, hb, hab⟩ := hread t t w w h
    exact ⟨a, b, Copying.view_atRest _ ha, Copying.view_atRest _ hb, hab⟩
  | @during c w t u h h' =>
    obtain ⟨a, b, ha, hb, hab⟩ := hread t u c w h'
    exact ⟨a, b, Copying.view_during _ ha, Copying.view_during _ hb, hab⟩

/-- What a query finds in rows and a view finds in their twins is found in both stores. -/
theorem SideBySide.both_query (h : SideBySide v x y) {uses : List Relational.TableName}
    {f : Relational.Tables → α} {g : Keyed.Tables → α}
    (hs : (Relational.Statement.query uses f).missing Relational.Tables.empty.names = none)
    (hfg : ∀ w u, Twins w u → f w = g u) :
    Both Eq (x.view (Keyed.Ledger.view g)) (y.view (Relational.Database.query uses f)) := by
  refine h.both fun t u c w htwins => ⟨g u, f w, rfl, ?_, (hfg w u htwins).symm⟩
  exact Relational.Database.run_query htwins.mirrors.whole hs

/-- Stores that are side by side are read in the same way. -/
theorem SideBySide.sameReads (h : SideBySide v x y) : SameReads x y where
  findDeployment id hid := h.both_query rfl fun w u htwins => by
    rw [untilNul_of_nulFree hid, htwins.mirrors.find?_deploymentRows]
  listDeployments offset limit hoffset hlimit := by
    refine h.both fun t u c w htwins => ⟨_, _, rfl, ?_, rfl⟩
    have hrun : (Repository.listDeployments offset limit).run
        ((Relational.Database.copying v).busy c w) = _ :=
      Relational.Database.run_read htwins.mirrors.whole rfl rfl
    rw [htwins.mirrors.listDeployments_eq hoffset hlimit] at hrun
    exact hrun
  listSchedules id hid := h.both_query rfl fun w u htwins => by
    rw [untilNul_of_nulFree hid, htwins.mirrors.listSchedules_eq htwins.timely]
  findRun id hid := h.both_query rfl fun w u htwins => by
    rw [untilNul_of_nulFree hid, htwins.mirrors.findRun_eq]
  listRuns id hid := h.both_query rfl fun w u htwins => by
    rw [untilNul_of_nulFree hid, htwins.mirrors.listRuns_eq htwins.timely]
  listStates id hid := h.both_query rfl fun w u htwins => by
    rw [untilNul_of_nulFree hid, htwins.mirrors.listStates_eq htwins.timely]
  statelessRunIds ids hids := by
    refine h.both fun t u c w htwins => ?_
    obtain ⟨found, hrun, hiff⟩ := htwins.mirrors.toMirrorsRuns.run_statelessRunIds (c := c) hids
    exact ⟨(.ok (), u.statelessRunIds ids), _, rfl, hrun, rfl, rfl, fun id => (hiff id).symm⟩

/-- Side by side from empty, both stores accept and refuse the same requests, and after any number
of moves whatever is read is the same, as long as the engine has all it takes. What an old engine
lacks it turns down, and then it is as if the keyed tables had turned it down too. -/
theorem stores_agree (v : Relational.Version) (ms : List Move)
    (hplain : AllPlain v (.opening .empty) ms) :
    ((∀ m ∈ ms, m.known v = true) →
      (Dialogue.opening Keyed.Ledger.empty).answers ms =
          (Dialogue.opening (Relational.Database.connect v ⟨.none, false⟩)).answers ms ∧
        ∀ n, SameReads ((Dialogue.opening Keyed.Ledger.empty).after (ms.take n))
          ((Dialogue.opening (Relational.Database.connect v ⟨.none, false⟩)).after
            (ms.take n))) ∧
    (Dialogue.opening Keyed.Ledger.empty).answersUnder v ms =
        (Dialogue.opening (Relational.Database.connect v ⟨.none, false⟩)).answers ms ∧
      ∀ n, SameReads ((Dialogue.opening Keyed.Ledger.empty).afterUnder v (ms.take n))
        ((Dialogue.opening (Relational.Database.connect v ⟨.none, false⟩)).after (ms.take n)) := by
  have hstart : SideBySide v (.opening .empty)
      (.opening (Relational.Database.connect v ⟨.none, false⟩)) :=
    .atRest ⟨Relational.Mirrors.empty, Keyed.Tables.timely_empty⟩
  have hanswers := (hstart.run hplain).1
  have hreads : ∀ n, SameReads _ _ := fun n => (hstart.run (hplain.take n)).2.sameReads
  refine ⟨fun hknown => ⟨?_, fun n => ?_⟩, hanswers, hreads⟩
  · rw [← Dialogue.answersUnder_of_known hknown]
    exact hanswers
  · rw [← Dialogue.afterUnder_of_known fun m hm => hknown m (List.mem_of_mem_take hm)]
    exact hreads n

/-- A deployment, a run of it, a state that is given twice, links to it by both strategies, and a
deletion that is taken back. -/
def plainMoves : List Move :=
  [.begin,
    .write (.change (.insertDeployment ⟨"d", "plain", "f", 0⟩)),
    .write (.insertRuns [⟨"r", "f", "d", "", "key", "", "", true, none, 7⟩]),
    .write (.insertStates [⟨"s", "r", 1, "", "", 7⟩, ⟨"s", "r", 2, "", "", 8⟩]),
    .write (.linkStates .updateJoin ["s"]),
    .write (.linkStates .correlatedSubquery ["s", "s"]),
    .commit,
    .begin,
    .write (.change (.deleteDeployment "d")),
    .rollback]

theorem allPlain_plainMoves (v : Relational.Version) : AllPlain v (.opening .empty) plainMoves := by
  have hone : ∀ (t : Keyed.Tables) ids, (∀ id ∈ ids, id = "s") → t.OnePerRun ids := by
    intro t ids hids a ha b hb s q hs hq hrun
    rw [hids a ha, hids b hb]
  refine ⟨trivial, fun tx _ => ?_, fun tx _ => ?_, fun tx _ => ?_, fun tx _ => ⟨?_, ?_⟩,
    fun tx _ => ⟨?_, ?_⟩, trivial, trivial, fun tx _ => ?_, trivial, trivial⟩
  · show ∀ x ∈ (⟨"d", "plain", "f", 0⟩ : Deployment).texts, NulFree x
    decide
  · rw [Write.Plain]
    decide
  · rw [Write.Plain]
    decide
  · decide
  · exact hone _ _ (by decide)
  · decide
  · exact hone _ _ (by decide)
  · show NulFree "d"
    decide

/-- The batch that gives a state twice is refused by both stores, and all else is done by both. An
engine that cannot join the tables refuses the first link too, and nothing else. -/
theorem stores_agree_plain :
    AllPlain .current (.opening .empty) plainMoves ∧
    (Dialogue.opening (Relational.Database.connect .current ⟨.none, false⟩)).answers plainMoves =
      [true, true, true, false, true, true, true, true, true, true] ∧
    (∀ n, SameReads ((Dialogue.opening Keyed.Ledger.empty).after (plainMoves.take n))
      ((Dialogue.opening (Relational.Database.connect .current ⟨.none, false⟩)).after
        (plainMoves.take n))) ∧
    (Dialogue.opening (Relational.Database.connect ⟨3032003, "3.32.3"⟩ ⟨.none, false⟩)).answers
      plainMoves = [true, true, true, false, false, true, true, true, true, true] := by
  have hplain : ∀ v, AllPlain v (.opening .empty) plainMoves := allPlain_plainMoves
  have hanswers : (Dialogue.opening Keyed.Ledger.empty).answers plainMoves =
      [true, true, true, false, true, true, true, true, true, true] := by
    decide +kernel
  have hold : (Dialogue.opening Keyed.Ledger.empty).answersUnder ⟨3032003, "3.32.3"⟩ plainMoves =
      [true, true, true, false, false, true, true, true, true, true] := by
    decide +kernel
  obtain ⟨hsame, hreads⟩ := (stores_agree .current plainMoves (hplain _)).1 (by decide)
  obtain ⟨-, hsame', -⟩ := stores_agree ⟨3032003, "3.32.3"⟩ plainMoves (hplain _)
  rw [hanswers] at hsame
  rw [hold] at hsame'
  exact ⟨hplain _, hsame.symm, hreads, hsame'.symm⟩

end Timetable
