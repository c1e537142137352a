import Timetable.Proofs.Keyed.Batches
import Timetable.Proofs.Keyed.Desk

/-!
# Transactions apart from each other

On the desk of a ledger, at most one transaction is unfinished, and the ledger is locked for it
(`HeldBy`). Only its commit changes the committed tables. What becomes of an object is told from the
deeds about it alone (`Transaction.undergo`, `objects_after`), so that it reads what was committed
when it began and what it has written since, and nothing that was finished comes back to life:
`ledger_isolates`.
-/

namespace Timetable

namespace Keyed

variable {ι : Type} [DecidableEq ι]

/-! ### One transaction at a time -/

/-- A ledger at rest, on which no transaction has begun. -/
def Ledger.desk (t : Tables) : Desk Ledger Transaction ι := .opening ⟨t, false⟩

/-- An object whose transaction has not ended. -/
def Unfinished (y : Desk Ledger Transaction ι) (i : ι) : Prop :=
  ∃ tx, y.objects i = some tx ∧ tx.phase = .active

instance (y : Desk Ledger Transaction ι) (i : ι) : Decidable (Unfinished y i) :=
  decidable_of_iff ((y.objects i).any (·.phase = .active) = true) (by
    rw [Option.any_eq_true]
    simp [Unfinished])

section Held

variable {y : Desk Ledger Transaction ι} {i j : ι} {l : Ledger} {tx : Transaction}

theorem unfinished_put :
    Unfinished (y.put i (l, tx)) j ↔ if j = i then tx.phase = .active else Unfinished y j := by
  unfold Unfinished
  by_cases h : j = i
  · subst h
    simp
  · simp [Desk.objects_put_of_ne _ h, h]

theorem unfinished_drop :
    Unfinished (y.drop i l) j ↔ j ≠ i ∧ Unfinished y j := by
  simp only [Unfinished, Desk.objects_drop_eq_some, and_assoc, exists_and_left]

omit [DecidableEq ι] in
theorem unfinished_of_eq (hi : y.objects i = some tx) : Unfinished y i ↔ tx.phase = .active := by
  simp [Unfinished, hi]

/-- The only unfinished transaction is that of the holder, for whom the ledger is locked. -/
structure HeldBy (holder : Option ι) (y : Desk Ledger Transaction ι) : Prop where
  unfinished_iff : ∀ j, Unfinished y j ↔ holder = some j
  locked_eq : y.store.locked = holder.isSome

namespace HeldBy

variable {holder : Option ι}

omit [DecidableEq ι] in
theorem opening (t : Tables) : HeldBy none (Ledger.desk t : Desk Ledger Transaction ι) where
  unfinished_iff j := by simp [Unfinished, Ledger.desk, Desk.opening]
  locked_eq := rfl

omit [DecidableEq ι] in
theorem unique (h : HeldBy holder y) (hi : Unfinished y i) (hj : Unfinished y j) : i = j := by
  have hij := ((h.unfinished_iff i).1 hi).symm.trans ((h.unfinished_iff j).1 hj)
  exact Option.some.inj hij

omit [DecidableEq ι] in
theorem eq_none_iff (h : HeldBy holder y) : holder = none ↔ ∀ i, ¬ Unfinished y i := by
  simp only [h.unfinished_iff]
  exact Option.eq_none_iff_forall_ne_some

/-- Without a holder, a transaction begins and becomes the holder. -/
theorem begun (h : HeldBy none y) (w : Tables) :
    HeldBy (some i) (y.put i (⟨w, true⟩, ⟨w, .active⟩)) := by
  refine ⟨fun j => ?_, rfl⟩
  rw [unfinished_put, h.unfinished_iff]
  by_cases hj : j = i
  · simp [hj]
  · simp [hj, Ne.symm hj]

/-- Errands leave unfinished what was unfinished. -/
theorem served (h : HeldBy holder y) (hi : y.objects i = some tx) (w : Tables) :
    HeldBy holder (y.put i (y.store, { tx with working := w })) := by
  refine ⟨fun j => ?_, h.locked_eq⟩
  rw [unfinished_put, ← h.unfinished_iff]
  by_cases hj : j = i
  · subst hj
    simp [unfinished_of_eq hi]
  · simp [hj]

/-- Whoever ends a transaction was its holder, so that nobody holds the ledger any more. -/
theorem finished (h : HeldBy holder y) (hi : Unfinished y i) (w : Tables)
    (hphase : tx.phase ≠ .active) : HeldBy none (y.put i (⟨w, false⟩, tx)) := by
  have hholder := (h.unfinished_iff i).1 hi
  refine ⟨fun j => ?_, rfl⟩
  rw [unfinished_put, h.unfinished_iff, hholder]
  by_cases hj : j = i
  · simp [hj, hphase]
  · simp [hj, Ne.symm hj]

theorem dropped (h : HeldBy holder y) (hi : Unfinished y i) (w : Tables) :
    HeldBy none (y.drop i ⟨w, false⟩) := by
  have hholder := (h.unfinished_iff i).1 hi
  refine ⟨fun j => ?_, rfl⟩
  rw [unfinished_drop, h.unfinished_iff, hholder]
  simp [eq_comm]

theorem discarded (h : HeldBy holder y) (hi : ¬ Unfinished y i) :
    HeldBy holder (y.drop i y.store) := by
  refine ⟨fun j => ?_, h.locked_eq⟩
  rw [unfinished_drop, ← h.unfinished_iff, and_iff_right_iff_imp]
  rintro hj rfl
  exact hi hj

theorem step (h : HeldBy holder y) (d : Deed ι) : ∃ holder', HeldBy holder' (y.step d) := by
  have hturn := turn_step y d
  generalize y.step d = y' at hturn ⊢
  cases hturn with
  | begun hi hfree =>
    have hlocked := h.locked_eq
    rw [hfree] at hlocked
    cases holder with
    | none => exact ⟨_, h.begun _⟩
    | some k => cases hlocked
  | waiting _ => exact ⟨_, h⟩
  | absent _ _ => exact ⟨_, h⟩
  | served hi => exact ⟨_, h.served hi _⟩
  | committed hi => exact ⟨_, h.finished ⟨_, hi, rfl⟩ _ (by simp)⟩
  | undone hi => exact ⟨_, h.finished ⟨_, hi, rfl⟩ _ (by simp)⟩
  | ended _ _ _ => exact ⟨_, h⟩
  | dropped hi => exact ⟨_, h.dropped ⟨_, hi, rfl⟩ _⟩
  | discarded hi hphase => exact ⟨_, h.discarded ((unfinished_of_eq hi).not.2 hphase)⟩

theorem after (h : HeldBy holder y) (ds : List (Deed ι)) :
    ∃ holder', HeldBy holder' (y.after ds) := by
  induction ds generalizing y holder with
  | nil => exact ⟨holder, h⟩
  | cons d ds ih =>
    obtain ⟨holder', h'⟩ := h.step d
    exact ih h'

end HeldBy

end Held

/-! ### The life of an object -/

/-- What becomes of an object by a deed, be it about this object or another one. -/
def Transaction.undergo (i : ι) (tx : Transaction) : Deed ι → Transaction
  | .errand j e => if j = i then { tx with working := tx.working.serve e } else tx
  | .commit j => if j = i ∧ tx.phase = .active then ⟨.empty, .committed⟩ else tx
  | .rollback j => if j = i ∧ tx.phase = .active then ⟨.empty, .rolledBack⟩ else tx
  | .begin _ | .destroy _ => tx

section Life

variable {y : Desk Ledger Transaction ι} {i : ι} {tx : Transaction} {ds : List (Deed ι)}

theorem undergo_of_ne {d : Deed ι} (hd : i ≠ d.object) : tx.undergo i d = tx := by
  cases d with
  | errand j e => exact if_neg (Ne.symm hd)
  | commit j => exact if_neg fun h => hd h.1.symm
  | rollback j => exact if_neg fun h => hd h.1.symm
  | begin j | destroy j => rfl

theorem objects_step {d : Deed ι} (hi : y.objects i = some tx) (hd : d ≠ .destroy i) :
    (y.step d).objects i = some (tx.undergo i d) := by
  by_cases hobject : i = d.object
  · subst hobject
    have hturn := turn_step y d
    generalize y.step d = y' at hturn ⊢
    cases hturn with
    | begun hi' _ => cases hi'.symm.trans hi
    | waiting _ => exact hi
    | absent _ hi' => cases hi'.symm.trans hi
    | served hi' | committed hi' | undone hi' =>
      cases hi'.symm.trans hi
      simp [Transaction.undergo, Deed.object]
    | ended hd hi' hphase =>
      rcases hd with rfl | rfl <;>
      · cases hi'.symm.trans hi
        simpa [Transaction.undergo, hphase, Deed.object] using hi'
    | dropped _ | discarded _ _ => exact absurd rfl hd
  · rw [Desk.objects_step_of_ne d hobject, hi, undergo_of_ne hobject]

/-- An object that is not given up is what its own deeds have made of it. -/
theorem objects_after (hi : y.objects i = some tx) (hds : .destroy i ∉ ds) :
    (y.after ds).objects i = some (ds.foldl (Transaction.undergo i) tx) := by
  induction ds generalizing y tx with
  | nil => exact hi
  | cons d ds ih =>
    rw [List.mem_cons, not_or] at hds
    exact ih (objects_step hi (Ne.symm hds.1)) hds.2

/-- A transaction is unfinished until it is committed or rolled back. -/
theorem phase_undergo_eq_active {d : Deed ι} : (tx.undergo i d).phase = .active ↔
    tx.phase = .active ∧ d ≠ .commit i ∧ d ≠ .rollback i := by
  cases d with
  | errand j e => by_cases hj : j = i <;> simp [Transaction.undergo, hj]
  | commit j | rollback j =>
    by_cases hj : j = i <;> by_cases hphase : tx.phase = .active <;>
      simp [Transaction.undergo, hj, hphase]
  | begin j | destroy j => simp [Transaction.undergo]

theorem phase_undergo_eq_committed {d : Deed ι} : (tx.undergo i d).phase = .committed ↔
    tx.phase = .committed ∨ d = .commit i ∧ tx.phase = .active := by
  cases d with
  | errand j e => by_cases hj : j = i <;> simp [Transaction.undergo, hj]
  | commit j | rollback j =>
    by_cases hj : j = i <;> by_cases hphase : tx.phase = .active <;>
      simp [Transaction.undergo, hj, hphase]
  | begin j | destroy j => simp [Transaction.undergo]

theorem phase_foldl_eq_active : (ds.foldl (Transaction.undergo i) tx).phase = .active ↔
    tx.phase = .active ∧ .commit i ∉ ds ∧ .rollback i ∉ ds := by
  induction ds generalizing tx with
  | nil => simp
  | cons d ds ih =>
    rw [List.foldl_cons, ih, phase_undergo_eq_active]
    simp only [List.mem_cons, not_or, ne_eq, @eq_comm _ _ d]
    tauto

/-- A transaction has been committed exactly if some commit found it unfinished. -/
theorem phase_foldl_eq_committed :
    (ds.foldl (Transaction.undergo i) tx).phase = .committed ↔ tx.phase = .committed ∨
      Somewhere (fun before d => d = .commit i ∧
        (before.foldl (Transaction.undergo i) tx).phase = .active) ds := by
  induction ds generalizing tx with
  | nil => simp [Somewhere.nil]
  | cons d ds ih =>
    rw [List.foldl_cons, ih, phase_undergo_eq_committed, Somewhere.cons_iff, or_assoc]
    rfl

/-- An unfinished transaction works on the tables that its own errands have made. -/
theorem working_foldl (h : (ds.foldl (Transaction.undergo i) tx).phase = .active) :
    (ds.foldl (Transaction.undergo i) tx).working =
      (errands i ds).foldl Tables.serve tx.working := by
  induction ds generalizing tx with
  | nil => rfl
  | cons d ds ih =>
    rw [List.foldl_cons] at h ⊢
    rw [ih h]
    have hphase := phase_undergo_eq_active.1 (phase_foldl_eq_active.1 h).1
    cases d with
    | errand j e =>
      rw [errands_cons_errand]
      by_cases hj : j = i <;> simp [Transaction.undergo, hj]
    | commit j =>
      have hj : j ≠ i := fun hj => hphase.2.1 (congrArg _ hj)
      simp [Transaction.undergo, hj, errands]
    | rollback j =>
      have hj : j ≠ i := fun hj => hphase.2.2 (congrArg _ hj)
      simp [Transaction.undergo, hj, errands]
    | begin j | destroy j => rfl

end Life

/-! ### What can be relied on -/

/-- A commit of an object would succeed. -/
def Commits (y : Desk Ledger Transaction ι) (i : ι) : Prop :=
  ∃ tx, y.objects i = some tx ∧
    ((Repository.commit : Action (Ledger × Transaction) Unit).run (y.store, tx)).1 = .ok ()

theorem Ledger.isOk_begin (l : Ledger) :
    ((Repository.begin : Action Ledger Transaction).run l).1.isOk = !l.locked := by
  obtain ⟨w, locked⟩ := l
  cases locked <;> rfl

theorem Ledger.run_begin_of_free {l : Ledger} (h : l.locked = false) :
    (Repository.begin : Action Ledger Transaction).run l =
      (.ok ⟨l.committed, .active⟩, ⟨l.committed, true⟩) := by
  obtain ⟨w, locked⟩ := l
  cases h
  rfl

/-- What transaction objects are to the ledger and to each other. -/
structure Isolates (y : Desk Ledger Transaction ι) : Prop where
  one_unfinished : ∀ i j, Unfinished y i → Unfinished y j → i = j
  begin_isOk_iff : ((Repository.begin : Action Ledger Transaction).run y.store).1.isOk = true ↔
    ∀ i, ¬ Unfinished y i
  /-- A commit makes the working tables of an unfinished transaction the committed ones. -/
  committed_of_commit : ∀ i tx, y.objects i = some tx → tx.phase = .active →
    (y.step (.commit i)).store.committed = tx.working
  /-- Nothing else changes the committed tables. -/
  committed_of_else : ∀ d, (∀ i, d = .commit i → ¬ Unfinished y i) →
    (y.step d).store.committed = y.store.committed
  /-- Through an object that has ended, nothing of the ledger changes. -/
  store_of_finished : ∀ d, (∀ i, d ≠ .begin i) → ¬ Unfinished y d.object →
    (y.step d).store = y.store
  /-- Another object than the one that a deed is about does not change. -/
  objects_of_ne : ∀ d j, j ≠ d.object → (y.step d).objects j = y.objects j
  /-- A transaction that has ended is not committed again. -/
  commit_finished : ∀ i tx, y.objects i = some tx → tx.phase ≠ .active →
    ∃ e, e.kind = .logic ∧ (Repository.commit : Action (Ledger × Transaction) Unit).run
      (y.store, tx) = (.error e, y.store, tx)

/-- How an object stands after its transaction has begun and deeds have been done. -/
structure Lives (y : Desk Ledger Transaction ι) (i : ι) (ds : List (Deed ι)) (tx : Transaction) :
    Prop where
  object : (y.after (.begin i :: ds)).objects i = some tx
  phase_iff : tx.phase = .active ↔ .commit i ∉ ds ∧ .rollback i ∉ ds
  /-- Until it ends, it finds what was committed when it began, with what it has written itself. -/
  finds : tx.phase = .active → ∀ q : Inquiry,
    (q.request : Action (Ledger × Transaction) q.Finding).run
      ((y.after (.begin i :: ds)).store, tx) =
        (.ok (((errands i ds).foldl Tables.serve y.store.committed).find q),
          (y.after (.begin i :: ds)).store, tx)
  /-- It counts as committed exactly after a commit that succeeded. -/
  isCommitted_iff : Repository.isCommitted (σ := Ledger) tx = true ↔
    Somewhere (fun before d => d = .commit i ∧ Commits (y.after (.begin i :: before)) i) ds

section Desk

variable {y : Desk Ledger Transaction ι} {i : ι} {holder : Option ι}

omit [DecidableEq ι] in
theorem commits_iff : Commits y i ↔ Unfinished y i := by
  refine exists_congr fun tx => and_congr_right fun _ => ?_
  obtain ⟨w, phase⟩ := tx
  cases phase with
  | active => exact iff_of_true rfl rfl
  | committed | rolledBack => exact iff_of_false (by rintro ⟨⟩) (by rintro ⟨⟩)

theorem HeldBy.isolates (h : HeldBy holder y) : Isolates y where
  one_unfinished i j := h.unique
  begin_isOk_iff := by
    rw [← h.eq_none_iff, Ledger.isOk_begin, h.locked_eq]
    cases holder <;> simp
  committed_of_commit := by
    rintro i ⟨w, phase⟩ hi rfl
    rw [Desk.step_commit, Desk.use_of_some hi]
    rfl
  committed_of_else := by
    intro d hd
    have hturn := turn_step y d
    generalize y.step d = y' at hturn ⊢
    cases hturn with
    | committed hi => exact absurd ⟨_, hi, rfl⟩ (hd _ rfl)
    | begun _ _ | waiting _ | absent _ _ | served _ | undone _ | ended _ _ _ | dropped _
    | discarded _ _ => rfl
  store_of_finished := by
    intro d hd hfinished
    have hturn := turn_step y d
    generalize y.step d = y' at hturn ⊢
    cases hturn with
    | begun _ _ => exact absurd rfl (hd _)
    | committed hi | undone hi | dropped hi => exact absurd ⟨_, hi, rfl⟩ hfinished
    | waiting _ | absent _ _ | served _ | ended _ _ _ | discarded _ _ => rfl
  objects_of_ne := fun d j hj => Desk.objects_step_of_ne d hj
  commit_finished := fun i tx _ hphase => Ledger.run_commit_ended hphase

/-- An object that begins when it can lives its own life. -/
theorem HeldBy.lives (h : HeldBy none y) (hi : y.objects i = none) {ds : List (Deed ι)}
    (hds : .destroy i ∉ ds) : ∃ tx, Lives y i ds tx := by
  have hbegin : (y.step (.begin i)).objects i = some ⟨y.store.committed, .active⟩ := by
    rw [Desk.step_begin_of_ok hi (Ledger.run_begin_of_free h.locked_eq), Desk.objects_put_self]
  have hafter : ∀ {ds}, .destroy i ∉ ds → (y.after (.begin i :: ds)).objects i =
      some (ds.foldl (Transaction.undergo i) ⟨y.store.committed, .active⟩) :=
    objects_after hbegin
  refine ⟨_, hafter hds, ?_, fun hphase q => ?_, ?_⟩
  · rw [phase_foldl_eq_active]
    simp
  · rw [Ledger.run_inquiry, working_foldl hphase]
  · have hcommitted : ∀ tx : Transaction,
        Repository.isCommitted (σ := Ledger) tx = true ↔ tx.phase = .committed :=
      fun tx => decide_eq_true_iff
    rw [hcommitted, phase_foldl_eq_committed]
    simp only [reduceCtorEq, false_or]
    refine exists_congr fun before => exists_congr fun d => exists_congr fun rest =>
      and_congr_right fun hsplit => and_congr_right fun _ => ?_
    have hbefore : .destroy i ∉ before := by
      intro hmem
      exact hds (hsplit ▸ List.mem_append_left _ hmem)
    rw [commits_iff]
    exact (unfinished_of_eq (hafter hbefore)).symm

end Desk

/-- Whatever has been done on the desk of a ledger, transactions are isolated there, and an object
that begins while no other is unfinished lives its own life until it is given up. -/
theorem ledger_isolates (t : Tables) (past : List (Deed ι)) :
    Isolates ((Ledger.desk t).after past) ∧
      ∀ i, ((Ledger.desk t).after past).objects i = none →
        (∀ j, ¬ Unfinished ((Ledger.desk t).after past) j) →
        ∀ ds, .destroy i ∉ ds → ∃ tx, Lives ((Ledger.desk t).after past) i ds tx := by
  obtain ⟨holder, h⟩ := (HeldBy.opening (ι := ι) t).after past
  refine ⟨h.isolates, fun i hi hfree ds hds => ?_⟩
  cases h.eq_none_iff.2 hfree
  exact h.lives hi hds

/-- A transaction that is committed, through the object of which somebody goes on to write, to commit
and to roll back. -/
def staleDeeds : List (Deed Bool) :=
  [.begin true,
    .errand true (.write (.change (.insertDeployment ⟨"kept", "kept", "flow", 0⟩))),
    .commit true,
    .errand true (.write (.change (.insertDeployment ⟨"stale", "stale", "flow", 0⟩))),
    .commit true,
    .rollback true]

/-- What is done after a second object has begun: both write, and the stale one commits again. -/
def lateDeeds : List (Deed Bool) :=
  [.errand true (.write (.change (.insertDeployment ⟨"late", "late", "flow", 0⟩))),
    .errand false (.write (.change (.insertDeployment ⟨"new", "new", "flow", 0⟩))),
    .commit true]

/-- The stale object disturbs neither what is committed nor the transaction that begins next. -/
theorem ledger_isolates_stale :
    Isolates ((Ledger.desk .empty).after staleDeeds) ∧
    ∃ tx, Lives ((Ledger.desk .empty).after staleDeeds) false lateDeeds tx ∧
      tx.phase = .active ∧ ∀ l : Ledger,
        ((Repository.listDeployments 0 none : Action (Ledger × Transaction) _).run (l, tx)).1 =
          .ok [⟨"kept", "kept", "flow", 0⟩, ⟨"new", "new", "flow", 0⟩] := by
  obtain ⟨hisolates, hlives⟩ := ledger_isolates .empty staleDeeds
  have hfree : ((Ledger.desk .empty).after staleDeeds).objects false = none := by
    rw [← Option.isNone_iff_eq_none]
    decide +kernel
  obtain ⟨tx, h⟩ := hlives false hfree (by decide +kernel) lateDeeds (by simp [lateDeeds])
  have hphase : tx.phase = .active := h.phase_iff.2 (by simp [lateDeeds])
  refine ⟨hisolates, tx, h, hphase, fun l => ?_⟩
  have hfinds : tx.working.listDeployments 0 none =
      ((errands false lateDeeds).foldl Tables.serve
        ((Ledger.desk .empty).after staleDeeds).store.committed).listDeployments 0 none :=
    Except.ok.inj (congrArg (·.1) (h.finds hphase (.listDeployments 0 none)))
  have hlisted : tx.working.listDeployments 0 none =
      [⟨"kept", "kept", "flow", 0⟩, ⟨"new", "new", "flow", 0⟩] := by
    rw [hfinds]
    decide +kernel
  exact congrArg Except.ok hlisted

end Keyed

end Timetable
