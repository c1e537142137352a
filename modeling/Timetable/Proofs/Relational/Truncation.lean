import Timetable.Proofs.Relational.Spares
import Timetable.Proofs.Relational.Visible

/-!
# What is read of a record that was stored

The relational store takes texts up to their first U+0000. A record that it accepts is read back
with each text cut there and every number as it was, in whatever state the store and the transaction
are (`stored_texts_end_at_nul`), so it comes back as it was given exactly if its texts hold no
U+0000. Keys are compared as they are stored: of two runs whose keys differ behind a U+0000 only,
the second one is skipped.
-/

namespace Timetable.Relational

open Text (untilNul NulFree)

/-! ### Rows -/

section Rows

variable {α : Type} {id : α → String} {rows : List α} {a b : α}

/-- A row with a new id is the only one that has it. -/
theorem filter_concat_of_new (h : ∀ b ∈ rows, id b ≠ id a) :
    (rows ++ [a]).filter (id · == id a) = [a] := by
  rw [List.filter_append, List.filter_eq_nil_iff.2 fun b hb => by simpa using h b hb]
  simp

/-- It stays the only one while rows with new ids are added. -/
theorem filter_concat_of_sole (ha : rows.filter (id · == id a) = [a])
    (h : ∀ c ∈ rows, id c ≠ id b) : (rows ++ [b]).filter (id · == id a) = [a] := by
  have hmem : a ∈ rows.filter (id · == id a) := ha ▸ List.mem_singleton_self a
  rw [Tables.filter_concat_of_ne (h a (List.mem_of_mem_filter hmem)).symm, ha]

/-- Sorting a part of the rows leaves the only row with an id the only one. -/
theorem filter_mergeSort_filter {le : α → α → Bool} {p q : α → Bool} (h : rows.filter q = [a])
    (ha : p a = true) : ((rows.filter p).mergeSort le).filter q = [a] := by
  have hperm : (((rows.filter p).mergeSort le).filter q).Perm ((rows.filter p).filter q) :=
    (List.mergeSort_perm _ _).filter q
  have hboth : (rows.filter p).filter q = [a] := by
    rw [List.filter_comm, h, List.filter_cons_of_pos ha, List.filter_nil]
  rw [hboth] at hperm
  exact List.perm_singleton.1 hperm

end Rows

namespace Database

variable {x x' : Database × Transaction}

/-! ### Records -/

/-- A run is visible, and no other has its id. -/
structure HasRun (r : FlowRun) (db : Database) : Prop extends db.Readable .run where
  sole : db.visible.runRows.filter (·.id == r.id) = [r]

/-- A state is visible, and no other has its id. -/
structure HasState (s : RunState) (db : Database) : Prop extends db.Readable .state where
  sole : db.visible.stateRows.filter (·.id == s.id) = [s]

theorem findDeployment_of_insertDeployment {d : Deployment}
    (h : (Repository.insertDeployment d).run x = (.ok (.ok ()), x')) :
    ((Repository.findDeployment d.id).run x').1 = .ok (some (d.mapTexts untilNul)) := by
  obtain ⟨-, hundamaged, hinsert⟩ := change_eq_ok h
  rw [bindDeployment_eq] at hinsert
  have hnew := id_ne_of_insertDeployment hinsert
  have hvisible := eq_of_insertDeployment hinsert
  have hreadable : x'.1.Readable .deployment := ⟨hundamaged, by rw [hvisible]; simp [Tables.names]⟩
  have hsole : (x.1.visible.deploymentRows ++ [d.mapTexts untilNul]).filter
      (·.id == (d.mapTexts untilNul).id) = [d.mapTexts untilNul] := filter_concat_of_new hnew
  refine (run_query_of_readable hreadable _).trans (congrArg Except.ok ?_)
  rw [← List.head?_filter, hvisible]
  exact congrArg List.head? hsole

theorem listSchedules_of_insertSchedule {q : Schedule}
    (h : (Repository.insertSchedule q).run x = (.ok (.ok ()), x')) : ∃ qs,
    ((Repository.listSchedules q.deploymentId).run x').1 = .ok qs ∧
      qs.filter (·.id == untilNul q.id) = [q.mapTexts untilNul] := by
  obtain ⟨-, hundamaged, hinsert⟩ := insertSchedule_eq_ok h
  have hnew := id_ne_of_insertSchedule hinsert
  have hvisible := eq_of_insertSchedule hinsert
  have hreadable : x'.1.Readable .schedule := ⟨hundamaged, by rw [hvisible]; simp [Tables.names]⟩
  have hsole : (x.1.visible.scheduleRows ++ [q.mapTexts untilNul]).filter
      (·.id == (q.mapTexts untilNul).id) = [q.mapTexts untilNul] := filter_concat_of_new hnew
  refine ⟨_, run_query_of_readable hreadable _, ?_⟩
  rw [hvisible]
  exact filter_mergeSort_filter hsole (beq_self_eq_true _)

/-- A run is skipped if there is one with its key as it is stored, and otherwise it is there. -/
theorem insertRun_eq_ok {r : FlowRun} (h : (insertRun r).run x = (.ok (.ok ()), x')) :
    (x'.1.visible = x.1.visible ∧
        ∃ p ∈ x.1.visible.runRows, p.key = (r.mapTexts untilNul).key) ∨
      HasRun (r.mapTexts untilNul) x'.1 ∧
        ¬ ∃ p ∈ x.1.visible.runRows, p.key = (r.mapTexts untilNul).key := by
  obtain ⟨-, hundamaged, hinsert⟩ := change_eq_ok h
  rw [bindRun_eq] at hinsert
  have hany : (x.1.visible.runRows.any (·.key == (r.mapTexts untilNul).key)) = true ↔
      ∃ p ∈ x.1.visible.runRows, p.key = (r.mapTexts untilNul).key := by
    simp
  by_cases hkey : (x.1.visible.runRows.any (·.key == (r.mapTexts untilNul).key)) = true
  · rw [Tables.insertRun, if_pos hkey] at hinsert
    exact .inl ⟨(Except.ok.inj hinsert).symm, hany.1 hkey⟩
  · rw [Tables.insertRun, if_neg hkey] at hinsert
    split at hinsert
    · cases hinsert
    next hid =>
    have hvisible := (Except.ok.inj hinsert).symm
    refine .inr ⟨⟨⟨hundamaged, by rw [hvisible]; simp [Tables.names]⟩, ?_⟩, mt hany.2 hkey⟩
    rw [hvisible]
    exact filter_concat_of_new (ne_of_not_any hid)

/-- A run stays visible while runs are added. -/
theorem HasRun.insertRun {r q : FlowRun} (hr : HasRun r x.1)
    (h : (insertRun q).run x = (.ok (.ok ()), x')) : HasRun r x'.1 := by
  obtain ⟨-, hundamaged, hinsert⟩ := change_eq_ok h
  rcases Tables.eq_of_insertRun hinsert with hvisible | ⟨hnew, hvisible⟩
  · exact ⟨⟨hundamaged, hvisible ▸ hr.mem_names⟩, hvisible ▸ hr.sole⟩
  · refine ⟨⟨hundamaged, by rw [hvisible]; simp [Tables.names]⟩, ?_⟩
    rw [hvisible]
    exact filter_concat_of_sole hr.sole hnew

theorem HasRun.findRun {r : FlowRun} (h : HasRun r x.1) {id : String} (hid : untilNul id = r.id) :
    ((Repository.findRun id).run x).1 = .ok (some r) := by
  refine (run_query_of_readable h.toReadable _).trans (congrArg Except.ok ?_)
  rw [Tables.findRun, hid, ← List.head?_filter, h.sole]
  rfl

theorem insertState_eq_ok {s : RunState} (h : (insertState s).run x = (.ok (.ok ()), x')) :
    HasState (s.mapTexts untilNul) x'.1 := by
  obtain ⟨-, hundamaged, hinsert⟩ := change_eq_ok h
  rw [bindState_eq] at hinsert
  obtain ⟨hnew, hvisible⟩ := Tables.eq_of_insertState hinsert
  refine ⟨⟨hundamaged, by rw [hvisible]; simp [Tables.names]⟩, ?_⟩
  rw [hvisible]
  exact filter_concat_of_new hnew

/-- A state stays visible while states are added. -/
theorem HasState.insertState {s t : RunState} (hs : HasState s x.1)
    (h : (insertState t).run x = (.ok (.ok ()), x')) : HasState s x'.1 := by
  obtain ⟨-, hundamaged, hinsert⟩ := change_eq_ok h
  obtain ⟨hnew, hvisible⟩ := Tables.eq_of_insertState hinsert
  refine ⟨⟨hundamaged, by rw [hvisible]; simp [Tables.names]⟩, ?_⟩
  rw [hvisible]
  exact filter_concat_of_sole hs.sole hnew

theorem HasState.listStates {s : RunState} (h : HasState s x.1) {runId : String}
    (hrun : untilNul runId = s.runId) : ∃ ss,
    ((Repository.listStates runId).run x).1 = .ok ss ∧ ss.filter (·.id == s.id) = [s] := by
  refine ⟨_, run_query_of_readable h.toReadable _, ?_⟩
  rw [hrun]
  exact filter_mergeSort_filter h.sole (beq_self_eq_true _)

/-- Whatever the state of a store and a transaction is, a record that is accepted is read back with
each text up to its first U+0000 and all numbers as they were, which is the record as it was given
exactly if no text holds U+0000. A run of a batch is skipped if and only if, once the runs before it
have been inserted, there is one with its flow id and its key up to their first U+0000. -/
theorem stored_texts_end_at_nul (x x' : Database × Transaction) :
    (∀ d : Deployment, (Repository.insertDeployment d).run x = (.ok (.ok ()), x') →
      ((Repository.findDeployment d.id).run x').1 = .ok (some (d.mapTexts untilNul)) ∧
        (d.mapTexts untilNul = d ↔ ∀ s ∈ d.texts, NulFree s)) ∧
    (∀ q : Schedule, (Repository.insertSchedule q).run x = (.ok (.ok ()), x') → ∃ qs,
      ((Repository.listSchedules q.deploymentId).run x').1 = .ok qs ∧
        qs.filter (·.id == untilNul q.id) = [q.mapTexts untilNul] ∧
        (q.mapTexts untilNul = q ↔ ∀ s ∈ q.texts, NulFree s)) ∧
    (∀ before r after,
      (Repository.insertRuns (before ++ r :: after)).run x = (.ok (.ok ()), x') → ∃ m m',
        (Repository.insertRuns before).run x = (.ok (.ok ()), m) ∧
        (Repository.insertRuns [r]).run m = (.ok (.ok ()), m') ∧
        (Repository.insertRuns after).run m' = (.ok (.ok ()), x') ∧
        ((∃ p ∈ m.1.visible.runRows,
            p.key = ⟨untilNul r.flowId, untilNul r.idempotencyKey⟩) →
          m'.1.visible = m.1.visible) ∧
        ((¬ ∃ p ∈ m.1.visible.runRows,
            p.key = ⟨untilNul r.flowId, untilNul r.idempotencyKey⟩) →
          ((Repository.findRun r.id).run x').1 = .ok (some (r.mapTexts untilNul)) ∧
            (r.mapTexts untilNul = r ↔ ∀ s ∈ r.texts, NulFree s))) ∧
    (∀ before s after,
      (Repository.insertStates (before ++ s :: after)).run x = (.ok (.ok ()), x') → ∃ ss,
        ((Repository.listStates s.runId).run x').1 = .ok ss ∧
          ss.filter (·.id == untilNul s.id) = [s.mapTexts untilNul] ∧
          (s.mapTexts untilNul = s ↔ ∀ t ∈ s.texts, NulFree t)) := by
  refine ⟨fun d h => ⟨findDeployment_of_insertDeployment h, ?_⟩, fun q h => ?_,
    fun before r after h => ?_, fun before s after h => ?_⟩
  · simp only [Deployment.mapTexts_eq_self_iff, Text.untilNul_eq_self_iff, NulFree]
  · obtain ⟨qs, hlist, hsole⟩ := listSchedules_of_insertSchedule h
    refine ⟨qs, hlist, hsole, ?_⟩
    simp only [Schedule.mapTexts_eq_self_iff, Text.untilNul_eq_self_iff, NulFree]
  · obtain ⟨m, hbefore, hrest⟩ := changeEach_append_eq_ok h
    obtain ⟨m', hr, hafter⟩ := changeEach_cons_eq_ok hrest
    have hone : (Repository.insertRuns [r]).run m = (.ok (.ok ()), m') := by
      show (changeEach insertRun [r]).run m = _
      rw [changeEach, Action.run_bind_of_ok hr]
      rfl
    refine ⟨m, m', hbefore, hone, hafter, fun hkey => ?_, fun hkey => ?_⟩
    · rcases insertRun_eq_ok hr with ⟨hskipped, -⟩ | ⟨-, hnew⟩
      · exact hskipped
      · exact absurd hkey hnew
    · rcases insertRun_eq_ok hr with ⟨-, hold⟩ | ⟨hstored, -⟩
      · exact absurd hold hkey
      -- the runs behind it in the batch are inserted without touching it
      · have hkept : HasRun (r.mapTexts untilNul) x'.1 :=
          changeEach_keeps (fun _ _ _ hq hthere => hthere.insertRun hq) hafter hstored
        refine ⟨hkept.findRun rfl, ?_⟩
        simp only [FlowRun.mapTexts_eq_self_iff, Text.untilNul_eq_self_iff, NulFree]
  · obtain ⟨m, -, hrest⟩ := changeEach_append_eq_ok h
    obtain ⟨m', hs, hafter⟩ := changeEach_cons_eq_ok hrest
    have hkept : HasState (s.mapTexts untilNul) x'.1 :=
      changeEach_keeps (fun _ _ _ ht hthere => hthere.insertState ht) hafter (insertState_eq_ok hs)
    obtain ⟨ss, hlist, hsole⟩ := hkept.listStates (show untilNul s.runId = _ from rfl)
    refine ⟨ss, hlist, hsole, ?_⟩
    simp only [RunState.mapTexts_eq_self_iff, Text.untilNul_eq_self_iff, NulFree]

theorem eq_pair_of_fst_eq {α β : Type} {p : α × β} {a : α} (h : p.1 = a) : p = (a, p.2) := by
  rw [← h]

/-- One more record of each kind. The new name and the new key go on behind a U+0000. -/
theorem stored_texts_end_at_nul_one_each :
    let d : Deployment := ⟨"d", "n\x00x", "f", 0⟩
    let q : Schedule := ⟨"q", "first", 3600, ⟨-1⟩, "{}", 18446744073709551615⟩
    let r : FlowRun := ⟨"r", "f", "first", "{}", "k\x00a", "[]", "q", true, none, 0⟩
    let s : RunState := ⟨"s", "run", 1, "m", "{}", 0⟩
    let x := (copying .current).busy .empty .empty
    let y := (copying .current).busy .empty ⟨some [⟨"first", "first", "f", 0⟩], some [],
      some [⟨"run", "f", "first", "{}", "key", "[]", "q", true, none, 0⟩], some []⟩
    ((Repository.findDeployment "d").run ((Repository.insertDeployment d).run x).2).1 =
        .ok (some (d.mapTexts untilNul)) ∧
      (∃ qs, ((Repository.listSchedules "first").run
          ((Repository.insertSchedule q).run y).2).1 = .ok qs ∧
        qs.filter (·.id == untilNul "q") = [q.mapTexts untilNul]) ∧
      ((Repository.findRun "r").run ((Repository.insertRuns [r]).run x).2).1 =
        .ok (some (r.mapTexts untilNul)) ∧
      ∃ ss, ((Repository.listStates "run").run ((Repository.insertStates [s]).run y).2).1 =
          .ok ss ∧ ss.filter (·.id == untilNul "s") = [s.mapTexts untilNul] := by
  intro d q r s x y
  obtain ⟨hd, -, -, -⟩ := stored_texts_end_at_nul x ((Repository.insertDeployment d).run x).2
  obtain ⟨-, hq, -, -⟩ := stored_texts_end_at_nul y ((Repository.insertSchedule q).run y).2
  obtain ⟨-, -, hr, -⟩ := stored_texts_end_at_nul x ((Repository.insertRuns [r]).run x).2
  obtain ⟨-, -, -, hs⟩ := stored_texts_end_at_nul y ((Repository.insertStates [s]).run y).2
  obtain ⟨hdeployment, -⟩ := hd d (eq_pair_of_fst_eq (by decide +kernel))
  obtain ⟨qs, hqs, hsole, -⟩ := hq q (eq_pair_of_fst_eq (by decide +kernel))
  obtain ⟨m, m', hm, -, -, -, hfind⟩ := hr [] r [] (eq_pair_of_fst_eq (by decide +kernel))
  obtain ⟨ss, hss, hsole', -⟩ := hs [] s [] (eq_pair_of_fst_eq (by decide +kernel))
  cases hm
  exact ⟨hdeployment, ⟨qs, hqs, hsole⟩, (hfind (by decide)).1, ss, hss, hsole'⟩

/-- A name comes back without its end, and a run whose key differs in its end is skipped. -/
theorem texts_behind_nul_are_lost :
    let x := (copying .current).busy .empty .empty
    let d : Deployment := ⟨"d", "n\x00x", "f", 0⟩
    let r (id key : String) : FlowRun := ⟨id, "f", "d", "{}", key, "[]", "s", true, none, 0⟩
    (∃ x', (Repository.insertDeployment d).run x = (.ok (.ok ()), x') ∧
      ((Repository.findDeployment "d").run x').1 = .ok (some ⟨"d", "n", "f", 0⟩)) ∧
    (∃ x', (Repository.insertRuns [r "first" "k\x00a", r "second" "k\x00b"]).run x =
        (.ok (.ok ()), x') ∧
      ((Repository.findRun "second").run x').1 = .ok none) :=
  ⟨⟨_, rfl, rfl⟩, _, rfl, rfl⟩

end Database

end Timetable.Relational
