import Timetable.Proofs.Keyed.WellFormed

/-!
# Batches of runs and of states

A batch is inserted row by row and stops at the first row that is refused. What has become of it is
said here without going through it: a run is inserted if nobody had its key when its turn came
(`Fresh`), and a batch is refused exactly if somewhere in it a row's id is taken (`Taken`,
`insertRuns_refused_iff`, `insertStates_refused_iff`). The lemmas about a whole batch follow from
those about one row by induction on the batch.
-/

namespace Timetable

/-- Somewhere in a list stands an element of which, and of those before it, something holds. -/
def Somewhere {α : Type} (P : List α → α → Prop) (l : List α) : Prop :=
  ∃ before a after, l = before ++ a :: after ∧ P before a

namespace Somewhere

variable {α β : Type} {P : List α → α → Prop} {l : List α}

theorem nil : ¬ Somewhere P [] := by
  rintro ⟨before, a, after, h, -⟩
  cases before <;> cases h

theorem cons_iff {a : α} :
    Somewhere P (a :: l) ↔ P [] a ∨ Somewhere (fun before b => P (a :: before) b) l := by
  constructor
  · rintro ⟨before, b, after, h, hP⟩
    cases before with
    | nil =>
      cases h
      exact .inl hP
    | cons c before =>
      cases h
      exact .inr ⟨before, b, after, rfl, hP⟩
  · rintro (hP | ⟨before, b, after, rfl, hP⟩)
    · exact ⟨[], a, l, rfl, hP⟩
    · exact ⟨a :: before, b, after, rfl, hP⟩

/-- Going through a list tells whether there is such an element. -/
def dec : ∀ (P : List α → α → Prop) [∀ before a, Decidable (P before a)] (l : List α),
    Decidable (Somewhere P l)
  | _, _, [] => isFalse nil
  | P, _, a :: l =>
    have := dec (fun before b => P (a :: before) b) l
    decidable_of_iff _ cons_iff.symm

instance [∀ before a, Decidable (P before a)] : Decidable (Somewhere P l) := dec P l

end Somewhere

namespace Keyed.Tables

open OrderedMap

variable {t u : Tables}

/-! ### Runs -/

/-- Nobody, stored or among the `earlier` runs, has the key of a run. -/
def Fresh (t : Tables) (earlier : List FlowRun) (r : FlowRun) : Prop :=
  ∀ q ∈ t.runs.values ++ earlier, q.key ≠ r.key

instance (earlier : List FlowRun) (r : FlowRun) : Decidable (t.Fresh earlier r) :=
  inferInstanceAs (Decidable (∀ q ∈ t.runs.values ++ earlier, q.key ≠ r.key))

/-- An id belongs to a stored run, or to one of the `earlier` runs that was fresh at its turn. -/
def Taken (t : Tables) (earlier : List FlowRun) (id : String) : Prop :=
  t.runs.contains id = true ∨ Somewhere (fun before q => t.Fresh before q ∧ q.id = id) earlier

instance (earlier : List FlowRun) (id : String) : Decidable (t.Taken earlier id) :=
  inferInstanceAs (Decidable (t.runs.contains id = true ∨ _))

theorem fresh_nil_iff (ht : t.WellFormed) {r : FlowRun} :
    t.Fresh [] r ↔ t.runKeys.contains r.key = false := by
  rw [← Bool.not_eq_true, ht.runKey_iff, Fresh, List.append_nil]
  exact ⟨fun h ⟨q, hq, e⟩ => h q hq e, fun h q hq e => h ⟨q, hq, e⟩⟩

theorem insertRun_cases (ht : t.WellFormed) {r : FlowRun} (h : t.insertRun r = .ok u) :
    ¬ t.Fresh [] r ∧ u = t ∨
      t.Fresh [] r ∧ t.runs.get? r.id = none ∧
        u = { t with runs := t.runs.insert r.id r, runKeys := t.runKeys.insert r.key () } := by
  rw [fresh_nil_iff ht, Bool.not_eq_false]
  exact insertRun_eq_ok.1 h

theorem insertRun_eq_error (ht : t.WellFormed) {r : FlowRun} {e : Refusal} :
    t.insertRun r = .error e ↔
      t.Fresh [] r ∧ t.runs.contains r.id = true ∧ e = .runTaken r.id := by
  rw [fresh_nil_iff ht, insertRun]
  cases t.runKeys.contains r.key <;> cases t.runs.contains r.id <;> simp [eq_comm]

/-- After a run has been dealt with, it counts as one of the stored runs or has an equal there. -/
theorem fresh_insertRun (ht : t.WellFormed) {r q : FlowRun} {earlier : List FlowRun}
    (h : t.insertRun r = .ok u) : u.Fresh earlier q ↔ t.Fresh (r :: earlier) q := by
  rcases insertRun_cases ht h with ⟨hold, rfl⟩ | ⟨-, hid, rfl⟩
  · -- the run is ignored, since a stored one has its key
    constructor
    · intro hq p hp
      rcases List.mem_append.1 hp with hp | hp
      · exact hq p (List.mem_append_left _ hp)
      · rcases List.mem_cons.1 hp with rfl | hp
        · intro e
          refine hold fun p' hp' => ?_
          rw [List.append_nil] at hp'
          rw [e]
          exact hq p' (List.mem_append_left _ hp')
        · exact hq p (List.mem_append_right _ hp)
    · intro hq p hp
      apply hq
      simp only [List.mem_append, List.mem_cons] at hp ⊢
      tauto
  · simp only [Fresh, List.mem_append, mem_values_insert hid, List.mem_cons, or_assoc]

theorem get?_runs_insertRun (ht : t.WellFormed) {r q : FlowRun} {id : String}
    (h : t.insertRun r = .ok u) :
    u.runs.get? id = some q ↔ t.runs.get? id = some q ∨ t.Fresh [] r ∧ r = q ∧ r.id = id := by
  rcases insertRun_cases ht h with ⟨hold, rfl⟩ | ⟨hnew, hid, rfl⟩
  · simp [hold]
  · rw [get?_insert]
    by_cases hk : id = r.id
    · subst hk
      simp [hid, hnew]
    · simp [hk, Ne.symm hk]

theorem contains_runs_insertRun (ht : t.WellFormed) {r : FlowRun} {id : String}
    (h : t.insertRun r = .ok u) :
    u.runs.contains id = true ↔ t.runs.contains id = true ∨ t.Fresh [] r ∧ r.id = id := by
  simp only [contains_iff, get?_runs_insertRun ht h]
  constructor
  · rintro ⟨q, hq | ⟨hr, -, hid⟩⟩
    · exact .inl ⟨q, hq⟩
    · exact .inr ⟨hr, hid⟩
  · rintro (⟨q, hq⟩ | ⟨hr, hid⟩)
    · exact ⟨q, .inl hq⟩
    · exact ⟨r, .inr ⟨hr, rfl, hid⟩⟩

theorem taken_insertRun (ht : t.WellFormed) {r : FlowRun} {earlier : List FlowRun} {id : String}
    (h : t.insertRun r = .ok u) : u.Taken earlier id ↔ t.Taken (r :: earlier) id := by
  rw [Taken, Taken, Somewhere.cons_iff, contains_runs_insertRun ht h, or_assoc]
  simp only [fresh_insertRun ht h]

/-- What every accepted run keeps, a batch keeps, be it refused halfway or not. -/
theorem insertRuns_keeps {P : Tables → Prop} {rs : List FlowRun}
    (hstep : ∀ {t u : Tables}, ∀ r ∈ rs, P t → t.insertRun r = .ok u → P u) (ht : P t) :
    P (t.insertRuns rs).2 := by
  fun_induction insertRuns t rs with
  | case1 => exact ht
  | case2 t r rs u hu ih =>
    refine ih (fun q hq => hstep q (List.mem_cons_of_mem r hq)) ?_
    exact hstep r List.mem_cons_self ht hu
  | case3 => exact ht

theorem WellFormed.insertRuns (ht : t.WellFormed) (rs : List FlowRun) :
    (t.insertRuns rs).2.WellFormed :=
  insertRuns_keeps (fun _ _ ht h => ht.insertRun h) ht

/-- A batch of runs changes nothing but the runs and their keys. -/
theorem insertRuns_frame (t : Tables) (rs : List FlowRun) :
    ∃ runs runKeys, (t.insertRuns rs).2 = { t with runs, runKeys } := by
  refine insertRuns_keeps (P := fun u => ∃ runs runKeys, u = { t with runs, runKeys }) ?_ ⟨_, _, rfl⟩
  rintro _ v r - ⟨runs, runKeys, rfl⟩ hv
  rcases insertRun_eq_ok.1 hv with ⟨-, rfl⟩ | ⟨-, -, rfl⟩ <;> exact ⟨_, _, rfl⟩

theorem contains_runKeys_insertRun {r : FlowRun} {k : RunKey} (h : t.insertRun r = .ok u) :
    u.runKeys.contains k = true ↔ t.runKeys.contains k = true ∨ k = r.key := by
  rcases insertRun_eq_ok.1 h with ⟨hold, rfl⟩ | ⟨-, -, rfl⟩
  · rw [iff_self_or]
    rintro rfl
    exact hold
  · rw [contains_insert, or_comm]

/-- After a batch of runs, the stored keys are those from before and those of the batch. -/
theorem contains_runKeys_insertRuns {rs : List FlowRun} {k : RunKey}
    (h : (t.insertRuns rs).1 = .ok ()) :
    (t.insertRuns rs).2.runKeys.contains k = true ↔
      t.runKeys.contains k = true ∨ ∃ r ∈ rs, k = r.key := by
  induction rs generalizing t with
  | nil => simp [insertRuns]
  | cons r rs ih =>
    rw [insertRuns] at h ⊢
    cases hr : t.insertRun r with
    | error e =>
      rw [hr] at h
      cases h
    | ok u =>
      rw [hr] at h
      simp only [ih h, contains_runKeys_insertRun hr, or_assoc, List.exists_mem_cons_iff]

/-- A batch of runs is refused exactly if the id of one that is fresh is taken. -/
theorem insertRuns_refused_iff (ht : t.WellFormed) (rs : List FlowRun) :
    (∃ e, (t.insertRuns rs).1 = .error e) ↔
      Somewhere (fun before r => t.Fresh before r ∧ t.Taken before r.id) rs := by
  induction rs generalizing t with
  | nil => simp [Tables.insertRuns, Somewhere.nil]
  | cons r rs ih =>
    have hhead : t.Taken [] r.id ↔ t.runs.contains r.id = true := by simp [Taken, Somewhere.nil]
    rw [Somewhere.cons_iff, Tables.insertRuns, hhead]
    cases hr : t.insertRun r with
    | error e =>
      obtain ⟨hfresh, htaken, -⟩ := (insertRun_eq_error ht).1 hr
      simp [hfresh, htaken]
    | ok u =>
      have hno : ¬ (t.Fresh [] r ∧ t.runs.contains r.id = true) := by
        rintro ⟨hfresh, htaken⟩
        rw [(insertRun_eq_error ht).2 ⟨hfresh, htaken, rfl⟩] at hr
        cases hr
      -- for the runs behind it, a run that is accepted is one of those that are stored
      simp only [ih (ht.insertRun hr), hno, false_or, fresh_insertRun ht hr, taken_insertRun ht hr]

/-- Whatever refuses a batch of runs, it is an id that is taken. -/
theorem eq_runTaken_of_insertRuns (ht : t.WellFormed) {rs : List FlowRun} {e : Refusal}
    (h : (t.insertRuns rs).1 = .error e) : ∃ id, e = .runTaken id := by
  fun_induction insertRuns t rs with
  | case1 => cases h
  | case2 t r rs u hu ih => exact ih (ht.insertRun hu) h
  | case3 t r rs e' he =>
    cases h
    exact ⟨_, ((insertRun_eq_error ht).1 he).2.2⟩

/-- After a batch, the stored runs are those from before and those that were fresh. -/
theorem get?_runs_insertRuns (ht : t.WellFormed) {rs : List FlowRun} {id : String} {q : FlowRun}
    (h : (t.insertRuns rs).1 = .ok ()) :
    (t.insertRuns rs).2.runs.get? id = some q ↔
      t.runs.get? id = some q ∨
        Somewhere (fun before r => t.Fresh before r ∧ r = q ∧ r.id = id) rs := by
  induction rs generalizing t with
  | nil => simp [Tables.insertRuns, Somewhere.nil]
  | cons r rs ih =>
    rw [Tables.insertRuns] at h ⊢
    cases hr : t.insertRun r with
    | error e =>
      rw [hr] at h
      cases h
    | ok u =>
      rw [hr] at h
      rw [Somewhere.cons_iff]
      simp only [ih (ht.insertRun hr) h, get?_runs_insertRun ht hr, or_assoc,
        fresh_insertRun ht hr]

theorem contains_runs_insertRuns (ht : t.WellFormed) {rs : List FlowRun} {id : String}
    (h : (t.insertRuns rs).1 = .ok ()) :
    (t.insertRuns rs).2.runs.contains id = true ↔ t.Taken rs id := by
  simp only [contains_iff, get?_runs_insertRuns ht h, Taken]
  constructor
  · rintro ⟨q, hq | ⟨before, r, after, hrs, hr, -, hid⟩⟩
    · exact .inl ⟨q, hq⟩
    · exact .inr ⟨before, r, after, hrs, hr, hid⟩
  · rintro (⟨q, hq⟩ | ⟨before, r, after, hrs, hr, hid⟩)
    · exact ⟨q, .inl hq⟩
    · exact ⟨r, .inr ⟨before, r, after, hrs, hr, rfl, hid⟩⟩

/-! ### States -/

/-- What every accepted state keeps, a batch keeps, be it refused halfway or not. -/
theorem insertStates_keeps {P : Tables → Prop} {ss : List RunState}
    (hstep : ∀ {t u : Tables}, ∀ s ∈ ss, P t → t.insertState s = .ok u → P u) (ht : P t) :
    P (t.insertStates ss).2 := by
  fun_induction insertStates t ss with
  | case1 => exact ht
  | case2 t s ss u hu ih =>
    refine ih (fun q hq => hstep q (List.mem_cons_of_mem s hq)) ?_
    exact hstep s List.mem_cons_self ht hu
  | case3 => exact ht

theorem WellFormed.insertStates (ht : t.WellFormed) (ss : List RunState) :
    (t.insertStates ss).2.WellFormed :=
  insertStates_keeps (fun _ _ ht h => ht.insertState h) ht

/-- A batch of states changes nothing but the states and their index. -/
theorem insertStates_frame (t : Tables) (ss : List RunState) :
    ∃ states statesByRun, (t.insertStates ss).2 = { t with states, statesByRun } := by
  refine insertStates_keeps (P := fun u => ∃ states statesByRun, u = { t with states, statesByRun })
    ?_ ⟨_, _, rfl⟩
  rintro _ v s - ⟨states, statesByRun, rfl⟩ hv
  obtain ⟨-, -, rfl⟩ := insertState_eq_ok.1 hv
  exact ⟨_, _, rfl⟩

theorem runs_insertStates (t : Tables) (ss : List RunState) :
    (t.insertStates ss).2.runs = t.runs := by
  obtain ⟨states, statesByRun, h⟩ := insertStates_frame t ss
  rw [h]

/-- An id belongs to a stored state or to one of the `earlier` ones. -/
def StateTaken (t : Tables) (earlier : List RunState) (id : String) : Prop :=
  t.states.contains id = true ∨ ∃ s ∈ earlier, s.id = id

instance (earlier : List RunState) (id : String) : Decidable (t.StateTaken earlier id) :=
  inferInstanceAs (Decidable (_ ∨ _))

theorem stateTaken_insertState {s : RunState} {earlier : List RunState} {id : String}
    (h : t.insertState s = .ok u) : u.StateTaken earlier id ↔ t.StateTaken (s :: earlier) id := by
  obtain ⟨-, -, rfl⟩ := insertState_eq_ok.1 h
  simp only [StateTaken, contains_insert, List.exists_mem_cons_iff]
  rw [or_assoc, or_left_comm, @eq_comm _ id]

theorem insertState_eq_error {s : RunState} {e : Refusal}
    (hrun : t.runs.contains s.runId = true) :
    t.insertState s = .error e ↔ t.states.contains s.id = true ∧ e = .stateTaken s.id := by
  rw [insertState, hrun]
  cases t.states.contains s.id <;> simp [eq_comm]

/-- A batch of states of stored runs is refused exactly if the id of one of them is taken. -/
theorem insertStates_refused_iff {ss : List RunState}
    (hruns : ∀ s ∈ ss, t.runs.contains s.runId = true) :
    (∃ e, (t.insertStates ss).1 = .error e) ↔
      Somewhere (fun before s => t.StateTaken before s.id) ss := by
  induction ss generalizing t with
  | nil => simp [Tables.insertStates, Somewhere.nil]
  | cons s ss ih =>
    have hrun : t.runs.contains s.runId = true := hruns s (by simp)
    have hhead : t.StateTaken [] s.id ↔ t.states.contains s.id = true := by simp [StateTaken]
    rw [Somewhere.cons_iff, Tables.insertStates, hhead]
    cases hs : t.insertState s with
    | error e =>
      simp [((insertState_eq_error hrun).1 hs).1]
    | ok u =>
      obtain ⟨-, hid, hu⟩ := insertState_eq_ok.1 hs
      have hruns' : ∀ q ∈ ss, u.runs.contains q.runId = true := by
        intro q hq
        rw [hu]
        exact hruns q (by simp [hq])
      simp only [ih hruns', contains_eq_false_iff.2 hid, Bool.false_eq_true, false_or,
        stateTaken_insertState hs]

/-- What refuses a batch of states of stored runs is an id that is taken. -/
theorem eq_stateTaken_of_insertStates {ss : List RunState} {e : Refusal}
    (hruns : ∀ s ∈ ss, t.runs.contains s.runId = true) (h : (t.insertStates ss).1 = .error e) :
    ∃ id, e = .stateTaken id := by
  fun_induction insertStates t ss with
  | case1 => cases h
  | case2 t s ss u hu ih =>
    refine ih (fun q hq => ?_) h
    obtain ⟨-, -, rfl⟩ := insertState_eq_ok.1 hu
    exact hruns q (by simp [hq])
  | case3 t s ss e' he =>
    cases h
    exact ⟨_, ((insertState_eq_error (hruns s (by simp))).1 he).2⟩

/-- After a batch, the stored states are those from before and those of the batch. -/
theorem get?_states_insertStates {ss : List RunState} {id : String} {q : RunState}
    (h : (t.insertStates ss).1 = .ok ()) :
    (t.insertStates ss).2.states.get? id = some q ↔
      t.states.get? id = some q ∨ q ∈ ss ∧ q.id = id := by
  induction ss generalizing t with
  | nil => simp [Tables.insertStates]
  | cons s ss ih =>
    rw [Tables.insertStates] at h ⊢
    cases hs : t.insertState s with
    | error e =>
      rw [hs] at h
      cases h
    | ok u =>
      rw [hs] at h
      obtain ⟨-, hid, hu⟩ := insertState_eq_ok.1 hs
      rw [ih h, hu]
      simp only [get?_insert, List.mem_cons]
      by_cases hk : id = s.id
      · subst hk
        simp only [hid, ↓reduceIte, Option.some.injEq, reduceCtorEq, false_or]
        constructor
        · rintro (rfl | ⟨hq, e⟩)
          · exact ⟨.inl rfl, rfl⟩
          · exact ⟨.inr hq, e⟩
        · rintro ⟨rfl | hq, e⟩
          · exact .inl rfl
          · exact .inr ⟨hq, e⟩
      · simp only [hk, ↓reduceIte]
        constructor
        · rintro (hq | ⟨hq, e⟩)
          · exact .inl hq
          · exact .inr ⟨.inr hq, e⟩
        · rintro (hq | ⟨rfl | hq, e⟩)
          · exact .inl hq
          · exact absurd e.symm hk
          · exact .inr ⟨hq, e⟩

/-- After a batch, each run owns the states that it owned and, behind them, those of the batch. -/
theorem stateIds_insertStates {ss : List RunState} (h : (t.insertStates ss).1 = .ok ())
    (runId : String) :
    (t.insertStates ss).2.stateIds runId =
      t.stateIds runId ++ (ss.filter (·.runId == runId)).map RunState.id := by
  induction ss generalizing t with
  | nil => simp [Tables.insertStates]
  | cons s ss ih =>
    rw [Tables.insertStates] at h ⊢
    cases hs : t.insertState s with
    | error e =>
      rw [hs] at h
      cases h
    | ok u =>
      rw [hs] at h
      obtain ⟨-, -, hu⟩ := insertState_eq_ok.1 hs
      rw [ih h, hu, stateIds, get?_insert]
      by_cases hk : runId = s.runId
      · simp [hk]
      · simp [hk, Ne.symm hk, stateIds]

end Keyed.Tables

end Timetable
