import Timetable.Proofs.Keyed.Desk

/-!
# The codes of refusals

Both stores refuse the same requests (`stores_agree`), but a request may break several constraints at
once, and a refusal names only one of them. The engine of the relational store tests the condition on
a row first, then its unique columns, then its reference to another row; the keyed tables test the
same constraints from the other end. `Write.broken` lists the codes of the broken constraints in the
order of the engine: the relational store answers with the first of them
(`Relational.Mirrors.answers_request`) and the keyed tables with the last
(`Keyed.Tables.refusedWith_write`).
-/

namespace Timetable

open Text

/-- The code with which something is refused. -/
def refusedWith : Except Refusal α → Option Code
  | .ok _ => none
  | .error e => some e.code

/-- The kind of failure that a refusal becomes for those who cannot do without the request. -/
def Outcome.kind? (context : String) (o : Outcome) : Option Failure.Kind :=
  match o.orFail context with
  | .ok () => none
  | .error f => some f.kind

theorem Outcome.kind?_eq (context : String) (o : Outcome) :
    o.kind? context = (refusedWith o).map Failure.Kind.ofCode := by
  cases o <;> rfl

/-! ### Broken constraints -/

/-- The codes of the tests that fail. -/
def failed (tests : List (Bool × Code)) : List Code :=
  (tests.filter fun test => test.1).map fun test => test.2

/-- The codes that the first row of a batch breaks which cannot be inserted. -/
def brokenInBatch (insert : κ → α → Except ε κ) (broken : κ → α → List Code) (t : κ) :
    List α → List Code
  | [] => []
  | a :: as =>
    match insert t a with
    | .ok u => brokenInBatch insert broken u as
    | .error _ => broken t a

/-- What holds of no codes at all and of those that a row breaks, holds of those of a batch. -/
theorem brokenInBatch_induction {insert : κ → α → Except ε κ} {broken : κ → α → List Code}
    {P : List Code → Prop} (hnil : P []) (hrow : ∀ t a, P (broken t a)) (t : κ) (as : List α) :
    P (brokenInBatch insert broken t as) := by
  induction as generalizing t with
  | nil => exact hnil
  | cons a as ih =>
    rw [brokenInBatch]
    cases insert t a with
    | ok u => exact ih u
    | error e => exact hrow t a

namespace Keyed.Tables

variable (t : Tables)

/-- The codes of the constraints that a new deployment breaks: its name and its id are taken. -/
def brokenByDeployment (d : Deployment) : List Code :=
  failed [(t.names.contains d.name, .alreadyExists), (t.deployments.contains d.id, .alreadyExists)]

/-- The codes of the constraints that a new schedule breaks: its interval is zero, its id is taken,
its deployment is missing. -/
def brokenBySchedule (s : Schedule) : List Code :=
  failed [(s.intervalSeconds == 0, .constraintViolation),
    (t.schedules.contains s.id, .alreadyExists),
    (!t.deployments.contains s.deploymentId, .notFound)]

/-- The codes of the constraints that a new run breaks: its id is taken, though not its key. -/
def brokenByRun (r : FlowRun) : List Code :=
  failed [(!t.runKeys.contains r.key && t.runs.contains r.id, .alreadyExists)]

/-- The codes of the constraints that a new state breaks: its id is taken, its run is missing. -/
def brokenByState (s : RunState) : List Code :=
  failed [(t.states.contains s.id, .alreadyExists),
    (!t.runs.contains s.runId, .constraintViolation)]

end Keyed.Tables

/-- The codes of the constraints that a request breaks, in the order in which the relational engine
tests them. -/
def Write.broken (t : Keyed.Tables) : Write → List Code
  | .change (.insertDeployment d) => t.brokenByDeployment d
  | .change (.deleteDeployment id) => failed [(!t.deployments.contains id, .notFound)]
  | .change (.insertSchedule s) => t.brokenBySchedule s
  | .change (.deleteSchedule id) => failed [(!t.schedules.contains id, .notFound)]
  | .insertRuns rs => brokenInBatch Keyed.Tables.insertRun Keyed.Tables.brokenByRun t rs
  | .insertStates ss => brokenInBatch Keyed.Tables.insertState Keyed.Tables.brokenByState t ss
  | .linkStates _ _ => []

/-! ### What the keyed tables answer -/

namespace Keyed.Tables

variable (t : Tables)

theorem refusedWith_insertDeployment (d : Deployment) :
    refusedWith (t.insertDeployment d) = (t.brokenByDeployment d).getLast? := by
  rw [insertDeployment, brokenByDeployment]
  cases t.deployments.contains d.id <;> cases t.names.contains d.name <;> rfl

theorem refusedWith_deleteDeployment (id : String) :
    refusedWith (t.deleteDeployment id) =
      (failed [(!t.deployments.contains id, .notFound)]).getLast? := by
  rw [deleteDeployment, OrderedMap.contains]
  cases t.deployments.get? id <;> rfl

theorem refusedWith_insertSchedule (s : Schedule) :
    refusedWith (t.insertSchedule s) = (t.brokenBySchedule s).getLast? := by
  rw [insertSchedule, brokenBySchedule]
  by_cases hinterval : s.intervalSeconds = 0 <;>
    cases t.deployments.contains s.deploymentId <;> cases t.schedules.contains s.id <;>
    simp [hinterval, failed, refusedWith, Refusal.code]

theorem refusedWith_deleteSchedule (id : String) :
    refusedWith (t.deleteSchedule id) =
      (failed [(!t.schedules.contains id, .notFound)]).getLast? := by
  rw [deleteSchedule]
  cases t.schedules.contains id <;> rfl

theorem refusedWith_insertRun (r : FlowRun) :
    refusedWith (t.insertRun r) = (t.brokenByRun r).getLast? := by
  rw [insertRun, brokenByRun]
  cases t.runKeys.contains r.key <;> cases t.runs.contains r.id <;> rfl

theorem refusedWith_insertState (s : RunState) :
    refusedWith (t.insertState s) = (t.brokenByState s).getLast? := by
  rw [insertState, brokenByState]
  cases t.runs.contains s.runId <;> cases t.states.contains s.id <;> rfl

/-- A batch of rows is refused as its first row that cannot be inserted. -/
theorem refusedWith_batch {insertAll : Tables → List α → Outcome × Tables}
    {insert : Tables → α → Except Refusal Tables} {broken : Tables → α → List Code}
    (hnil : ∀ t, insertAll t [] = (.ok (), t))
    (hcons : ∀ t a as, insertAll t (a :: as) =
      match insert t a with
      | .ok u => insertAll u as
      | .error e => (.error e, t))
    (hrow : ∀ t a, refusedWith (insert t a) = (broken t a).getLast?) (as : List α) :
    refusedWith (insertAll t as).1 = (brokenInBatch insert broken t as).getLast? := by
  induction as generalizing t with
  | nil =>
    rw [hnil]
    rfl
  | cons a as ih =>
    have ha := hrow t a
    rw [hcons, brokenInBatch]
    cases h : insert t a with
    | ok u => exact ih u
    | error e =>
      rw [h] at ha
      exact ha

theorem refusedWith_adopt (r : Except Refusal Tables) :
    refusedWith (t.adopt r).1 = refusedWith r := by
  cases r <;> rfl

/-- The keyed tables name the constraint that the engine would test last. -/
theorem refusedWith_write (write : Write) :
    refusedWith (t.write write).1 = (write.broken t).getLast? := by
  cases write with
  | change change =>
    cases change with
    | insertDeployment d => exact (t.refusedWith_adopt _).trans (t.refusedWith_insertDeployment d)
    | deleteDeployment id => exact (t.refusedWith_adopt _).trans (t.refusedWith_deleteDeployment id)
    | insertSchedule s => exact (t.refusedWith_adopt _).trans (t.refusedWith_insertSchedule s)
    | deleteSchedule id => exact (t.refusedWith_adopt _).trans (t.refusedWith_deleteSchedule id)
  | insertRuns rs =>
    exact t.refusedWith_batch (fun _ => rfl) (fun _ _ _ => rfl) refusedWith_insertRun rs
  | insertStates ss =>
    exact t.refusedWith_batch (fun _ => rfl) (fun _ _ _ => rfl) refusedWith_insertState ss
  | linkStates strategy ids => rfl

end Keyed.Tables

/-! ### What the relational store answers -/

namespace Relational

/-- The code of the fault with which a statement fails. -/
def failsWith : Except Fault α → Option Code
  | .ok _ => none
  | .error fault => some fault.code

section

variable {v : Version} {base c w : Tables} {t : Keyed.Tables} {codes : List Code}

theorem Mirrors.failsWith_insertDeployment (h : Mirrors w t) (d : Deployment) :
    failsWith (w.insertDeployment d) = (t.brokenByDeployment d).head? := by
  rw [Tables.insertDeployment, h.any_name, h.deployments.any_eq, Keyed.Tables.brokenByDeployment]
  cases t.deployments.contains d.id <;> cases t.names.contains d.name <;> rfl

theorem MirrorsRuns.failsWith_insertRun (h : MirrorsRuns base w t) (r : FlowRun) :
    failsWith (w.insertRun r) = (t.brokenByRun r).head? := by
  rw [Tables.insertRun, h.any_key, h.runs.any_eq, Keyed.Tables.brokenByRun]
  cases t.runKeys.contains r.key <;> cases t.runs.contains r.id <;> rfl

theorem MirrorsRuns.failsWith_insertState (h : MirrorsRuns base w t) (s : RunState) :
    failsWith (w.insertState s) = (t.brokenByState s).head? := by
  rw [Tables.insertState, h.states.any_eq, h.runs.any_eq, Keyed.Tables.brokenByState]
  cases t.runs.contains s.runId <;> cases t.states.contains s.id <;> rfl

/-- A request comes to an answer with the first of some codes, or is carried out if there are
none. -/
def Answers (v : Version) (c w : Tables) (x : Action (Database × Transaction) Outcome)
    (codes : List Code) : Prop :=
  ∃ o w', x.run ((Database.copying v).busy c w) = (.ok o, (Database.copying v).busy c w') ∧
    refusedWith o = codes.head?

theorem answers_change (hw : w.Whole) {uses refers : List TableName}
    {f : Tables → Except Fault Tables}
    (hs : (Statement.change uses refers f).missing Tables.empty.names = none)
    (hf : failsWith (f w) = codes.head?) : Answers v c w (Database.change uses refers f) codes := by
  have hrun := Database.run_change (v := v) (c := c) hw hs
  rcases h : f w with fault | u
  · rw [h] at hrun hf
    exact ⟨_, w, hrun, hf⟩
  · rw [h] at hrun hf
    exact ⟨_, u, hrun, hf⟩

theorem answers_delete (hw : w.Whole) {uses refers : List TableName} {f : Tables → Nat × Tables}
    (absent : Refusal) {present : Bool}
    (hs : (Statement.delete uses refers f).missing Tables.empty.names = none)
    (hf : (f w).1 = 0 ↔ present = false) :
    Answers v c w (Database.delete uses refers f absent) (failed [(!present, absent.code)]) := by
  refine ⟨_, _, Database.run_delete hw hs, ?_⟩
  cases present with
  | false =>
    rw [if_pos (hf.2 rfl)]
    rfl
  | true =>
    rw [if_neg fun hzero => Bool.noConfusion (hf.1 hzero)]
    rfl

theorem Mirrors.answers_insertSchedule (h : Mirrors w t) {s : Schedule}
    (htexts : ∀ x ∈ s.texts, NulFree x) (hinterval : SignFree s.intervalSeconds) :
    Answers v c w (Database.insertSchedule s) (t.brokenBySchedule s) := by
  have hrun := Database.run_insertSchedule (v := v) (c := c) h.whole s
  have hpositive : signed s.intervalSeconds ≤ 0 ↔ s.intervalSeconds = 0 := by
    rw [signed_eq hinterval, ← UInt64.toNat_inj]
    simp
  rw [bindSchedule_of_nulFree htexts, Tables.insertSchedule, h.schedules.any_eq,
    h.deployments.any_eq] at hrun
  rw [Keyed.Tables.brokenBySchedule]
  simp only [hpositive] at hrun
  by_cases hzero : s.intervalSeconds = 0 <;>
    cases hid : t.schedules.contains s.id <;>
    cases hdeployment : t.deployments.contains s.deploymentId <;>
    simp only [hzero, hid, hdeployment, ↓reduceIte, Bool.false_eq_true, Bool.not_false,
      Bool.not_true] at hrun <;>
    exact ⟨_, _, hrun, by simp [hzero, failed, refusedWith, Fault.toRefusal, Fault.code,
      Refusal.code]⟩

/-- A batch is answered as its first row that cannot be inserted. -/
theorem answers_changeEach {f : α → Action (Database × Transaction) Outcome}
    {insert : Keyed.Tables → α → Except Refusal Keyed.Tables}
    {broken : Keyed.Tables → α → List Code} {as : List α} (h : MirrorsRuns base w t)
    (hstep : ∀ w t, MirrorsRuns base w t → ∀ a ∈ as,
      (∃ w' u, (f a).run ((Database.copying v).busy c w) =
          (.ok (.ok ()), (Database.copying v).busy c w') ∧ insert t a = .ok u ∧
            MirrorsRuns base w' u) ∨
        ∃ e e', (f a).run ((Database.copying v).busy c w) =
          (.ok (.error e), (Database.copying v).busy c w) ∧ insert t a = .error e' ∧
            some e.code = (broken t a).head?) :
    Answers v c w (Database.changeEach f as) (brokenInBatch insert broken t as) := by
  induction as generalizing w t with
  | nil => exact ⟨.ok (), w, rfl, rfl⟩
  | cons a as ih =>
    rw [Answers, Database.changeEach, brokenInBatch]
    rcases hstep w t h a (by simp) with ⟨w', u, hrun, hinsert, h'⟩ | ⟨e, e', hrun, hinsert, hcode⟩
    · rw [Action.run_bind_of_ok hrun, hinsert]
      exact ih h' fun w t h a ha => hstep w t h a (by simp [ha])
    · rw [Action.run_bind_of_ok hrun, hinsert]
      exact ⟨.error e, w, rfl, hcode⟩

/-- A row is inserted as into the keyed tables, or refused with the code of the fault. -/
theorem MirrorsRuns.run_insert_refused {x : Action (Database × Transaction) Outcome}
    {fw : Except Fault Tables} {ft : Except Refusal Keyed.Tables}
    (hrun : x.run ((Database.copying v).busy c w) = match fw with
      | .error fault => (.ok (.error fault.toRefusal), (Database.copying v).busy c w)
      | .ok u => (.ok (.ok ()), (Database.copying v).busy c u))
    (htogether : Together (MirrorsRuns base) fw ft) (hfails : failsWith fw = codes.head?) :
    (∃ w' u,
      x.run ((Database.copying v).busy c w) = (.ok (.ok ()), (Database.copying v).busy c w') ∧
        ft = .ok u ∧ MirrorsRuns base w' u) ∨
      ∃ e e',
        x.run ((Database.copying v).busy c w) = (.ok (.error e), (Database.copying v).busy c w) ∧
        ft = .error e' ∧ some e.code = codes.head? := by
  rcases htogether.both_or_neither with ⟨w', u, rfl, rfl, h'⟩ | ⟨fault, e, rfl, rfl⟩
  · exact .inl ⟨w', u, hrun, rfl, h'⟩
  · exact .inr ⟨_, e, hrun, rfl, hfails⟩

theorem MirrorsRuns.answers_insertRuns (h : MirrorsRuns base w t) {rs : List FlowRun}
    (hrs : ∀ r ∈ rs, ∀ x ∈ r.texts, NulFree x) :
    Answers v c w (Repository.insertRuns rs)
      (brokenInBatch Keyed.Tables.insertRun Keyed.Tables.brokenByRun t rs) := by
  refine answers_changeEach h fun w t h r hr => ?_
  have hrun : (Database.insertRun r).run ((Database.copying v).busy c w) = _ :=
    Database.run_change h.whole rfl
  rw [bindRun_of_nulFree (hrs r hr)] at hrun
  exact run_insert_refused hrun (h.insertRun r) (h.failsWith_insertRun r)

theorem MirrorsRuns.answers_insertStates (h : MirrorsRuns base w t) {ss : List RunState}
    (hss : ∀ s ∈ ss, ∀ x ∈ s.texts, NulFree x) :
    Answers v c w (Repository.insertStates ss)
      (brokenInBatch Keyed.Tables.insertState Keyed.Tables.brokenByState t ss) := by
  refine answers_changeEach h fun w t h s hs => ?_
  have hrun : (Database.insertState s).run ((Database.copying v).busy c w) = _ :=
    Database.run_change h.whole rfl
  rw [bindState_of_nulFree (hss s hs)] at hrun
  exact run_insert_refused hrun (h.insertState s) (h.failsWith_insertState s)

/-- The relational store names the constraint that its engine tests first. -/
theorem Mirrors.answers_request (h : Mirrors w t) {write : Write} (hknown : write.known v = true)
    (hplain : write.Plain t) :
    Answers v c w write.request (write.broken t) := by
  cases write with
  | change change =>
    cases change with
    | insertDeployment d =>
      refine answers_change h.whole rfl ?_
      rw [bindDeployment_of_nulFree hplain]
      exact h.failsWith_insertDeployment d
    | deleteDeployment id =>
      refine answers_delete h.whole (.noDeployment id) rfl ?_
      rw [untilNul_of_nulFree hplain, OrderedMap.contains_eq_false_iff]
      exact length_sub_filter_eq_zero_iff.trans h.deployments.filter_ne_eq_self_iff
    | insertSchedule s => exact h.answers_insertSchedule hplain.1 hplain.2.1
    | deleteSchedule id =>
      refine answers_delete h.whole (.noSchedule id) rfl ?_
      rw [untilNul_of_nulFree hplain, OrderedMap.contains_eq_false_iff]
      exact length_sub_filter_eq_zero_iff.trans h.schedules.filter_ne_eq_self_iff
  | insertRuns rs => exact h.toMirrorsRuns.answers_insertRuns fun r hr => (hplain r hr).1
  | insertStates ss => exact h.toMirrorsRuns.answers_insertStates fun s hs => (hplain s hs).1
  | linkStates strategy ids =>
    obtain ⟨w', hrun, -⟩ := h.toMirrorsRuns.run_linkStates (c := c) hknown hplain.1 hplain.2
    exact ⟨_, w', hrun, rfl⟩

end

end Relational

/-! ### When both answer with the same code -/

/-- The codes that the constraints on a row have. -/
def constraintCodes : List Code := [.constraintViolation, .alreadyExists, .notFound]

/-- Codes of constraints, of which the first and the last are the same only if all are. -/
def Uniform (codes : List Code) : Prop :=
  (∀ a ∈ codes, a ∈ constraintCodes) ∧
    (codes.getLast? = codes.head? ↔ ∀ a ∈ codes, ∀ b ∈ codes, a = b)

instance (codes : List Code) : Decidable (Uniform codes) :=
  inferInstanceAs (Decidable (_ ∧ _))

theorem Write.uniform_broken (t : Keyed.Tables) (write : Write) : Uniform (write.broken t) := by
  have hone : ∀ (broken : Bool) (code : Code), code ∈ constraintCodes →
      Uniform (failed [(broken, code)]) := by decide
  cases write with
  | change change =>
    cases change with
    | insertDeployment d =>
      rw [broken, Keyed.Tables.brokenByDeployment]
      cases t.names.contains d.name <;> cases t.deployments.contains d.id <;> decide
    | deleteDeployment id => exact hone _ _ (by decide)
    | insertSchedule s =>
      rw [broken, Keyed.Tables.brokenBySchedule]
      cases s.intervalSeconds == 0 <;> cases t.schedules.contains s.id <;>
        cases t.deployments.contains s.deploymentId <;> decide
    | deleteSchedule id => exact hone _ _ (by decide)
  | insertRuns rs =>
    exact brokenInBatch_induction (by decide) (fun t r => hone _ _ (by decide)) t rs
  | insertStates ss =>
    refine brokenInBatch_induction (by decide) (fun t s => ?_) t ss
    rw [Keyed.Tables.brokenByState]
    cases t.states.contains s.id <;> cases t.runs.contains s.runId <;> decide
  | linkStates strategy ids => exact (by decide : Uniform [])

/-- Only a schedule or a state can break constraints with different codes. -/
theorem Write.broken_alike {t : Keyed.Tables} {write : Write}
    (hschedule : ∀ s, write ≠ .change (.insertSchedule s))
    (hstates : ∀ ss, write ≠ .insertStates ss) :
    ∀ a ∈ write.broken t, ∀ b ∈ write.broken t, a = b := by
  have hone : ∀ (broken : Bool) (code : Code), ∀ a ∈ failed [(broken, code)],
      ∀ b ∈ failed [(broken, code)], a = b := by
    intro broken code
    cases broken <;> simp [failed]
  cases write with
  | change change =>
    cases change with
    | insertDeployment d =>
      rw [broken, Keyed.Tables.brokenByDeployment]
      cases t.names.contains d.name <;> cases t.deployments.contains d.id <;> decide
    | deleteDeployment id => exact hone _ _
    | insertSchedule s => exact absurd rfl (hschedule s)
    | deleteSchedule id => exact hone _ _
  | insertRuns rs =>
    exact brokenInBatch_induction (P := fun codes => ∀ a ∈ codes, ∀ b ∈ codes, a = b) (by simp)
      (fun t r => hone _ _) t rs
  | insertStates ss => exact absurd rfl (hstates ss)
  | linkStates strategy ids => simp [broken]

/-- Codes of constraints are told apart by the kinds of failure that they become. -/
theorem map_ofCode_inj {a b : Option Code} (ha : ∀ x ∈ a, x ∈ constraintCodes)
    (hb : ∀ x ∈ b, x ∈ constraintCodes) :
    a.map Failure.Kind.ofCode = b.map Failure.Kind.ofCode ↔ a = b := by
  have hcodes : ∀ x ∈ constraintCodes, ∀ y ∈ constraintCodes,
      Failure.Kind.ofCode x = .ofCode y → x = y := by decide
  cases a with
  | none => cases b <;> simp
  | some x =>
    cases b with
    | none => simp
    | some y =>
      rw [Option.map_some, Option.map_some, Option.some.injEq, Option.some.injEq]
      exact ⟨hcodes x (ha x rfl) y (hb y rfl), congrArg _⟩

/-- Over rows that mirror keyed tables both stores answer a plain request: the keyed tables with the
code of the last constraint that it breaks, in the order of the engine, and the relational store with
that of the first. These codes are the same, and with them the kinds of failure that a caller sees,
exactly if all the constraints that the request breaks have one code. So it is with every request
but two: a schedule that breaks several constraints is refused with two codes, and so are states of
which the first that cannot be inserted breaks two. A link also needs an engine that has the
statements for it. -/
theorem same_code_iff {w : Relational.Tables} {u : Keyed.Tables} (h : Relational.Mirrors w u)
    (v : Relational.Version) (c : Relational.Tables) (t : Keyed.Tables) {write : Write}
    (hknown : write.known v = true) (hplain : write.Plain u) :
    ∃ o u' o' w',
      write.request.run (Keyed.Ledger.copying.busy t u) =
        (.ok o, Keyed.Ledger.copying.busy t u') ∧
      write.request.run ((Relational.Database.copying v).busy c w) =
        (.ok o', (Relational.Database.copying v).busy c w') ∧
      refusedWith o = (write.broken u).getLast? ∧ refusedWith o' = (write.broken u).head? ∧
      (refusedWith o = refusedWith o' ↔
        ∀ a ∈ write.broken u, ∀ b ∈ write.broken u, a = b) ∧
      (∀ context, o.kind? context = o'.kind? context ↔ refusedWith o = refusedWith o') ∧
      ((∀ s, write ≠ .change (.insertSchedule s)) → (∀ ss, write ≠ .insertStates ss) →
        refusedWith o = refusedWith o') := by
  obtain ⟨o', w', hrun, hcode'⟩ := h.answers_request (c := c) hknown hplain
  have hcode := u.refusedWith_write write
  obtain ⟨hcodes, hsame⟩ := write.uniform_broken u
  refine ⟨_, _, o', w', Keyed.Ledger.run_write write, hrun, hcode, hcode', ?_, ?_, ?_⟩
  · rw [hcode, hcode']
    exact hsame
  · intro context
    rw [Outcome.kind?_eq, Outcome.kind?_eq]
    refine map_ofCode_inj (fun a ha => ?_) fun a ha => ?_
    · rw [hcode] at ha
      exact hcodes a (List.mem_of_getLast? ha)
    · rw [hcode'] at ha
      exact hcodes a (List.mem_of_head? ha)
  · intro hschedule hstates
    rw [hcode, hcode', hsame]
    exact write.broken_alike hschedule hstates

/-! ### A run in its first state -/

/-- A run that both stores hold. -/
def heldRun : FlowRun := ⟨"run", "flow", "", "{}", "key", "[]", "", true, none, 0⟩

/-- The only state of that run. -/
def heldState : RunState := ⟨"state", "run", 1, "", "{}", 0⟩

/-- The rows that hold them. -/
def heldRows : Relational.Tables := ⟨some [], some [], some [heldRun], some [heldState]⟩

/-- The keyed tables that hold them. -/
def heldTables : Keyed.Tables :=
  ((Keyed.Tables.empty.insertRuns [heldRun]).2.insertStates [heldState]).2

open Relational in
theorem mirrors_held : Mirrors heldRows heldTables := by
  have hrun : Together (MirrorsRuns Tables.empty)
      (.ok { Tables.empty with runs := some [heldRun] })
      (.ok (Keyed.Tables.empty.insertRuns [heldRun]).2) :=
    Mirrors.empty.toMirrorsRuns.insertRun heldRun
  cases hrun with
  | accepted hrun =>
    have hstate : Together (MirrorsRuns Tables.empty) (.ok heldRows) (.ok heldTables) :=
      hrun.insertState heldState
    cases hstate with
    | accepted hstate => exact Mirrors.empty.of_runs hstate rfl rfl

/-- A second state with a taken id is refused with one code, as long as its run is there. The state
before it in the batch is of no account. -/
theorem same_code_iff_taken :
    let ss : List RunState := [⟨"new", "run", 3, "", "{}", 0⟩, ⟨"state", "run", 3, "", "{}", 0⟩]
    Relational.Mirrors heldRows heldTables ∧ (Write.insertStates ss).Plain heldTables ∧
      ∃ o o',
        ((Repository.insertStates ss).run
            (Keyed.Ledger.copying.busy .empty heldTables)).1 = .ok o ∧
        ((Repository.insertStates ss).run
            ((Relational.Database.copying .current).busy .empty heldRows)).1 = .ok o' ∧
        refusedWith o = some .alreadyExists ∧ refusedWith o' = some .alreadyExists := by
  intro ss
  have hplain : (Write.insertStates ss).Plain heldTables := by
    rw [Write.Plain]
    decide
  have hbroken : (Write.insertStates ss).broken heldTables = [.alreadyExists] := by decide +kernel
  obtain ⟨o, u', o', w', hrun, hrun', hcode, hcode', -⟩ :=
    same_code_iff mirrors_held .current .empty .empty rfl hplain
  rw [hbroken] at hcode hcode'
  exact ⟨mirrors_held, hplain, o, o', congrArg Prod.fst hrun, congrArg Prod.fst hrun', hcode,
    hcode'⟩

/-- A schedule without an interval and without its deployment is refused in two ways, and so is a
state with a taken id and without its run. -/
theorem broken_together_refused_apart :
    let s : Schedule := ⟨"s", "d", 0, ⟨0⟩, "{}", 0⟩
    let q : RunState := ⟨"state", "absent", 1, "", "{}", 0⟩
    let keyed := Keyed.Ledger.copying.busy .empty heldTables
    let relational := (Relational.Database.copying .current).busy .empty heldRows
    Relational.Mirrors heldRows heldTables ∧
      (Write.change (.insertSchedule s)).Plain heldTables ∧
      (Write.insertStates [q]).Plain heldTables ∧
      ((Repository.insertSchedule s).run keyed).1 = .ok (.error (.noDeployment "d")) ∧
      ((Repository.insertSchedule s).run relational).1 =
        .ok (.error (.reported .constraintViolation
          "CHECK constraint failed: interval_seconds > 0")) ∧
      ((Repository.insertStates [q]).run keyed).1 = .ok (.error (.noRun "absent")) ∧
      ((Repository.insertStates [q]).run relational).1 =
        .ok (.error (.reported .alreadyExists
          "UNIQUE constraint failed: flow_run_state.id")) := by
  intro s q keyed relational
  refine ⟨mirrors_held, ⟨?_, ?_, ?_⟩, ?_, by decide +kernel, by decide +kernel, by decide +kernel,
    by decide +kernel⟩
  · decide
  · decide
  · decide
  · rw [Write.Plain]
    decide

end Timetable
