import Timetable.Proofs.Rollback

/-!
# What a body has pending when it succeeds

`Leads P x Q` says of an action in an open transaction that it goes from pending tables of which `P`
is true to ones of which `Q` is, if it succeeds. It follows the structure of the action
(`Leads.bind`, `Leads.demand`, `Leads.changeEach`) down to its statements (`Leads.execute`), and
nothing is assumed of the rows. What such a body has pending in the end, a transaction commits
(`exists_of_transact`), and one that fails leaves the file alone (`file_of_transact_error`).
-/

namespace Timetable.Relational

open Text (NulFree)

/-- A statement of a client that has tables pending is carried out on them, or fails. -/
theorem Client.execute_pending (s : Statement α) (blocked : Bool) (file : File) {c : Client}
    {u : Tables} (hc : c.pending = some u) :
    (∃ a u', s.run u = .ok (a, u') ∧ (c.execute s blocked file).1 = .ok a ∧
        (c.execute s blocked file).2.2.pending = some u') ∨
      ∃ e, (c.execute s blocked file).1 = .error e ∧
        (c.execute s blocked file).2.2.pending = some u := by
  simp only [Client.execute, hc, Option.isSome_some, if_true, Option.getD_some]
  split
  · exact .inr ⟨_, rfl, hc⟩
  split
  · exact .inr ⟨_, rfl, rfl⟩
  split
  · exact .inr ⟨_, rfl, rfl⟩
  split
  · exact .inr ⟨_, rfl, rfl⟩
  split
  · exact .inr ⟨_, rfl, rfl⟩
  next a u' hrun => exact .inl ⟨a, u', hrun, rfl, rfl⟩

theorem Statement.run_change_eq_ok {uses refers : List TableName} {f : Tables → Except Fault Tables}
    {u v : Tables} {a : Unit} (h : (change uses refers f).run u = .ok (a, v)) : f u = .ok v := by
  have h : (f u).map (fun t => ((), t)) = .ok (a, v) := h
  cases hf : f u with
  | error e =>
    rw [hf] at h
    cases h
  | ok w =>
    rw [hf] at h
    cases h
    rfl

namespace Database

variable {P : Tables → Prop}

/-- From pending tables with a property, an action that succeeds leads to ones with another. -/
def Leads (P : Tables → Prop) (x : Action (Database × Transaction) α) (Q : α → Tables → Prop) :
    Prop :=
  ∀ s u a s', s.1.own.pending = some u → P u → x.run s = (.ok a, s') →
    ∃ u', s'.1.own.pending = some u' ∧ Q a u'

namespace Leads

variable {α β : Type} {Q Q' : α → Tables → Prop} {R : β → Tables → Prop}
  {x : Action (Database × Transaction) α} {f : α → Action (Database × Transaction) β}

theorem mono (h : Leads P x Q) (hQ : ∀ a u, Q a u → Q' a u) : Leads P x Q' := by
  intro s u a s' hs hu hrun
  obtain ⟨u', hs', hu'⟩ := h s u a s' hs hu hrun
  exact ⟨u', hs', hQ a u' hu'⟩

/-- It is enough to know what becomes of each of the tables. -/
theorem of_each (h : ∀ u, P u → Leads (· = u) x Q) : Leads P x Q :=
  fun s u a s' hs hu hrun => h u hu s u a s' hs rfl hrun

theorem pre {P' : Tables → Prop} (h : Leads P' x Q) (hP : ∀ u, P u → P' u) : Leads P x Q :=
  fun s u a s' hs hu hrun => h s u a s' hs (hP u hu) hrun

theorem pure {a : α} (h : ∀ u, P u → Q a u) : Leads P (Pure.pure a) Q := by
  rintro s u _ _ hs hu ⟨⟩
  exact ⟨u, hs, h u hu⟩

theorem bind (hx : Leads P x Q) (hf : ∀ a, Leads (Q a) (f a) R) : Leads P (x >>= f) R := by
  intro s u b s' hs hu hrun
  obtain ⟨a, m, hmid, hrest⟩ := Action.run_bind_eq_ok hrun
  obtain ⟨v, hm, hv⟩ := hx s u a m hs hu hmid
  exact hf a m v b s' hm hv hrest

theorem fail (e : Failure) : Leads P (Action.fail e) Q := by
  intro s u a s' _ _ hrun
  cases hrun

theorem ofExcept {r : Except Failure α} (h : ∀ a u, r = .ok a → P u → Q a u) :
    Leads P (Action.ofExcept r) Q := by
  intro s u a s' hs hu hrun
  cases hrun
  exact ⟨u, hs, h a u rfl hu⟩

theorem execute (s : Statement α) : Leads P (Database.execute s) fun r v =>
    ∃ u, P u ∧ ((∃ a, r = .ok a ∧ s.run u = .ok (a, v)) ∨ (∃ e, r = .error e) ∧ v = u) := by
  intro x u r x' hx hu hrun
  cases hrun
  rcases Client.execute_pending s x.1.other.pending.isSome x.1.file hx with
    ⟨a, v, hsrun, hr, hv⟩ | ⟨e, hr, hv⟩
  · exact ⟨v, hv, u, hu, .inl ⟨a, hr, hsrun⟩⟩
  · exact ⟨u, hv, u, hu, .inr ⟨⟨e, hr⟩, rfl⟩⟩

/-- What is read has been found in the pending tables, which stay as they are. -/
theorem read {s : Statement α} (hs : s.ReadsOnly) :
    Leads P (Database.read s) fun a u => P u ∧ s.run u = .ok (a, u) := by
  refine (execute s).bind fun r => ?_
  rcases r with ⟨stage, fault⟩ | a
  · cases stage <;> exact fail _
  · refine pure fun v => ?_
    rintro ⟨u, hu, ⟨_, ⟨⟩, hrun⟩ | ⟨⟨_, ⟨⟩⟩, -⟩⟩
    obtain rfl := hs _ _ _ hrun
    exact ⟨hu, hrun⟩

theorem query {uses : List TableName} {g : Tables → α} :
    Leads P (Database.query uses g) fun a u => P u ∧ a = g u := by
  refine (read (Statement.readsOnly_query uses g)).mono fun a u => ?_
  rintro ⟨hu, hrun⟩
  cases hrun
  exact ⟨hu, rfl⟩

/-- A change that is not refused is made. -/
theorem change {uses refers : List TableName} {g : Tables → Except Fault Tables} :
    Leads P (Database.change uses refers g) fun o v => o = .ok () → ∃ u, P u ∧ g u = .ok v := by
  refine (execute _).bind fun r => ?_
  rcases r with ⟨stage, fault⟩ | ⟨⟩
  · exact pure fun v _ h => by cases h
  · refine pure fun v => ?_
    rintro ⟨u, hu, ⟨_, -, hrun⟩ | ⟨⟨_, ⟨⟩⟩, -⟩⟩ -
    exact ⟨u, hu, Statement.run_change_eq_ok hrun⟩

/-- A deletion that is not refused has deleted something. -/
theorem delete {uses refers : List TableName} {g : Tables → Nat × Tables} {absent : Refusal} :
    Leads P (Database.delete uses refers g absent) fun o v =>
      o = .ok () → ∃ u, P u ∧ (g u).1 ≠ 0 ∧ v = (g u).2 := by
  refine (execute _).bind fun r => ?_
  rcases r with ⟨stage, fault⟩ | n
  · exact pure fun v _ h => by cases h
  · cases n with
    | zero => exact pure fun v _ h => by cases h
    | succ n =>
      refine pure fun v => ?_
      rintro ⟨u, hu, ⟨_, ⟨⟩, hrun⟩ | ⟨⟨_, ⟨⟩⟩, -⟩⟩ -
      have hrun : g u = (n + 1, v) := Except.ok.inj hrun
      exact ⟨u, hu, by simp [hrun], by rw [hrun]⟩

theorem insertSchedule {q : Schedule} :
    Leads P (Database.insertSchedule q) fun o v =>
      o = .ok () → ∃ u, P u ∧ u.insertSchedule (bindSchedule q) = .ok v := by
  refine (execute _).bind fun r => ?_
  rcases r with ⟨stage, fault⟩ | ⟨⟩
  · cases fault <;> exact pure fun v _ h => by cases h
  · refine pure fun v => ?_
    rintro ⟨u, hu, ⟨_, -, hrun⟩ | ⟨⟨_, ⟨⟩⟩, -⟩⟩ -
    exact ⟨u, hu, Statement.run_change_eq_ok hrun⟩

theorem demand {x : Action (Database × Transaction) Outcome} {Q : Outcome → Tables → Prop}
    (context : String) (hx : Leads P x Q) :
    Leads P (Timetable.demand context x) fun _ u => Q (.ok ()) u := by
  refine hx.bind fun o => ofExcept fun _ u h hu => ?_
  cases o with
  | ok _ => exact hu
  | error e => cases h

/-- A batch of changes leads where each of them leads, with those that have been made before. -/
theorem changeEach {f : α → Action (Database × Transaction) Outcome}
    {J : List α → Tables → Prop} {as : List α} (before : List α)
    (hstep : ∀ before, ∀ a ∈ as,
      Leads (J before) (f a) fun o u => o = .ok () → J (before ++ [a]) u) :
    Leads (J before) (Database.changeEach f as) fun o u => o = .ok () → J (before ++ as) u := by
  induction as generalizing before with
  | nil => exact pure fun u hu _ => by rwa [List.append_nil]
  | cons a as ih =>
    refine (hstep before a List.mem_cons_self).bind fun o => ?_
    cases o with
    | error e => exact pure fun u _ h => by cases h
    | ok _ =>
      have hrest := ih (before ++ [a]) fun before b hb =>
        hstep before b (List.mem_cons_of_mem a hb)
      rw [List.append_assoc] at hrest
      exact hrest.pre fun u hu => hu rfl

/-- Links that are not refused lead where their batches lead. -/
theorem linkBatches {strategy : LinkStrategy} {ids : List String} {Q : Tables → Prop}
    (h : Leads P (Database.changeEach (linkStates strategy) (Sql.batches ids)) fun o u =>
      o = .ok () → Q u) :
    Leads P (Database.linkBatches strategy ids) fun o u => o = .ok () → Q u := by
  intro s u a s' hs hu hrun
  by_cases hknows : s.1.version.knows strategy = true
  · rw [run_linkBatches_of_knows hknows] at hrun
    exact h s u a s' hs hu hrun
  · rw [run_linkBatches_of_not_knows hknows] at hrun
    cases hrun
    exact ⟨u, hs, nofun⟩

/-! ### Requests about deployments and schedules -/

section Catalogue

variable {u : Tables}

theorem insertDeployment {d : Deployment} (hd : ∀ x ∈ d.texts, NulFree x) :
    Leads (· = u) (Repository.insertDeployment d) fun o v => o = .ok () →
      (∀ e ∈ u.deploymentRows, e.id ≠ d.id) ∧
        v = { u with deployments := some (u.deploymentRows ++ [d]) } := by
  refine change.mono fun o v h ho => ?_
  obtain ⟨_, rfl, hv⟩ := h ho
  rw [bindDeployment_of_nulFree hd] at hv
  exact ⟨id_ne_of_insertDeployment hv, eq_of_insertDeployment hv⟩

/-- A deployment that has been deleted was there; its schedules have gone with it. -/
theorem deleteDeployment (hu : u.Whole) {id : String} (hid : NulFree id) :
    Leads (· = u) (Repository.deleteDeployment id) fun o v => o = .ok () →
      (∃ d ∈ u.deploymentRows, d.id = id) ∧
        v = { u with
          deployments := some (u.deploymentRows.filter (·.id ≠ id))
          schedules := some (u.scheduleRows.filter (·.deploymentId ≠ id)) } := by
  refine delete.mono fun o v h ho => ?_
  obtain ⟨t, ht, hcount, rfl⟩ := h ho
  rw [ht, Text.untilNul_of_nulFree hid] at hcount ⊢
  have hthere : ∃ d ∈ u.deploymentRows, d.id = id := by
    by_contra hnone
    push Not at hnone
    refine hcount (length_sub_filter_eq_zero_iff.2 (List.filter_eq_self.2 fun d hd => ?_))
    exact decide_eq_true (hnone d hd)
  have hany : u.deploymentRows.any (·.id == id) = true := by
    simpa using hthere
  obtain ⟨rows, hrows⟩ := Option.isSome_iff_exists.1 hu.schedules
  refine ⟨hthere, ?_⟩
  simp only [Tables.deleteDeployment, Tables.scheduleRows, hany, hrows, if_true, Option.map_some,
    Option.getD_some]

theorem insertSchedule_of_nulFree {q : Schedule} (hq : ∀ x ∈ q.texts, NulFree x) :
    Leads (· = u) (Repository.insertSchedule q) fun o v => o = .ok () →
      (∀ e ∈ u.scheduleRows, e.id ≠ q.id) ∧
        v = { u with schedules := some (u.scheduleRows ++ [q]) } := by
  refine insertSchedule.mono fun o v h ho => ?_
  obtain ⟨_, rfl, hv⟩ := h ho
  rw [bindSchedule_of_nulFree hq] at hv
  exact ⟨id_ne_of_insertSchedule hv, eq_of_insertSchedule hv⟩

end Catalogue

end Leads

/-! ### Transactions -/

section Transact

variable {α : Type} {body : Action (Database × Transaction) α} {db : Database} {clock : Int}
  {log : List Log.Entry} {w : World Database}

/-- A transaction that fails leaves the file alone. -/
theorem file_of_transact_error (hkeeps : ∀ c, Keeps (Open c) body) (hidle : db.Idle) {e : Failure}
    (hrun : (World.transact body).run ⟨db, clock, log⟩ = (.error e, w)) :
    w.store.file = db.file :=
  congrArg Prod.fst (reversible.restored_of_transact hkeeps hidle hrun).contents_eq

/-- What a body has pending when it succeeds, its transaction commits. -/
theorem exists_of_transact {Q : α → Tables → Prop} (hkeeps : ∀ c, Keeps (Open c) body)
    (hleads : Leads (· = db.file.tables) body Q) (hidle : db.Idle) {a : α}
    (hrun : (World.transact body).run ⟨db, clock, log⟩ = (.ok a, w)) :
    Q a w.store.file.tables := by
  obtain ⟨tx, db₁, ⟨db₂, tx₂⟩, y, hbegin, hbody, hcommit, hstore⟩ :=
    World.run_transact_eq_ok hrun
  have hopen := hkeeps _ _ (reversible.begin_ok hidle hbegin)
  rw [hbody] at hopen
  obtain rfl : tx₂ = ⟨false, false, true⟩ := hopen.tx_eq
  obtain ⟨u, hu, hQ⟩ := hleads _ _ _ _ (pending_of_begin hidle hbegin).2 rfl hbody
  cases hspoiled : db₂.own.spoiled with
  | true =>
    have hrefused := run_commit_of_spoiled (⟨false, false, true⟩ : Transaction) hu hspoiled
    cases hcommit.symm.trans hrefused
  | false =>
    have hdone := run_commit_of_sound (⟨false, false, true⟩ : Transaction) hu hspoiled
    rw [run_unlock_of_holds] at hdone
    cases hcommit.symm.trans hdone
    rw [hstore]
    exact hQ

end Transact

end Database

end Timetable.Relational
