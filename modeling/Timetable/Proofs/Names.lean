import Timetable.Proofs.Chronological
import Timetable.Proofs.Generation
import Timetable.Proofs.Order
import Timetable.Proofs.Uuid

/-!
# What the name of a run tells

The id of a run is made of a name, in which the id of a flow, the id of a schedule and a time
follow each other behind marks. The time is told by the name (`nameBytes_eq_iff_print`), but the
mark between the ids may be in an id too. Then a name falls into ids in more than one way: at the
later mark for one, whose flow's id has the earlier one in it, and at the earlier mark for the other
(`Shifted`). This is the only way in which names do not tell occurrences apart, and runs that share
an id without sharing a key are the only reason for which a store refuses the runs of a call
(`names_confused_iff_shifted`). It does happen (`shifted_names_refuse_calls`).
-/

namespace Timetable

/-! ### Marks -/

/-- A mark splits a list in two ways, where the first split is at a later mark than the second. -/
def Shifted {α : Type} (mark x z x' z' : List α) : Prop :=
  ∃ y, x = x' ++ mark ++ y ∧ z' = y ++ mark ++ z

/-- Two splits of a list at a mark are the same, or one is at a later mark than the other. The mark
does not overlap with itself, since what it begins with occurs in it once. -/
theorem append_mark_eq_iff {α : Type} {a : α} {m x z x' z' : List α} (ha : a ∉ m) :
    x ++ a :: m ++ z = x' ++ a :: m ++ z' ↔
      x = x' ∧ z = z' ∨ Shifted (a :: m) x z x' z' ∨ Shifted (a :: m) x' z' x z := by
  -- where the second part of one split begins within the first part of the other
  have hlater : ∀ {y z z' : List α}, a :: m ++ z = y ++ (a :: m ++ z') →
      y = [] ∧ z = z' ∨ ∃ w, y = a :: m ++ w ∧ z = w ++ a :: m ++ z' := by
    intro y z z' h
    cases y with
    | nil => exact .inl ⟨rfl, List.append_cancel_left h⟩
    | cons b y =>
      obtain ⟨rfl, htail⟩ := List.cons.inj h
      rcases List.append_eq_append_iff.1 htail with ⟨w, rfl, hz⟩ | ⟨w, rfl, hz⟩
      · exact .inr ⟨w, rfl, by rw [hz, List.append_assoc]⟩
      · cases w with
        | nil => exact .inr ⟨[], by simp, by simpa using hz.symm⟩
        | cons c w =>
          obtain ⟨rfl, -⟩ := List.cons.inj hz
          exact absurd (by simp) ha
  constructor
  · intro h
    rw [List.append_assoc, List.append_assoc] at h
    rcases List.append_eq_append_iff.1 h with ⟨y, rfl, hz⟩ | ⟨y, rfl, hz⟩
    · rcases hlater hz with ⟨rfl, rfl⟩ | ⟨w, rfl, rfl⟩
      · exact .inl ⟨by simp, rfl⟩
      · exact .inr (.inr ⟨w, by simp, rfl⟩)
    · rcases hlater hz with ⟨rfl, rfl⟩ | ⟨w, rfl, rfl⟩
      · exact .inl ⟨by simp, rfl⟩
      · exact .inr (.inl ⟨w, by simp, rfl⟩)
  · rintro (⟨rfl, rfl⟩ | ⟨y, rfl, rfl⟩ | ⟨y, rfl, rfl⟩) <;> simp

namespace Occurrence

open Text

/-! ### Names -/

/-- The bytes of a name, where the ids of the flow and the schedule may be any bytes. -/
def nameBytes (flowId scheduleId : List UInt8) (t : Instant) : List UInt8 :=
  bytes "flow_run\n" ++ flowId ++ bytes "\n" ++ keyBytes scheduleId t

/-- What stands between the ids of the flow and the schedule in a name. -/
def nameMark : List UInt8 := bytes "\nscheduled "

theorem bytes_runName (flowId scheduleId : String) (t : Instant) :
    bytes (runName flowId (idempotencyKey scheduleId t)) =
      nameBytes (bytes flowId) (bytes scheduleId) t := by
  rw [runName, bytes_append, bytes_append, bytes_append, bytes_idempotencyKey, nameBytes]

theorem nameMark_eq : nameMark = 10 :: bytes "scheduled " := by decide

theorem nameBytes_eq (flowId scheduleId : List UInt8) (t : Instant) :
    nameBytes flowId scheduleId t = bytes "flow_run\n" ++
      (flowId ++ nameMark ++ scheduleId) ++ 32 :: bytes (Rfc3339.print t) := by
  have hmark : nameMark = bytes "\n" ++ bytes "scheduled " := by decide
  have hblank : bytes " " = [32] := by decide
  simp only [nameBytes, keyBytes, hmark, hblank, List.append_assoc, List.singleton_append]

/-- Names are the same if the texts of the times are, and the rest is the same or shifted. -/
theorem nameBytes_eq_iff_print {f f' s s' : List UInt8} {t t' : Instant} :
    nameBytes f s t = nameBytes f' s' t' ↔ Rfc3339.print t = Rfc3339.print t' ∧
      (f = f' ∧ s = s' ∨ Shifted nameMark f s f' s' ∨ Shifted nameMark f' s' f s) := by
  have hmark : (10 : UInt8) ∉ bytes "scheduled " := by decide
  rw [nameBytes_eq, nameBytes_eq, nameMark_eq, ← append_mark_eq_iff hmark]
  constructor
  · intro h
    obtain ⟨hids, hprint⟩ := eq_and_eq_of_append_cons (blank_notMem_bytes_print t)
      (blank_notMem_bytes_print t') h
    exact ⟨bytes_inj.1 hprint, List.append_cancel_left hids⟩
  · rintro ⟨hprint, hids⟩
    rw [hprint, hids]

/-- Two names are those of one instant and fall into the ids of a flow and a schedule at marks. -/
def NamedAlike (f s : List UInt8) (t : Instant) (f' s' : List UInt8) (t' : Instant) : Prop :=
  t = t' ∧ (f = f' ∧ s = s' ∨ Shifted nameMark f s f' s' ∨ Shifted nameMark f' s' f s)

theorem nameBytes_eq_iff_namedAlike {f f' s s' : List UInt8} {t t' : Instant} (ht : t.InYears)
    (ht' : t'.InYears) : nameBytes f s t = nameBytes f' s' t' ↔ NamedAlike f s t f' s' t' := by
  have hdated : ∀ {u : Instant}, u.InYears → Calendar.Dated u.day := by
    rintro u ⟨hfirst, hlast⟩
    unfold Instant.year at hfirst hlast
    exact ⟨by omega, by omega⟩
  rw [nameBytes_eq_iff_print, Rfc3339.print_inj_of_dated (hdated ht) (hdated ht'), NamedAlike]

end Occurrence

/-! ### Runs that are confused -/

/-- The text that the id of a run is made of. -/
def FlowRun.name (r : FlowRun) : String := Occurrence.runName r.flowId r.idempotencyKey

/-- Two different names have the same identifier. -/
def Uuid.Collision (name name' : String) : Prop := name ≠ name' ∧ ofText name = ofText name'

/-- The name of a run falls into the flow and the schedule of another one at an earlier mark. -/
def FlowRun.Shifted (q r : FlowRun) : Prop :=
  Timetable.Shifted Occurrence.nameMark (Text.bytes q.flowId) (Text.bytes q.scheduleId)
    (Text.bytes r.flowId) (Text.bytes r.scheduleId)

/-- Two runs have the same id, but not the same key. -/
def FlowRun.Confused (q r : FlowRun) : Prop := q.id = r.id ∧ q.key ≠ r.key

/-- Runs of occurrences are confused because identifiers collide or names are shifted. -/
theorem FlowRun.Confused.cases {q r : FlowRun} (h : q.Confused r) (hq : q.Named) (hr : r.Named)
    (hq' : q.Timed) (hr' : r.Timed) :
    Uuid.Collision q.name r.name ∨ q.Shifted r ∨ r.Shifted q := by
  obtain ⟨hid, hkey⟩ := h
  obtain ⟨t, ht⟩ := hq'
  obtain ⟨u, hu⟩ := hr'
  have hsame : Uuid.ofText q.name = Uuid.ofText r.name := by
    rw [← Uuid.toString_inj]
    exact hq.symm.trans (hid.trans hr)
  by_cases hname : q.name = r.name
  · have hbytes := congrArg Text.bytes hname
    rw [name, name, ht, hu, Occurrence.bytes_runName, Occurrence.bytes_runName,
      Occurrence.nameBytes_eq_iff_print] at hbytes
    obtain ⟨hprint, ⟨hflow, hschedule⟩ | hshifted⟩ := hbytes
    · -- names that fall apart in the same way belong to one key
      refine absurd ?_ hkey
      rw [key, key, ht, hu, Text.bytes_inj.1 hflow, RunKey.mk.injEq,
        Occurrence.idempotencyKey_eq_iff]
      exact ⟨rfl, Text.bytes_inj.1 hschedule, hprint⟩
    · exact .inr hshifted
  · exact .inl ⟨hname, hsame⟩

/-- The run of a candidate is confused with a stored one, or with that of another candidate. -/
def Confuses (runs : List FlowRun) (cs : List Candidate) : Prop :=
  ∃ c ∈ cs, ∃ q ∈ runs ++ cs.map Candidate.unlinkedRun, q.Confused c.unlinkedRun

theorem Confuses.perm {runs runs' : List FlowRun} {cs : List Candidate} (h : runs.Perm runs') :
    Confuses runs cs ↔ Confuses runs' cs := by
  simp only [Confuses, List.mem_append, h.mem_iff]

namespace Keyed.Tables

variable {t : Tables} {cs : List Candidate}

/-- Storing candidates stops at their runs if these cannot be inserted. -/
theorem materialize_refused_at_runs_iff (ht : t.WellFormed) (strategy : LinkStrategy) :
    (∃ e, (t.materialize strategy cs).1 = .error (.refused "insert flow runs" e)) ↔
      ∃ e, (t.insertRuns (submitted cs)).1 = .error e := by
  rw [materialize_eq ht]
  rcases t.insertRuns (submitted cs) with ⟨e | ⟨⟩, u⟩
  · simp
  · rcases hv : u.insertStates (t.newStates cs) with ⟨e | ⟨⟩, v⟩ <;> simp [hv]

/-- Runs that have been inserted have the ids that their keys determine, if all of them had. -/
theorem named_insertRuns (h : t.Healthy) (hcs : ∀ c ∈ cs, c.Genuine) :
    ∀ r ∈ (t.insertRuns (submitted cs)).2.runs.values, r.Named := by
  refine insertRuns_keeps (P := fun u => ∀ r ∈ u.runs.values, r.Named) ?_ h.named
  intro u v r hr hu hv
  rcases insertRun_eq_ok.1 hv with ⟨-, rfl⟩ | ⟨-, hid, rfl⟩
  · exact hu
  · intro q hq
    rcases (OrderedMap.mem_values_insert hid).1 hq with hq | rfl
    · exact hu q hq
    · obtain ⟨c, hc, rfl⟩ := List.mem_map.1 hr
      exact (hcs c hc).id_eq

/-- Where runs cannot be inserted, one of them is confused. -/
theorem confuses_of_refused (h : t.Healthy) {e : Refusal}
    (he : (t.insertRuns (submitted cs)).1 = .error e) : Confuses t.runs.values cs := by
  obtain ⟨before, r, after, hsplit, hfresh, htaken⟩ :=
    (insertRuns_refused_iff h.wellFormed (submitted cs)).1 ⟨e, he⟩
  have hmem : ∀ q ∈ before ++ [r], q ∈ submitted cs := by
    intro q hq
    rw [hsplit]
    simp only [List.mem_append, List.mem_cons] at hq ⊢
    tauto
  obtain ⟨c, hc, rfl⟩ := List.mem_map.1 (hmem r (by simp))
  refine ⟨c, hc, ?_⟩
  rcases htaken with hstored | ⟨_, q, _, hbefore, -, hid⟩
  · obtain ⟨q, hq⟩ := OrderedMap.contains_iff.1 hstored
    have hqt : q ∈ t.runs.values := OrderedMap.mem_values.2 ⟨_, hq⟩
    exact ⟨q, List.mem_append_left _ hqt, h.wellFormed.run_id hq,
      hfresh q (List.mem_append_left _ hqt)⟩
  · have hqb : q ∈ before := by simp [hbefore]
    exact ⟨q, List.mem_append_right _ (hmem q (by simp [hqb])), hid,
      hfresh q (List.mem_append_right _ hqb)⟩

/-- Where runs can be inserted, there is a run in the end for each that was there before or has been
submitted, with its key and its id. -/
theorem exists_run_of_inserted (h : t.Healthy) (hcs : ∀ c ∈ cs, c.Genuine)
    (hok : (t.insertRuns (submitted cs)).1 = .ok ()) :
    ∀ p ∈ t.runs.values ++ submitted cs,
      ∃ r ∈ (t.insertRuns (submitted cs)).2.runs.values, r.key = p.key ∧ r.id = p.id := by
  intro p hp
  have hwf : (t.insertRuns (submitted cs)).2.WellFormed := h.wellFormed.insertRuns _
  have hkeys : t.runKeys.contains p.key = true ∨ ∃ r ∈ submitted cs, p.key = r.key :=
    (List.mem_append.1 hp).imp (fun hp => (h.wellFormed.runKey_iff _).2 ⟨p, hp, rfl⟩)
      fun hp => ⟨p, hp, rfl⟩
  have hnamed : p.Named := by
    rcases List.mem_append.1 hp with hp | hp
    · exact h.named p hp
    · obtain ⟨a, ha, rfl⟩ := List.mem_map.1 hp
      exact (hcs a ha).id_eq
  obtain ⟨r, hr, hkey⟩ := (hwf.runKey_iff _).1 ((contains_runKeys_insertRuns hok).2 hkeys)
  exact ⟨r, hr, hkey, (named_insertRuns h hcs r hr).id_eq hnamed hkey⟩

/-- The runs of candidates cannot be inserted exactly if one of them is confused. -/
theorem insertRuns_refused_iff_confuses (h : t.Healthy) (hcs : ∀ c ∈ cs, c.Genuine) :
    (∃ e, (t.insertRuns (submitted cs)).1 = .error e) ↔ Confuses t.runs.values cs := by
  refine ⟨fun ⟨_, he⟩ => confuses_of_refused h he, ?_⟩
  rintro ⟨c, hc, q, hq, hid, hkey⟩
  cases hresult : (t.insertRuns (submitted cs)).1 with
  | error e => exact ⟨e, rfl⟩
  | ok done =>
    -- both keys would be stored, and stored runs with one id are the same
    have hstored := exists_run_of_inserted h hcs hresult
    obtain ⟨r, hr, hrq, hrid⟩ := hstored q hq
    obtain ⟨r', hr', hrc, hrid'⟩ :=
      hstored c.unlinkedRun (List.mem_append_right _ (List.mem_map_of_mem hc))
    have hwf : (t.insertRuns (submitted cs)).2.WellFormed := h.wellFormed.insertRuns _
    have hget := hwf.holds_runs.get?_of_mem hr
    rw [hrid, hid, ← hrid', hwf.holds_runs.get?_of_mem hr'] at hget
    obtain rfl : r' = r := Option.some.inj hget
    exact absurd (hrq.symm.trans hrc) hkey

/-- Where candidates have been stored, others are refused of which one has the id of a stored one
without having its key. -/
theorem refused_after_materialize (h : t.Healthy) {strategy : LinkStrategy}
    {created : List FlowRun} (hcs : ∀ c ∈ cs, c.Genuine)
    (hok : (t.materialize strategy cs).1 = .ok created) {others : List Candidate}
    (hothers : ∀ a ∈ others, a.Genuine) {c a : Candidate} (hc : c ∈ cs) (ha : a ∈ others)
    (hid : c.run.id = a.run.id) (hkey : c.run.key ≠ a.run.key) (again : LinkStrategy) :
    ∃ e, ((t.materialize strategy cs).2.materialize again others).1 =
      .error (.refused "insert flow runs" e) := by
  have hu := h.of_materialized hcs (materialized_of_ok h.wellFormed hok)
  obtain ⟨q, hq, hqkey⟩ := exists_run_of_ok h.wellFormed hok hc
  have hqid : q.id = c.run.id := (hu.named q hq).id_eq (hcs c hc).id_eq hqkey
  rw [materialize_refused_at_runs_iff hu.wellFormed, insertRuns_refused_iff_confuses hu hothers]
  exact ⟨a, ha, q, List.mem_append_left _ hq, hqid.trans hid, hqkey ▸ hkey⟩

end Keyed.Tables

/-! ### Calls that are refused -/

/-- A store that cannot link is not held up before that. -/
theorem Ending.refused_iff {R : β → Keyed.Tables → Prop} {E : Refusal → Refusal → Prop}
    {knows : Prop} {told : Except Failure (List FlowRun) × Keyed.Tables}
    {r : Except Failure (List FlowRun)} {s : β} (h : Ending R E knows told r s) {context : String}
    (hcontext : context ≠ "link initial states") :
    (∃ e, r = .error (.refused context e)) ↔ ∃ e, told.1 = .error (.refused context e) := by
  cases h with
  | alike h =>
    generalize told.1 = result at h
    cases h with
    | done => simp
    | refused => simp
  | unlinked hknows htold hsome e => simp [htold, hcontext.symm]

/-- A store refuses the runs of a call exactly if they are confused with others, and they are so
because identifiers collide or because the names of runs are shifted. -/
def RefusesConfused {σ τ : Type} [Repository σ τ] (start : σ) (runs : σ → List FlowRun)
    (earlier : List Visit) (job : Job) : Prop :=
  ((∃ e, (job.perform (storeAfter start earlier)).1 = .error (.refused "insert flow runs" e)) ↔
    ∃ cs, generated (storeAfter start earlier) job.request job.clock = .ok cs ∧
      Confuses (runs (storeAfter start earlier)) cs) ∧
  ∀ cs, generated (storeAfter start earlier) job.request job.clock = .ok cs →
    ∀ c ∈ cs, ∀ q ∈ runs (storeAfter start earlier) ++ cs.map Candidate.unlinkedRun,
      q.Confused c.unlinkedRun →
        Uuid.Collision q.name c.run.name ∨ q.Shifted c.run ∨ c.run.Shifted q

namespace Backend

variable {σ τ κ : Type} [Repository σ τ] {B : Backend σ κ} {c : κ}

/-- What cannot be generated has not been refused by the store. -/
theorem Catalogue.run_generate (C : B.Catalogue) (h : B.Healthy c) (r : Request) (now : Instant) :
    ∃ x, (r.generate now).run (B.busy c c) = (x, B.busy c c) ∧
      ∀ e context refusal, x = .error e → e ≠ .refused context refusal := by
  obtain ⟨t, ht⟩ := h.shows
  have hfind := C.run_findDeployment c r.deploymentId ht
  cases hd : C.deployment c r.deploymentId with
  | none =>
    rw [hd] at hfind
    rw [Request.generate, Action.run_bind_of_ok hfind]
    refine ⟨_, rfl, fun e context refusal he => ?_⟩
    rw [← Except.error.inj he]
    simp
  | some d =>
    rw [hd] at hfind
    refine ⟨_, run_generate_of_some hfind (C.run_listSchedules c r.deploymentId ht) now, ?_⟩
    intro e context refusal he
    rcases (expands_ofSchedules r now d _).error_cases e he with ⟨s, -, rfl⟩ | rfl <;> simp

/-- Where candidates have been generated, a call answers what storing them does. -/
theorem perform_of_generate {w : κ} {job : Job} {cs : List Candidate}
    {x : Except Failure (List FlowRun)}
    (hgenerate : (job.request.generate (.ofNanos job.clock)).run (B.busy c c) =
      (.ok cs, B.busy c c))
    (hmaterialize : (materialize job.strategy cs).run (B.busy c c) = (x, B.busy c w)) :
    (job.perform (B.resting c)).1 = x := by
  cases x with
  | error e =>
    have hwork : (schedulingWork job.strategy job.request (.ofNanos job.clock)).run (B.busy c c) =
        (.error e, B.busy c w) := by
      rw [schedulingWork, Action.run_bind_of_ok hgenerate]
      exact Action.run_bind_of_error hmaterialize
    rw [Job.perform, B.run_scheduleRuns_of_error hwork]
  | ok created =>
    have hwork : (schedulingWork job.strategy job.request (.ofNanos job.clock)).run (B.busy c c) =
        (.ok (cs.length, created), B.busy c w) := by
      rw [schedulingWork, Action.run_bind_of_ok hgenerate, Action.run_bind_of_ok hmaterialize]
      rfl
    obtain ⟨log, hrun⟩ : ∃ log, (scheduleRuns job.strategy job.request).run
        ⟨B.resting c, job.clock, []⟩ = (.ok created, ⟨B.resting w, job.clock, log⟩) :=
      B.run_scheduleRuns_of_ok hwork
    rw [Job.perform, hrun]

/-- A call is refused at its runs exactly if they are confused with others. -/
theorem Catalogue.refused_at_runs_iff (C : B.Catalogue) (h : B.Healthy c) (job : Job) :
    (∃ e, (job.perform (B.resting c)).1 = .error (.refused "insert flow runs" e)) ↔
      ∃ cs, generated (B.resting c) job.request job.clock = .ok cs ∧ Confuses (B.runs c) cs := by
  obtain ⟨x, hgenerate, hother⟩ := C.run_generate h job.request (.ofNanos job.clock)
  have hgenerated : generated (B.resting c) job.request job.clock = x := by
    rw [generated, B.run_transact hgenerate]
  rw [hgenerated]
  cases x with
  | error e =>
    have hwork : (schedulingWork job.strategy job.request (.ofNanos job.clock)).run (B.busy c c) =
        (.error e, B.busy c c) := Action.run_bind_of_error hgenerate
    rw [Job.perform, B.run_scheduleRuns_of_error hwork]
    refine iff_of_false ?_ (by simp)
    rintro ⟨refusal, hrefused⟩
    exact hother e _ refusal rfl (Except.error.inj hrefused)
  | ok cs =>
    obtain ⟨t, ht⟩ := h.shows
    obtain ⟨x, hgenerate', hgenuine⟩ := B.run_generate c job.request (.ofNanos job.clock) ht
    obtain rfl : .ok cs = x := congrArg Prod.fst (hgenerate.symm.trans hgenerate')
    have hcs := hgenuine cs rfl
    obtain ⟨x, w, hmaterialize, hending⟩ :=
      B.run_materialize c job.strategy ht fun a ha => (hcs a ha).2
    rw [B.perform_of_generate hgenerate hmaterialize, hending.refused_iff (by decide),
      Keyed.Tables.materialize_refused_at_runs_iff (B.wellFormed ht),
      Keyed.Tables.insertRuns_refused_iff_confuses (h.tables ht) fun a ha => (hcs a ha).1,
      Confuses.perm (B.perm_runs ht)]
    simp

/-- A backend refuses runs that are confused, and no others. -/
theorem Catalogue.refusesConfused (C : B.Catalogue)
    (htimed : ∀ {c}, B.Healthy c → ∀ r ∈ B.runs c, r.Timed) (h : B.Healthy c)
    {runs : σ → List FlowRun} (hruns : ∀ b, runs (B.resting b) = B.runs b) (earlier : List Visit)
    (job : Job) : RefusesConfused (B.resting c) runs earlier job := by
  obtain ⟨b, hstore, hlater⟩ := h.storeAfter_eq earlier
  have hb := hlater.healthy
  rw [RefusesConfused, hstore, hruns]
  refine ⟨C.refused_at_runs_iff hb job, fun cs hcs a ha q hq hconfused => ?_⟩
  obtain ⟨t, ht⟩ := hb.shows
  obtain ⟨x, hgenerate, hgenuine⟩ := B.run_generate b job.request (.ofNanos job.clock) ht
  obtain rfl : x = .ok cs := by
    rw [generated, B.run_transact hgenerate] at hcs
    exact hcs
  obtain ⟨d, ss, hofs⟩ := exists_ofSchedules_of_generate hgenerate
  have hcandidate : ∀ a ∈ cs, a.unlinkedRun.Named ∧ a.unlinkedRun.Timed := by
    intro a ha
    obtain ⟨q, -, time, hcandidate⟩ := exists_occurrence hofs ha
    exact ⟨(hgenuine cs rfl a ha).1.id_eq, timed_of_candidate hcandidate⟩
  have hrun : q.Named ∧ q.Timed := by
    rcases List.mem_append.1 hq with hq | hq
    · exact ⟨hb.named q hq, htimed hb q hq⟩
    · obtain ⟨a', ha', rfl⟩ := List.mem_map.1 hq
      exact hcandidate a' ha'
  exact hconfused.cases hrun.1 (hcandidate a ha).1 hrun.2 (hcandidate a ha).2

end Backend

open Occurrence Text

theorem Occurrence.runId_eq_iff {f f' s s' : String} {t t' : Instant} (ht : t.InYears)
    (ht' : t'.InYears) :
    runId f (idempotencyKey s t) = runId f' (idempotencyKey s' t') ↔
      Uuid.Collision (runName f (idempotencyKey s t)) (runName f' (idempotencyKey s' t')) ∨
        NamedAlike (bytes f) (bytes s) t (bytes f') (bytes s') t' := by
  rw [runId, runId, Uuid.toString_inj, ← nameBytes_eq_iff_namedAlike ht ht', ← bytes_runName,
    ← bytes_runName, bytes_inj, Uuid.Collision]
  by_cases h : runName f (idempotencyKey s t) = runName f' (idempotencyKey s' t') <;> simp [h]

/-- Occurrences in the years 1 to 9999 with one name are the same or have shifted ids, whatever
bytes these have. So runs have one id only if that is the case or identifiers collide, and a store
refuses the runs of a call exactly if one of them has the id of another occurrence's run. -/
theorem names_confused_iff_shifted (v : Relational.Version) (earlier : List Visit) (job : Job) :
    (∀ (f s : String) (t : Instant),
      bytes (runName f (idempotencyKey s t)) = nameBytes (bytes f) (bytes s) t) ∧
    (∀ (f f' s s' : List UInt8) (t t' : Instant), t.InYears → t'.InYears →
      (nameBytes f s t = nameBytes f' s' t' ↔ NamedAlike f s t f' s' t')) ∧
    (∀ (f f' s s' : String) (t t' : Instant), t.InYears → t'.InYears →
      (runId f (idempotencyKey s t) = runId f' (idempotencyKey s' t') ↔
        Uuid.Collision (runName f (idempotencyKey s t)) (runName f' (idempotencyKey s' t')) ∨
          NamedAlike (bytes f) (bytes s) t (bytes f') (bytes s') t')) ∧
    RefusesConfused Keyed.Ledger.empty (fun l => l.committed.runs.values) earlier job ∧
    RefusesConfused (Relational.Database.connect v ⟨.none, false⟩)
      (fun db => db.file.tables.runRows) earlier job := by
  refine ⟨bytes_runName, fun _ _ _ _ _ _ => nameBytes_eq_iff_namedAlike,
    fun _ _ _ _ _ _ => runId_eq_iff, ?_, ?_⟩
  · have hempty : Keyed.Ledger.backend.timed.Healthy Keyed.Tables.empty :=
      Backend.healthy_of_runs_eq_nil ⟨⟨rfl, Keyed.Tables.wellFormed_empty⟩, fun _ hr => nomatch hr⟩
        rfl
    exact Keyed.Ledger.catalogue.refusesConfused Backend.Healthy.timed hempty (fun _ => rfl)
      earlier job
  · have hempty : (Relational.Database.orderly v).timed.Healthy Relational.Tables.empty :=
      Backend.healthy_of_runs_eq_nil
        ⟨⟨Relational.shows_empty, List.nodup_nil⟩, fun _ hr => nomatch hr⟩ rfl
    exact (Relational.Database.catalogue v).refusesConfused Backend.Healthy.timed hempty
      (fun _ => rfl) earlier job

/-- Two names that are shifted, and a call that is not refused since it stores the first run. -/
theorem names_confused_iff_shifted_first_hour :
    nameBytes (bytes "flow\nscheduled x") (bytes "y") ⟨0⟩ =
        nameBytes (bytes "flow") (bytes "x\nscheduled y") ⟨0⟩ ∧
      ¬ ∃ e, ((firstHourJob .updateJoin).perform (storeAfter Keyed.Ledger.empty hourlyVisits)).1 =
        .error (.refused "insert flow runs" e) := by
  obtain ⟨-, hname, -, hkeyed, -⟩ :=
    names_confused_iff_shifted .current hourlyVisits (firstHourJob .updateJoin)
  constructor
  · refine (hname _ _ _ _ ⟨0⟩ ⟨0⟩ (by decide) (by decide)).2 ⟨rfl, .inr (.inl ?_)⟩
    exact ⟨bytes "x", by decide, by decide⟩
  · obtain ⟨c, -, hgenerated, -⟩ := exists_stored_firstHour
    rw [hkeyed.1]
    rintro ⟨cs, hcs, d, hd, q, hq, hconfused⟩
    obtain rfl : [c] = cs := Except.ok.inj (hgenerated.symm.trans hcs)
    -- the only run there is, is that of the candidate itself
    obtain rfl := List.mem_singleton.1 hd
    obtain rfl : q = d.unlinkedRun := List.mem_singleton.1 hq
    exact hconfused.2 rfl

/-! ### Deployments with confused runs -/

/-- A deployment of a flow whose id goes on, behind that of another flow, like the key of a run. -/
def longDeployment : Deployment := ⟨"first", "first", "flow\nscheduled x", 0⟩

/-- A deployment of the other flow. -/
def shortDeployment : Deployment := ⟨"second", "second", "flow", 0⟩

/-- The hours for the first deployment. -/
def shortHours : Schedule := ⟨"y", "first", 3600, ⟨0⟩, "\x7b\x7d", 0⟩

/-- The hours for the second one. -/
def longHours : Schedule := ⟨"x\nscheduled y", "second", 3600, ⟨0⟩, "\x7b\x7d", 0⟩

/-- Makes both deployments and their schedules known. -/
def confusedVisits : List Visit :=
  [⟨.change "insert deployment" (.insertDeployment longDeployment), 0⟩,
    ⟨.change "insert deployment" (.insertDeployment shortDeployment), 0⟩,
    ⟨.change "insert schedule" (.insertSchedule shortHours), 0⟩,
    ⟨.change "insert schedule" (.insertSchedule longHours), 0⟩]

/-- Asks for the first hour of a deployment. -/
def firstHourOf (deploymentId : String) : Request := ⟨deploymentId, some ⟨0⟩, some ⟨0⟩, none⟩

/-- A call for it. -/
def firstHourCall (deploymentId : String) : Job := ⟨.updateJoin, firstHourOf deploymentId, 0⟩

/-- The one candidate for the first hour, where there is one schedule for every hour. -/
theorem exists_generate_firstHourOf {t : Keyed.Tables} {d : Deployment} {s : Schedule}
    (hfind : t.deployments.get? d.id = some d) (hlist : t.listSchedules d.id = [s])
    (hgrid : s.grid = hourly.grid) :
    ∃ c, t.generate (firstHourOf d.id) (.ofNanos 0) = .ok [c] ∧ c.Genuine ∧
      c.run.key = ⟨d.flowId, idempotencyKey s.id ⟨0⟩⟩ := by
  have hnow : Instant.ofNanos 0 = ⟨0⟩ := by decide
  have hid : (firstHourOf d.id).deploymentId = d.id := rfl
  obtain ⟨c, hcandidate⟩ :=
    exists_candidate_of_inYears (t := ⟨0⟩) (by decide) d s (Instant.toWord ⟨0⟩)
  have hone : (firstHourOf d.id).ofSchedule ⟨0⟩ d s = .ok [c] := by
    let g : Grid := ⟨⟨0⟩, 3600000, by decide⟩
    have hdates : g.dates 100 ⟨0⟩ ⟨0⟩ = [⟨0⟩] := by decide +kernel
    refine ofSchedule_eq_ok.2 ⟨g, hgrid, mapM_eq_ok_iff.2 ?_⟩
    exact (congrArg (List.map _) hdates).trans (congrArg (fun x => [x]) hcandidate)
  refine ⟨c, ?_, Candidate.genuine_of_candidate hcandidate, ?_⟩
  · rw [Keyed.Tables.generate, hid, hfind, hlist, hnow]
    simp only [ofSchedules_cons, hone]
    rfl
  · obtain ⟨hat, hstands⟩ := candidate_eq_ok_iff_standsFor.1 hcandidate
    rw [hstands.run_eq, hat]
    rfl

/-- The tables with both deployments and their schedules. -/
def confusedTables : Keyed.Tables := (storeAfter Keyed.Ledger.empty confusedVisits).committed

theorem healthy_confusedTables : confusedTables.Healthy := by
  obtain ⟨t, hstore, h⟩ := Keyed.Ledger.exists_healthy confusedVisits
  obtain rfl : confusedTables = t := congrArg Keyed.Ledger.committed hstore
  exact h

theorem runName_confused : runName longDeployment.flowId (idempotencyKey shortHours.id ⟨0⟩) =
    runName shortDeployment.flowId (idempotencyKey longHours.id ⟨0⟩) := by decide +kernel

/-- The candidates for the first hour have one id and different keys. -/
theorem exists_generate_confused : ∃ c a,
    confusedTables.generate (firstHourOf "first") (.ofNanos 0) = .ok [c] ∧
      confusedTables.generate (firstHourOf "second") (.ofNanos 0) = .ok [a] ∧
      c.Genuine ∧ a.Genuine ∧ c.run.id = a.run.id ∧ c.run.key ≠ a.run.key := by
  have hlong : confusedTables.listSchedules "first" = [shortHours] :=
    List.mergeSort_singleton shortHours
  have hshort : confusedTables.listSchedules "second" = [longHours] :=
    List.mergeSort_singleton longHours
  obtain ⟨c, hc, hcgenuine, hckey⟩ :=
    exists_generate_firstHourOf (d := longDeployment) (t := confusedTables) rfl hlong rfl
  obtain ⟨a, ha, hagenuine, hakey⟩ :=
    exists_generate_firstHourOf (d := shortDeployment) (t := confusedTables) rfl hshort rfl
  refine ⟨c, a, hc, ha, hcgenuine, hagenuine, ?_, ?_⟩
  · obtain ⟨hcflow, hckey⟩ := RunKey.mk.inj hckey
    obtain ⟨haflow, hakey⟩ := RunKey.mk.inj hakey
    rw [hcgenuine.id_eq, hagenuine.id_eq, hcflow, hckey, haflow, hakey, runId, runId,
      runName_confused]
  · rw [hckey, hakey, ne_eq, RunKey.mk.injEq]
    exact fun hkeys => absurd hkeys.1 (by decide)

/-- Two occurrences of different flows and schedules have one name. The deployment that is called
first takes the id, and the call for the other one is refused, though it would not have been
before. -/
theorem shifted_names_refuse_calls :
    runName longDeployment.flowId (idempotencyKey shortHours.id ⟨0⟩) =
        runName shortDeployment.flowId (idempotencyKey longHours.id ⟨0⟩) ∧
      longDeployment.flowId ≠ shortDeployment.flowId ∧ shortHours.id ≠ longHours.id ∧
      (∃ created, ((firstHourCall "second").perform
        (storeAfter Keyed.Ledger.empty confusedVisits)).1 = .ok created) ∧
      ∃ created store e,
        (firstHourCall "first").perform (storeAfter Keyed.Ledger.empty confusedVisits) =
          (.ok created, store) ∧
        ((firstHourCall "second").perform store).1 = .error (.refused "insert flow runs" e) ∧
        (Failure.refused "insert flow runs" e).kind = .alreadyExists := by
  have h := healthy_confusedTables
  have hstore : storeAfter Keyed.Ledger.empty confusedVisits = ⟨confusedTables, false⟩ := rfl
  obtain ⟨c, a, hc, ha, hcgenuine, hagenuine, hid, hkey⟩ := exists_generate_confused
  obtain ⟨created, hok⟩ :=
    Keyed.Tables.exists_materialize_singleton h.wellFormed rfl rfl .updateJoin c
  obtain ⟨made, hmade⟩ :=
    Keyed.Tables.exists_materialize_singleton h.wellFormed rfl rfl .updateJoin a
  have hu := Keyed.Tables.materialized_of_ok h.wellFormed hok
  have hcs : ∀ b ∈ [c], b.Genuine := fun b hb => List.mem_singleton.1 hb ▸ hcgenuine
  have has : ∀ b ∈ [a], b.Genuine := fun b hb => List.mem_singleton.1 hb ▸ hagenuine
  obtain ⟨e, he⟩ := Keyed.Tables.refused_after_materialize h hcs hok has (List.mem_singleton_self c)
    (List.mem_singleton_self a) hid hkey .updateJoin
  -- the call that comes second asks for what it would have asked for before
  have hagain : (confusedTables.materialize .updateJoin [c]).2.generate (firstHourOf "second")
      (.ofNanos 0) = .ok [a] := by
    rw [← ha, Keyed.Tables.generate, Keyed.Tables.generate, Keyed.Tables.listSchedules,
      Keyed.Tables.listSchedules, hu.deployments_eq, hu.schedules_eq]
  have hfirst : confusedTables.perform (firstHourCall "first") =
      (.ok created, (confusedTables.materialize .updateJoin [c]).2) :=
    Keyed.Tables.perform_of_ok hc hok
  have hsecond : confusedTables.perform (firstHourCall "second") =
      (.ok made, (confusedTables.materialize .updateJoin [a]).2) :=
    Keyed.Tables.perform_of_ok ha hmade
  have hrefused : (confusedTables.materialize .updateJoin [c]).2.perform (firstHourCall "second") =
      (.error (.refused "insert flow runs" e), (confusedTables.materialize .updateJoin [c]).2) :=
    Keyed.Tables.perform_of_error hagain he
  refine ⟨runName_confused, by decide, by decide, ⟨made, ?_⟩, created,
    ⟨(confusedTables.materialize .updateJoin [c]).2, false⟩, e, ?_, ?_,
    Keyed.Tables.kind_of_materialize_error hu.wellFormed he⟩
  · rw [hstore, Keyed.Ledger.perform_eq h.wellFormed, hsecond]
  · rw [hstore, Keyed.Ledger.perform_eq h.wellFormed, hfirst]
  · rw [Keyed.Ledger.perform_eq hu.wellFormed, hrefused]

end Timetable
