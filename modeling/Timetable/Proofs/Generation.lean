import Timetable.Proofs.Catalogue
import Timetable.Proofs.Dates
import Timetable.Proofs.Relational.Listings
import Timetable.Proofs.Retry
import Timetable.Proofs.Words

/-!
# What generating comes to

The schedules of a deployment are gone through one after the other. `Expands` says what comes of
this: of each schedule the candidates for the instants that are listed for it, up to the first
schedule without a grid or the first instant that cannot be written. As long as words hold the
numbers, the instants that are listed are the earliest ones in the window, and no two candidates
share a key. `generates_in_order` says so of both stores.
-/

namespace Timetable

/-! ### A candidate and its occurrence -/

/-- A candidate says of an occurrence of a schedule what there is to be stored. -/
structure Candidate.StandsFor (c : Candidate) (d : Deployment) (s : Schedule) (now : Instant) :
    Prop where
  run_eq : c.run = {
    id := Occurrence.runId d.flowId (Occurrence.idempotencyKey s.id c.scheduledAt)
    flowId := d.flowId, deploymentId := d.id, parameters := s.parameters
    idempotencyKey := Occurrence.idempotencyKey s.id c.scheduledAt, tags := "[\"auto-scheduled\"]"
    scheduleId := s.id, autoScheduled := true, stateId := none, createdAt := now.toWord }
  state_eq : ∃ details, Occurrence.details s.id c.scheduledAt = .ok details ∧ c.state = {
    id := Occurrence.initialStateId c.run.id, runId := c.run.id, kind := RunState.scheduled
    message := "Flow run scheduled", details, createdAt := now.toWord }

namespace Occurrence

variable {d : Deployment} {s : Schedule} {now t : Instant} {c : Candidate}

theorem candidate_eq_ok_iff_standsFor :
    candidate d s now.toWord t = .ok c ↔ c.scheduledAt = t ∧ c.StandsFor d s now := by
  rw [candidate_eq_ok]
  constructor
  · rintro ⟨text, htext, rfl⟩
    exact ⟨rfl, rfl, text, htext, rfl⟩
  · rintro ⟨rfl, hrun, text, htext, hstate⟩
    refine ⟨text, htext, ?_⟩
    cases c
    simp only at hrun hstate
    rw [hstate, hrun]
    rfl

theorem exists_candidate_of_inYears (h : t.InYears) (d : Deployment) (s : Schedule)
    (createdAt : UInt64) : ∃ c, candidate d s createdAt t = .ok c := by
  have hdetails : ∃ text, details s.id t = .ok text :=
    ⟨_, (details_eq s.id t).trans (if_pos (Instant.inYears_iff.1 h))⟩
  obtain ⟨text, htext⟩ := hdetails
  exact ⟨_, candidate_eq_ok.2 ⟨text, htext, rfl⟩⟩

theorem candidate_of_not_inYears (h : ¬ t.InYears) (d : Deployment) (s : Schedule)
    (createdAt : UInt64) : candidate d s createdAt t = .error .unwritableTime := by
  have hdetails : details s.id t = .error .unwritableTime :=
    (details_eq s.id t).trans (if_neg fun hrange => h (Instant.inYears_iff.2 hrange))
  rw [candidate, hdetails]
  rfl

/-- Instants yield their candidates, unless one of them cannot be written. -/
theorem mapM_candidate (d : Deployment) (s : Schedule) (now : Instant) (ts : List Instant) :
    (∃ cs, ts.mapM (candidate d s now.toWord) = .ok cs ∧ cs.map Candidate.scheduledAt = ts ∧
        ∀ c ∈ cs, c.StandsFor d s now) ∨
      (∃ t ∈ ts, ¬ t.InYears) ∧ ts.mapM (candidate d s now.toWord) = .error .unwritableTime := by
  induction ts with
  | nil => exact .inl ⟨[], rfl, rfl, by simp⟩
  | cons t ts ih =>
    rw [List.mapM_cons]
    by_cases ht : t.InYears
    · obtain ⟨c, hc⟩ := exists_candidate_of_inYears ht d s now.toWord
      obtain ⟨hat, hstands⟩ := candidate_eq_ok_iff_standsFor.1 hc
      rw [hc]
      rcases ih with ⟨cs, hcs, hats, hall⟩ | ⟨⟨u, hu, hlate⟩, herror⟩
      · rw [hcs]
        refine .inl ⟨c :: cs, rfl, ?_, List.forall_mem_cons.2 ⟨hstands, hall⟩⟩
        rw [List.map_cons, hat, hats]
      · rw [herror]
        exact .inr ⟨⟨u, List.mem_cons_of_mem t hu, hlate⟩, rfl⟩
    · rw [candidate_of_not_inYears ht]
      exact .inr ⟨⟨t, List.mem_cons_self .., ht⟩, rfl⟩

end Occurrence

namespace Candidate.StandsFor

variable {d d' : Deployment} {s s' : Schedule} {now now' : Instant} {c c' : Candidate}

/-- A key tells its schedule and its instant. -/
theorem eq_of_key_eq (h : c.StandsFor d s now) (h' : c'.StandsFor d' s' now')
    (hkey : c.run.idempotencyKey = c'.run.idempotencyKey) :
    s.id = s'.id ∧ c.scheduledAt = c'.scheduledAt := by
  have hdated := Occurrence.dated_of_candidate (Occurrence.candidate_eq_ok_iff_standsFor.2 ⟨rfl, h⟩)
  have hdated' :=
    Occurrence.dated_of_candidate (Occurrence.candidate_eq_ok_iff_standsFor.2 ⟨rfl, h'⟩)
  rw [h.run_eq, h'.run_eq, Occurrence.idempotencyKey_eq_iff,
    Rfc3339.print_inj_of_dated hdated hdated'] at hkey
  exact hkey

/-- The ids come from the flow, the schedule and the instant, and from nothing else. -/
theorem ids_eq (h : c.StandsFor d s now) (h' : c'.StandsFor d' s' now')
    (hflow : d.flowId = d'.flowId) (hid : s.id = s'.id) (hat : c.scheduledAt = c'.scheduledAt) :
    c.run.id = c'.run.id ∧ c.state.id = c'.state.id := by
  have hrun : c.run.id = c'.run.id := by rw [h.run_eq, h'.run_eq, hflow, hid, hat]
  obtain ⟨text, -, hstate⟩ := h.state_eq
  obtain ⟨text', -, hstate'⟩ := h'.state_eq
  rw [hstate, hstate', hrun]
  exact ⟨rfl, rfl⟩

end Candidate.StandsFor

/-! ### One schedule after the other -/

/-- What comes of schedules, where `Lists` says which instants are listed for a grid. -/
inductive Expands (d : Deployment) (now : Instant) (Lists : Grid → List Instant → Prop) :
    List Schedule → Except Failure (List Candidate) → Prop
  /-- No schedules, no candidates. -/
  | none : Expands d now Lists [] (.ok [])
  /-- The interval of the first schedule is not accepted. -/
  | rejected {s : Schedule} {ss : List Schedule}
    (h : s.intervalSeconds = 0 ∨ Schedule.longestInterval < s.intervalSeconds) :
    Expands d now Lists (s :: ss) (.error (.invalidInterval s.id))
  /-- One of the instants of the first schedule cannot be written. -/
  | unwritable {s : Schedule} {ss : List Schedule} {g : Grid} {ts : List Instant}
    (hg : s.grid = .ok g) (hts : Lists g ts) {t : Instant} (ht : t ∈ ts) (hlate : ¬ t.InYears) :
    Expands d now Lists (s :: ss) (.error .unwritableTime)
  /-- The first schedule yields a candidate for each of its instants, and the others go on. -/
  | expanded {s : Schedule} {ss : List Schedule} {g : Grid} {cs : List Candidate}
    {x : Except Failure (List Candidate)} (hg : s.grid = .ok g)
    (hts : Lists g (cs.map Candidate.scheduledAt)) (hcs : ∀ c ∈ cs, c.StandsFor d s now)
    (rest : Expands d now Lists ss x) : Expands d now Lists (s :: ss) (x.map (cs ++ ·))

namespace Expands

variable {d : Deployment} {now : Instant} {Lists Lists' : Grid → List Instant → Prop}
  {ss : List Schedule} {x : Except Failure (List Candidate)} {cs : List Candidate} {c : Candidate}

theorem mono (h : Expands d now Lists ss x)
    (hlists : ∀ s ∈ ss, ∀ g ts, s.grid = .ok g → Lists g ts → Lists' g ts) :
    Expands d now Lists' ss x := by
  induction h with
  | none => exact .none
  | rejected h => exact .rejected h
  | unwritable hg hts ht hlate =>
    exact .unwritable hg (hlists _ (List.mem_cons_self ..) _ _ hg hts) ht hlate
  | expanded hg hts hcs rest ih =>
    exact .expanded hg (hlists _ (List.mem_cons_self ..) _ _ hg hts) hcs
      (ih fun s hs => hlists s (List.mem_cons_of_mem _ hs))

/-- What can go wrong is an interval that is not accepted or an instant that cannot be written. -/
theorem error_cases (h : Expands d now Lists ss x) : ∀ e, x = .error e →
    (∃ s ∈ ss, e = .invalidInterval s.id) ∨ e = .unwritableTime := by
  induction h with
  | none => nofun
  | rejected h =>
    rintro _ ⟨⟩
    exact .inl ⟨_, List.mem_cons_self .., rfl⟩
  | unwritable hg hts ht hlate =>
    rintro _ ⟨⟩
    exact .inr rfl
  | @expanded s ss g cs x hg hts hcs rest ih =>
    cases x with
    | error e =>
      rintro _ ⟨⟩
      refine (ih e rfl).imp_left ?_
      rintro ⟨q, hq, rfl⟩
      exact ⟨q, List.mem_cons_of_mem s hq, rfl⟩
    | ok more => nofun

theorem kind_ne_notFound (h : Expands d now Lists ss x) :
    ∀ e, x = .error e → e.kind ≠ .notFound := by
  intro e he
  rcases h.error_cases e he with ⟨s, -, rfl⟩ | rfl <;> nofun

/-- Every candidate stands for an instant that is listed for one of the schedules. -/
theorem exists_standsFor (h : Expands d now Lists ss x) : ∀ cs, x = .ok cs → ∀ c ∈ cs,
    ∃ s ∈ ss, c.StandsFor d s now ∧ ∃ g ts, s.grid = .ok g ∧ Lists g ts ∧ c.scheduledAt ∈ ts := by
  induction h with
  | none =>
    rintro _ ⟨⟩ c hc
    cases hc
  | rejected h => nofun
  | unwritable hg hts ht hlate => nofun
  | @expanded s ss g cs x hg hts hcs rest ih =>
    cases x with
    | error e => nofun
    | ok more =>
      rintro _ ⟨⟩ c hc
      rcases List.mem_append.1 hc with hc | hc
      · exact ⟨s, List.mem_cons_self .., hcs c hc, g, _, hg, hts, List.mem_map_of_mem hc⟩
      · obtain ⟨q, hq, hstands⟩ := ih more rfl c hc
        exact ⟨q, List.mem_cons_of_mem s hq, hstands⟩

/-- Where schedules have ids of their own and no instant is listed twice, no key occurs twice. -/
theorem nodup_keys (h : Expands d now Lists ss x) (hlists : ∀ g ts, Lists g ts → ts.Nodup)
    (hids : (ss.map Schedule.id).Nodup) :
    ∀ cs, x = .ok cs → (cs.map fun c => c.run.idempotencyKey).Nodup := by
  induction h with
  | none =>
    rintro _ ⟨⟩
    exact List.nodup_nil
  | rejected h => nofun
  | unwritable hg hts ht hlate => nofun
  | @expanded s ss g cs x hg hts hcs rest ih =>
    cases x with
    | error e => nofun
    | ok more =>
      rintro _ ⟨⟩
      rw [List.map_cons, List.nodup_cons] at hids
      rw [List.map_append, List.nodup_append]
      refine ⟨?_, ih hids.2 more rfl, ?_⟩
      · have hnodup := hlists _ _ hts
        refine hnodup.of_map.map_on fun a ha b hb hkey => ?_
        exact List.inj_on_of_nodup_map hnodup ha hb ((hcs a ha).eq_of_key_eq (hcs b hb) hkey).2
      · -- a later candidate belongs to another schedule
        intro k hk k' hk' heq
        obtain ⟨a, ha, rfl⟩ := List.mem_map.1 hk
        obtain ⟨b, hb, rfl⟩ := List.mem_map.1 hk'
        obtain ⟨q, hq, hstands, -⟩ := rest.exists_standsFor more rfl b hb
        exact hids.1 (List.mem_map.2 ⟨q, hq, ((hcs a ha).eq_of_key_eq hstands heq).1.symm⟩)

end Expands

theorem Schedule.grid_eq_error {s : Schedule} {e : Failure} : s.grid = .error e ↔
    (s.intervalSeconds = 0 ∨ longestInterval < s.intervalSeconds) ∧ e = .invalidInterval s.id := by
  have haccepted : (0 < s.intervalSeconds.toNat ∧ s.intervalSeconds ≤ longestInterval) ↔
      ¬ (s.intervalSeconds = 0 ∨ longestInterval < s.intervalSeconds) := by
    rw [← UInt64.toNat_inj, not_or, UInt64.not_lt, UInt64.toNat_zero, Nat.pos_iff_ne_zero]
  unfold grid
  split
  · next h => exact iff_of_false (fun hg => by cases hg) fun hg => haccepted.1 h hg.1
  · next h =>
    rw [haccepted, Classical.not_not] at h
    rw [Except.error.injEq, eq_comm]
    exact (and_iff_right h).symm

section OfSchedules

variable {r : Request} {now : Instant} {d : Deployment} {s : Schedule} {ss : List Schedule}

theorem ofSchedules_cons : r.ofSchedules now d (s :: ss) =
    (r.ofSchedule now d s).bind fun cs => (r.ofSchedules now d ss).map (cs ++ ·) := by
  unfold Request.ofSchedules
  rw [List.mapM_cons]
  cases r.ofSchedule now d s with
  | error e => rfl
  | ok cs => cases ss.mapM (r.ofSchedule now d) <;> rfl

/-- The schedules of a request are gone through in order. -/
theorem expands_ofSchedules (r : Request) (now : Instant) (d : Deployment) (ss : List Schedule) :
    Expands d now (fun g ts => g.dates r.limit (r.windowStart now) (r.windowEnd now) = ts) ss
      (r.ofSchedules now d ss) := by
  induction ss with
  | nil => exact .none
  | cons s ss ih =>
    rw [ofSchedules_cons, Request.ofSchedule]
    cases hgrid : s.grid with
    | error e =>
      obtain ⟨h, rfl⟩ := Schedule.grid_eq_error.1 hgrid
      exact .rejected h
    | ok g =>
      rcases Occurrence.mapM_candidate d s now
          (g.dates r.limit (r.windowStart now) (r.windowEnd now)) with
        ⟨cs, hcs, hats, hall⟩ | ⟨⟨t, ht, hlate⟩, herror⟩
      · show Expands _ _ _ _ (Except.bind (List.mapM _ _) _)
        rw [hcs]
        exact .expanded hgrid hats.symm hall ih
      · show Expands _ _ _ _ (Except.bind (List.mapM _ _) _)
        rw [herror]
        exact .unwritable hgrid rfl ht hlate

section Fails

variable {e : Failure}

/-- A schedule fails for its interval, or for an instant that cannot be written. -/
theorem ofSchedule_error_cases (h : r.ofSchedule now d s = .error e) :
    s.grid = .error e ∨ (∃ g, s.grid = .ok g) ∧ e = .unwritableTime := by
  cases hgrid : s.grid with
  | error e' =>
    rw [Request.ofSchedule, hgrid] at h
    cases h
    exact .inl rfl
  | ok g =>
    refine .inr ⟨⟨g, rfl⟩, ?_⟩
    rw [Request.ofSchedule, hgrid] at h
    have h : (g.dates r.limit (r.windowStart now) (r.windowEnd now)).mapM
      (Occurrence.candidate d s now.toWord) = .error e := h
    rcases Occurrence.mapM_candidate d s now
        (g.dates r.limit (r.windowStart now) (r.windowEnd now)) with
      ⟨cs, hcs, -, -⟩ | ⟨-, herror⟩
    · rw [hcs] at h
      cases h
    · rw [herror] at h
      cases h
      rfl

/-- Schedules fail as the first one does that fails. -/
theorem ofSchedules_eq_error_iff : r.ofSchedules now d ss = .error e ↔
    ∃ before s after, ss = before ++ s :: after ∧
      (∀ q ∈ before, ∃ cs, r.ofSchedule now d q = .ok cs) ∧ r.ofSchedule now d s = .error e := by
  induction ss with
  | nil => exact iff_of_false (by nofun) fun ⟨before, s, after, h, _⟩ => by simp at h
  | cons q ss ih =>
    rw [ofSchedules_cons]
    constructor
    · intro h
      cases hq : r.ofSchedule now d q with
      | error e' =>
        rw [hq] at h
        cases h
        exact ⟨[], q, ss, rfl, by simp, hq⟩
      | ok cs =>
        rw [hq] at h
        have hrest : r.ofSchedules now d ss = .error e := by
          cases hrest : r.ofSchedules now d ss with
          | error e' =>
            rw [hrest] at h
            cases h
            rfl
          | ok more =>
            rw [hrest] at h
            cases h
        obtain ⟨before, s, after, rfl, hbefore, hs⟩ := ih.1 hrest
        refine ⟨q :: before, s, after, rfl, ?_, hs⟩
        exact List.forall_mem_cons.2 ⟨⟨cs, hq⟩, hbefore⟩
    · rintro ⟨_ | ⟨p, before⟩, s, after, heq, hbefore, hs⟩
      · cases heq
        rw [hs]
        rfl
      · cases heq
        obtain ⟨⟨cs, hq⟩, hbefore⟩ := List.forall_mem_cons.1 hbefore
        rw [hq, ih.2 ⟨before, s, after, rfl, hbefore, hs⟩]
        rfl

/-- Schedules that fail do so as well when some are left out, or they fail as one of these does. -/
theorem ofSchedules_filter_eq_error_or (keep : Schedule → Bool)
    (h : r.ofSchedules now d ss = .error e) : r.ofSchedules now d (ss.filter keep) = .error e ∨
      ∃ q ∈ ss, keep q = false ∧ r.ofSchedule now d q = .error e := by
  obtain ⟨before, s, after, rfl, hbefore, hs⟩ := ofSchedules_eq_error_iff.1 h
  cases hkeep : keep s with
  | false => exact .inr ⟨s, by simp, hkeep, hs⟩
  | true =>
    refine .inl (ofSchedules_eq_error_iff.2
      ⟨before.filter keep, s, after.filter keep, ?_, fun q hq => ?_, hs⟩)
    · rw [List.filter_append, List.filter_cons_of_pos hkeep]
    · exact hbefore q (List.mem_of_mem_filter hq)

/-- One schedule that fails is enough. -/
theorem exists_ofSchedules_eq_error (hs : s ∈ ss) (h : r.ofSchedule now d s = .error e) :
    ∃ e', r.ofSchedules now d ss = .error e' := by
  cases hall : r.ofSchedules now d ss with
  | error e' => exact ⟨e', rfl⟩
  | ok cs =>
    obtain ⟨lists, hlists, -⟩ := ofSchedules_eq_ok.1 hall
    obtain ⟨l, -, hl⟩ := exists_of_mapM hlists hs
    rw [h] at hl
    cases hl

end Fails

end OfSchedules

/-! ### The schedules of a deployment -/

/-- The schedules of a deployment, oldest first, each with an id of its own. -/
structure Listed (age : Schedule → Int) (stored : List Schedule) (deploymentId : String)
    (ss : List Schedule) : Prop where
  mem_iff : ∀ s, s ∈ ss ↔ s ∈ stored ∧ s.deploymentId = deploymentId
  ordered : ss.Pairwise (Precedes age Schedule.id)
  nodup_ids : (ss.map Schedule.id).Nodup

/-- The only schedule that is stored is the only one that is listed. -/
theorem Listed.mem_iff_eq {age : Schedule → Int} {s q : Schedule} {deploymentId : String}
    {ss : List Schedule} (h : Listed age [s] deploymentId ss)
    (hid : s.deploymentId = deploymentId) : q ∈ ss ↔ q = s := by
  rw [h.mem_iff, List.mem_singleton]
  exact and_iff_left_of_imp fun hq => hq ▸ hid

theorem listed_mergeSort {age : Schedule → Int} {stored : List Schedule}
    {le : Schedule → Schedule → Bool}
    (hle : ∀ a b, le a b = true ↔ Precedes age Schedule.id a b)
    (hids : (stored.map Schedule.id).Nodup) (deploymentId : String) :
    Listed age stored deploymentId
      ((stored.filter (·.deploymentId == deploymentId)).mergeSort le) where
  mem_iff s := by rw [List.mem_mergeSort, List.mem_filter, beq_iff_eq]
  ordered := by
    have hsorted := List.pairwise_mergeSort (Precedes.trans_of_iff hle) (Precedes.total_of_iff hle)
      (stored.filter (·.deploymentId == deploymentId))
    exact hsorted.imp fun h => (hle _ _).1 h
  nodup_ids := by
    have hperm := List.mergeSort_perm (stored.filter (·.deploymentId == deploymentId)) le
    exact (hperm.map Schedule.id).nodup_iff.2 (hids.sublist (List.filter_sublist.map _))

theorem Keyed.Tables.WellFormed.listed {t : Keyed.Tables} (ht : t.WellFormed)
    (deploymentId : String) : Listed (fun s => (s.createdAt.toNat : Int)) t.schedules.values
      deploymentId (t.listSchedules deploymentId) := by
  have hids : OrderedMap.Holds t.schedules Schedule.id t.schedules.values :=
    .values fun _ _ => ht.schedule_id
  exact listed_mergeSort (fun _ _ => Keyed.earlier_iff) hids.nodup deploymentId

theorem Relational.Tables.Orderly.listed {w : Relational.Tables} (hw : w.Orderly)
    (deploymentId : String) : Listed (fun s => Relational.signed s.createdAt) w.scheduleRows
      deploymentId (w.listSchedules deploymentId) :=
  listed_mergeSort (fun _ _ => Relational.earlier_iff) hw deploymentId

/-! ### Stores -/

/-- In a state of a store, what a request asks for is generated from the deployment that is found
and from its schedules, and nothing changes. What it does not say of the window or of the limit is
made up for. -/
def Request.Generates [Repository σ τ] (r : Request) (now : Instant) (s : σ × τ)
    (find : String → Option Deployment) (Lists : String → List Schedule → Prop) : Prop :=
  ∃ x, (r.generate now).run s = (x, s) ∧
    ((∃ e, x = .error e ∧ e.kind = .notFound) ↔ find r.deploymentId = none) ∧
    ∀ d, find r.deploymentId = some d → ∃ ss, Lists r.deploymentId ss ∧
      let start := r.start.getD now
      let finish := r.finish.getD (start.addYears 1)
      let n := (r.maxRuns.map UInt64.toNat).getD 100
      (∀ q ∈ ss, ∀ g, q.grid = .ok g → g.Exact n start finish) →
        Expands d now (fun g => Earliest n (g.InWindow start finish)) ss x ∧
          ∀ cs, x = .ok cs → (cs.map fun c => c.run.idempotencyKey).Nodup

theorem generates_of_reads [Repository σ τ] {s : σ × τ} {find : String → Option Deployment}
    {list : String → List Schedule} {Lists : String → List Schedule → Prop}
    (hfind : ∀ id, (Repository.findDeployment id).run s = (.ok (find id), s))
    (hlist : ∀ id, (Repository.listSchedules id).run s = (.ok (list id), s))
    (hlists : ∀ id, Lists id (list id))
    (hids : ∀ id, ((list id).map Schedule.id).Nodup) (r : Request) (now : Instant) :
    r.Generates now s find Lists := by
  unfold Request.Generates
  cases hd : find r.deploymentId with
  | none =>
    refine ⟨.error (.deploymentNotFound r.deploymentId), ?_, ?_, ?_⟩
    · rw [Request.generate, Action.run_bind_of_ok (hfind _), hd]
      rfl
    · exact iff_of_true ⟨_, rfl, rfl⟩ rfl
    · rintro _ ⟨⟩
  | some d =>
    have hexpands := expands_ofSchedules r now d (list r.deploymentId)
    refine ⟨_, run_generate_of_some (hd ▸ hfind _) (hlist _) now, ?_, ?_⟩
    · refine iff_of_false ?_ (Option.some_ne_none d)
      rintro ⟨e, he, hkind⟩
      exact hexpands.kind_ne_notFound e he hkind
    · rintro _ ⟨⟩
      refine ⟨_, hlists r.deploymentId, fun hexact => ?_⟩
      have hearliest : Expands d now
          (fun g => Earliest r.limit (g.InWindow (r.windowStart now) (r.windowEnd now)))
          (list r.deploymentId) (r.ofSchedules now d (list r.deploymentId)) :=
        hexpands.mono fun q hq g ts hg hts => hts ▸ (hexact q hq g hg).earliest
      exact ⟨hearliest, hearliest.nodup_keys (fun _ _ hts => hts.ascending.nodup) (hids _)⟩

/-- That a deployment is missing is reported exactly if it is. Otherwise its schedules are gone
through, oldest first, and as long as words hold the numbers each of them yields a candidate for
each of its earliest instants in the window, up to the limit; the first interval that is not
accepted or the first instant that cannot be written ends it all. No key occurs twice, and ids come
from the flow, the schedule and the instant alone. -/
theorem generates_in_order (r : Request) (now : Instant) :
    (∀ (l : Keyed.Ledger) (tx : Keyed.Transaction), tx.working.WellFormed →
      r.Generates now (l, tx) tx.working.deployments.get?
        (Listed (fun s => s.createdAt.toNat) tx.working.schedules.values)) ∧
    (∀ (v : Relational.Version) (c w : Relational.Tables), w.Whole → w.Orderly →
      r.Generates now ((Relational.Database.copying v).busy c w)
        (fun id => w.deploymentRows.find? (·.id == Text.untilNul id))
        (fun id => Listed (fun s => Relational.signed s.createdAt) w.scheduleRows
          (Text.untilNul id))) ∧
    ∀ (c c' : Candidate) (d d' : Deployment) (s s' : Schedule) (now' : Instant),
      c.StandsFor d s now → c'.StandsFor d' s' now' → d.flowId = d'.flowId → s.id = s'.id →
        c.scheduledAt = c'.scheduledAt → c.run.id = c'.run.id ∧ c.state.id = c'.state.id := by
  refine ⟨fun l tx ht => ?_, fun v c w hwhole hw => ?_, ?_⟩
  · exact generates_of_reads (fun _ => rfl) (fun _ => rfl) ht.listed
      (fun id => (ht.listed id).nodup_ids) r now
  · exact generates_of_reads (fun id => Relational.Database.run_query hwhole rfl)
      (fun id => Relational.Database.run_query hwhole rfl) (fun id => hw.listed (Text.untilNul id))
      (fun id => (hw.listed (Text.untilNul id)).nodup_ids) r now
  · intro c c' d d' s s' now' h h'
    exact h.ids_eq h'

/-- The first hour is generated in either store, a deployment that is missing is reported, and a
candidate that is made a millisecond later has the same ids. -/
theorem generates_in_order_first_hour :
    (∃ x ss, (firstHour.generate ⟨0⟩).run (Keyed.Ledger.copying.busy hourlyTables hourlyTables) =
        (x, Keyed.Ledger.copying.busy hourlyTables hourlyTables) ∧ (∀ s, s ∈ ss ↔ s = hourly) ∧
      Expands plainDeployment ⟨0⟩ (fun g => Earliest 100 (g.InWindow ⟨0⟩ ⟨0⟩)) ss x) ∧
    (∃ x ss, (firstHour.generate ⟨0⟩).run
        ((Relational.Database.copying .current).busy hourlyRows hourlyRows) =
        (x, (Relational.Database.copying .current).busy hourlyRows hourlyRows) ∧
      (∀ s, s ∈ ss ↔ s = hourly) ∧
      Expands plainDeployment ⟨0⟩ (fun g => Earliest 100 (g.InWindow ⟨0⟩ ⟨0⟩)) ss x) ∧
    (∃ e, ((Request.generate ⟨"unknown", none, none, none⟩ ⟨0⟩).run
        (Keyed.Ledger.copying.busy hourlyTables hourlyTables)).1 = .error e ∧
      e.kind = .notFound) ∧
    ∃ c c' : Candidate, c.StandsFor plainDeployment hourly ⟨0⟩ ∧
      c'.StandsFor plainDeployment hourly ⟨1⟩ ∧ c.run.id = c'.run.id := by
  have hexact : ∀ g, hourly.grid = .ok g → g.Exact 100 ⟨0⟩ ⟨0⟩ := by
    rintro _ ⟨⟩
    decide
  obtain ⟨hledger, hdatabase, hids⟩ := generates_in_order firstHour ⟨0⟩
  refine ⟨?_, ?_, ?_, ?_⟩
  · obtain ⟨x, hrun, -, hfound⟩ :=
      hledger ⟨hourlyTables, true⟩ ⟨hourlyTables, .active⟩ wellFormed_hourlyTables
    obtain ⟨ss, hss, hexpands⟩ := hfound plainDeployment rfl
    have hmem : ∀ s, s ∈ ss ↔ s = hourly := fun s => Listed.mem_iff_eq hss rfl
    exact ⟨x, ss, hrun, hmem, (hexpands fun q hq g hg => hexact g ((hmem q).1 hq ▸ hg)).1⟩
  · obtain ⟨x, hrun, -, hfound⟩ := hdatabase .current hourlyRows hourlyRows ⟨rfl, rfl, rfl, rfl⟩
      (List.nodup_singleton _)
    obtain ⟨ss, hss, hexpands⟩ := hfound plainDeployment (by decide)
    have hmem : ∀ s, s ∈ ss ↔ s = hourly := fun s => Listed.mem_iff_eq hss (by decide)
    exact ⟨x, ss, hrun, hmem, (hexpands fun q hq g hg => hexact g ((hmem q).1 hq ▸ hg)).1⟩
  · obtain ⟨x, hrun, hmissing, -⟩ := (generates_in_order ⟨"unknown", none, none, none⟩ ⟨0⟩).1
      ⟨hourlyTables, true⟩ ⟨hourlyTables, .active⟩ wellFormed_hourlyTables
    obtain ⟨e, rfl, hkind⟩ := hmissing.2 rfl
    exact ⟨e, congrArg Prod.fst hrun, hkind⟩
  · obtain ⟨c, hc⟩ := Occurrence.exists_candidate_of_inYears (t := ⟨0⟩) (by decide) plainDeployment
      hourly (Instant.toWord ⟨0⟩)
    obtain ⟨c', hc'⟩ := Occurrence.exists_candidate_of_inYears (t := ⟨0⟩) (by decide)
      plainDeployment hourly (Instant.toWord ⟨1⟩)
    obtain ⟨hat, hstands⟩ := Occurrence.candidate_eq_ok_iff_standsFor.1 hc
    obtain ⟨hat', hstands'⟩ := Occurrence.candidate_eq_ok_iff_standsFor.1 hc'
    exact ⟨c, c', hstands, hstands',
      (hids c c' _ _ _ _ _ hstands hstands' rfl rfl (hat.trans hat'.symm)).1⟩

/-- The tables with a schedule that has the longest interval. -/
def seldomTables : Keyed.Tables :=
  { plainTables with schedules := .insert .empty Schedule.seldom.id Schedule.seldom }

/-- Asks for ten seconds. -/
def tenSeconds : Request := ⟨"known", some ⟨10000⟩, some ⟨20000⟩, none⟩

/-- Where words do not hold the numbers, a candidate may come before the window. -/
theorem generates_before_window : seldomTables.WellFormed ∧ ∃ c,
    (tenSeconds.generate ⟨0⟩).run (Keyed.Ledger.copying.busy seldomTables seldomTables) =
        (.ok [c], Keyed.Ledger.copying.busy seldomTables seldomTables) ∧
      c.scheduledAt = ⟨0⟩ ∧
      ¬ Expands plainDeployment ⟨0⟩ (fun g => Earliest 100 (g.InWindow ⟨10000⟩ ⟨20000⟩))
        (seldomTables.listSchedules "known") (.ok [c]) := by
  have hlist : seldomTables.listSchedules "known" = [Schedule.seldom] :=
    List.mergeSort_singleton Schedule.seldom
  obtain ⟨c, hcandidate⟩ := Occurrence.exists_candidate_of_inYears (t := ⟨0⟩) (by decide)
    plainDeployment Schedule.seldom (Instant.toWord ⟨0⟩)
  have hat := (Occurrence.candidate_eq_ok_iff_standsFor.1 hcandidate).1
  have hone : tenSeconds.ofSchedule ⟨0⟩ plainDeployment Schedule.seldom = .ok [c] := by
    let g : Grid := ⟨⟨0⟩, 9223372036854775000, by decide⟩
    have hgrid : Schedule.seldom.grid = .ok g := Schedule.grid_eq_ok.2 ⟨by decide, rfl, by decide⟩
    have hdates : g.dates tenSeconds.limit (tenSeconds.windowStart ⟨0⟩) (tenSeconds.windowEnd ⟨0⟩) =
      [⟨0⟩] := by decide +kernel
    refine ofSchedule_eq_ok.2 ⟨g, hgrid, mapM_eq_ok_iff.2 ?_⟩
    rw [hdates, List.map_singleton, hcandidate, List.map_singleton]
  have hc : tenSeconds.ofSchedules ⟨0⟩ plainDeployment [Schedule.seldom] = .ok [c] := by
    rw [ofSchedules_cons, hone]
    rfl
  refine ⟨?_, c, ?_, hat, fun h => ?_⟩
  · exact wellFormed_plainTables.insertSchedule (s := Schedule.seldom) rfl
  · show (tenSeconds.ofSchedules ⟨0⟩ plainDeployment (seldomTables.listSchedules "known"),
      Keyed.Ledger.copying.busy seldomTables seldomTables) = _
    rw [hlist, hc]
  · obtain ⟨s, -, -, g, ts, -, hts, hmem⟩ :=
      h.exists_standsFor [c] rfl c (List.mem_singleton_self c)
    obtain ⟨-, hstart, -⟩ := hts.mem _ hmem
    rw [hat] at hstart
    exact absurd hstart (by decide)

end Timetable
