import Timetable.Proofs.Catalogue
import Timetable.Proofs.Grid
import Timetable.Proofs.Order

/-!
# Calls that leave no occurrence out

A deployment is scheduled again and again, with windows of one length and one limit, and each call
begins at the latest where the one before has stopped. Then no occurrence is missed and none is
stored twice (`no_occurrence_missed`). What carries the proof is that the stored occurrences of a
schedule are always those from the first call on up to a frontier (`Holding`), the first instant
that the last call has not generated; a call begins no later than at the frontier and moves it on.
-/

namespace Timetable

/-- A run is that of the occurrence of a schedule at an instant, generated at some time. -/
def IsOccurrence (d : Deployment) (s : Schedule) (u : Instant) (r : FlowRun) : Prop :=
  ∃ createdAt c, Occurrence.candidate d s createdAt u = .ok c ∧ c.linkedRun = r

namespace IsOccurrence

variable {d : Deployment} {s : Schedule} {u v : Instant} {r q : FlowRun}

theorem key_eq (h : IsOccurrence d s u r) :
    r.key = ⟨d.flowId, Occurrence.idempotencyKey s.id u⟩ := by
  obtain ⟨createdAt, c, hc, rfl⟩ := h
  exact Occurrence.key_eq hc

theorem dated (h : IsOccurrence d s u r) : Calendar.Dated u.day := by
  obtain ⟨createdAt, c, hc, -⟩ := h
  exact Occurrence.dated_of_candidate hc

/-- Occurrences of a schedule are told by their keys. -/
theorem instant_eq (h : IsOccurrence d s u r) (h' : IsOccurrence d s v q) (hkey : r.key = q.key) :
    u = v := by
  rw [h.key_eq, h'.key_eq] at hkey
  have hprint := (Occurrence.idempotencyKey_eq_iff.1 (congrArg RunKey.idempotencyKey hkey)).2
  exact (Rfc3339.print_inj_of_dated h.dated h'.dated).1 hprint

end IsOccurrence

/-! ### Passes, and what they cover -/

section Found

variable {σ τ : Type} [Repository σ τ]

/-- The deployment that a store finds under an id. -/
def found (store : σ) (id : String) : Except Failure (Option Deployment) :=
  ((World.transact (Repository.findDeployment id : Action (σ × τ) _)).run ⟨store, 0, []⟩).1

/-- The schedules that a store lists for a deployment. -/
def listed (store : σ) (deploymentId : String) : Except Failure (List Schedule) :=
  ((World.transact (Repository.listSchedules deploymentId : Action (σ × τ) _)).run ⟨store, 0, []⟩).1

/-- A deployment is stored, and a schedule with it. -/
def Stands (d : Deployment) (s : Schedule) (store : σ) : Prop :=
  found store d.id = .ok (some d) ∧ ∃ ss, listed store d.id = .ok ss ∧ s ∈ ss

/-- A visit does not schedule a deployment: it changes the catalogue, or schedules another one. -/
def Visit.Elsewhere (d : Deployment) (store : σ) (v : Visit) : Prop :=
  match v.call with
  | .change _ _ => True
  | .scheduleRuns _ r => found store r.deploymentId ≠ .ok (some d)
  | .sweep _ _ => False

end Found

/-- A call that has scheduled a deployment: where its window began, and what it has generated. -/
structure Pass where
  time : Instant
  candidates : List Candidate

namespace Pass

/-- A pass has generated the occurrence of a schedule at an instant. -/
def Generated (p : Pass) (s : Schedule) (u : Instant) : Prop :=
  ∃ c ∈ p.candidates, c.run.scheduleId = s.id ∧ c.scheduledAt = u

/-- The next pass begins no earlier than this one, and no later than at the first occurrence that
this one has not generated. -/
def Before (p : Pass) (s : Schedule) (g : Grid) (next : Instant) : Prop :=
  p.time ≤ next ∧ ∃ missed, g.FirstMissed (p.Generated s) p.time missed ∧ next ≤ missed

end Pass

/-- A deployment is scheduled in passes, with windows of one length and one limit in which no number
is too large for a word, and whatever happens in between happens elsewhere. -/
inductive Passes [Repository σ τ] (d : Deployment) (s : Schedule) (g : Grid) (limit : UInt64)
    (length : Int) (start : σ) : List Pass → σ → Prop
  | start : Passes d s g limit length start [] start
  | elsewhere {passes : List Pass} {store : σ} {v : Visit}
    (h : Passes d s g limit length start passes store) (hstands : Stands d s store)
    (hv : v.Elsewhere d store) :
    Passes d s g limit length start passes (storeAfter store [v])
  | pass {passes : List Pass} {store store' : σ} {job : Job} {p : Pass} {created : List FlowRun}
    (h : Passes d s g limit length start passes store) (hstands : Stands d s store)
    (hnext : ∀ last ∈ passes.getLast?, last.Before s g p.time)
    (hrequest : job.request = ⟨d.id, some p.time, some (p.time.addMillis length), some limit⟩)
    (hexact : g.Exact limit.toNat p.time (p.time.addMillis length))
    (hgenerated : generated store job.request job.clock = .ok p.candidates)
    (hperform : job.perform store = (.ok created, store')) :
    Passes d s g limit length start (passes ++ [p]) store'

/-- The stored occurrences of a schedule are the instants of its grid from `start` on and before
`finish`, each of them once. -/
structure Covered (runs : List FlowRun) (d : Deployment) (s : Schedule) (g : Grid)
    (start finish : Instant) : Prop where
  once : ∀ k, start ≤ g.point k → g.point k < finish → ∃ r,
    runs.filter (·.key == ⟨d.flowId, Occurrence.idempotencyKey s.id (g.point k)⟩) = [r] ∧
      IsOccurrence d s (g.point k) r
  only : ∀ r ∈ runs, r.scheduleId = s.id →
    ∃ k, start ≤ g.point k ∧ g.point k < finish ∧ IsOccurrence d s (g.point k) r
  apart : ∀ r j k, IsOccurrence d s (g.point j) r → IsOccurrence d s (g.point k) r → j = k

/-- From a store without runs of a schedule on, the passes store its occurrences from the first pass
on, up to the first one that the last pass has not generated. -/
def NoneMissed [Repository σ τ] (start : σ) (runs : σ → List FlowRun) (d : Deployment)
    (s : Schedule) (g : Grid) (limit : UInt64) (length : Int) : Prop :=
  (∀ r ∈ runs start, r.scheduleId ≠ s.id) →
    ∀ passes store, Passes d s g limit length start passes store →
      ∀ first ∈ passes.head?, ∀ last ∈ passes.getLast?, ∃ missed,
        g.FirstMissed (last.Generated s) last.time missed ∧
          Covered (runs store) d s g first.time missed

/-! ### The window of a pass -/

/-- A pass has generated the occurrences of a schedule in its window. -/
structure Pass.Windowed (p : Pass) (d : Deployment) (s : Schedule) (g : Grid) (limit : UInt64)
    (length : Int) : Prop where
  exact : g.Exact limit.toNat p.time (p.time.addMillis length)
  generated_iff : ∀ u, p.Generated s u ↔ u ∈ g.dates limit.toNat p.time (p.time.addMillis length)
  isOccurrence : ∀ c ∈ p.candidates, c.run.scheduleId = s.id →
    IsOccurrence d s c.scheduledAt c.linkedRun

namespace Pass.Windowed

variable {p q : Pass} {d : Deployment} {s : Schedule} {g : Grid} {limit : UInt64} {length : Int}
  {missed later : Instant}

theorem firstMissed_iff (hp : p.Windowed d s g limit length) :
    g.FirstMissed (p.Generated s) p.time missed ↔
      g.FirstMissed (· ∈ g.dates limit.toNat p.time (p.time.addMillis length)) p.time missed := by
  rw [show p.Generated s = _ from funext fun u => propext (hp.generated_iff u)]

theorem exists_firstMissed (hp : p.Windowed d s g limit length) :
    ∃ missed, g.FirstMissed (p.Generated s) p.time missed := by
  simp only [hp.firstMissed_iff]
  exact hp.exact.exists_firstMissed

/-- A later pass does not miss an instant before one that an earlier pass has missed. -/
theorem missed_le (hp : p.Windowed d s g limit length) (hq : q.Windowed d s g limit length)
    (h : g.FirstMissed (p.Generated s) p.time missed)
    (h' : g.FirstMissed (q.Generated s) q.time later) (hpq : p.time ≤ q.time) : missed ≤ later :=
  (hp.firstMissed_iff.1 h).mono (hq.firstMissed_iff.1 h') hp.exact hq.exact hpq

/-- What a pass has generated lies between its time and the first instant that it misses. -/
theorem exists_point (hp : p.Windowed d s g limit length)
    (h : g.FirstMissed (p.Generated s) p.time missed) {c : Candidate} (hc : c ∈ p.candidates)
    (hid : c.run.scheduleId = s.id) : ∃ k, p.time ≤ g.point k ∧ g.point k < missed ∧
      IsOccurrence d s (g.point k) c.linkedRun := by
  have hdates := (hp.generated_iff c.scheduledAt).1 ⟨c, hc, hid, rfl⟩
  have hlt := (hp.firstMissed_iff.1 h).lt_of_mem hp.exact hdates
  obtain ⟨k, hk, hle, -⟩ := (Grid.mem_dates_iff hp.exact).1 hdates
  rw [← hk] at hlt
  exact ⟨k, Grid.le_point_iff.2 hle, hlt, hk ▸ hp.isOccurrence c hc hid⟩

end Pass.Windowed

/-! ### Up to a frontier -/

/-- The runs of a schedule are its occurrences from an instant on, up to a frontier. -/
structure Holding (runs : List FlowRun) (d : Deployment) (s : Schedule) (g : Grid)
    (start frontier : Instant) : Prop where
  exists_run : ∀ k, start ≤ g.point k → g.point k < frontier →
    ∃ r ∈ runs, IsOccurrence d s (g.point k) r
  only : ∀ r ∈ runs, r.scheduleId = s.id →
    ∃ k, start ≤ g.point k ∧ g.point k < frontier ∧ IsOccurrence d s (g.point k) r

namespace Holding

variable {runs runs' created : List FlowRun} {d : Deployment} {s : Schedule} {g : Grid}
  {start frontier missed : Instant}

/-- Without runs of the schedule, the frontier is where it starts. -/
theorem of_none (h : ∀ r ∈ runs, r.scheduleId ≠ s.id) (start : Instant) :
    Holding runs d s g start start where
  exists_run k hle hlt := by
    rw [← Instant.not_le] at hlt
    exact absurd hle hlt
  only r hr hid := absurd hid (h r hr)

/-- Runs of other schedules do not matter. -/
theorem elsewhere (h : Holding runs d s g start frontier) (hperm : runs'.Perm (runs ++ created))
    (hcreated : ∀ r ∈ created, r.scheduleId ≠ s.id) : Holding runs' d s g start frontier where
  exists_run k hle hlt := by
    obtain ⟨r, hr, hoccurrence⟩ := h.exists_run k hle hlt
    exact ⟨r, hperm.mem_iff.2 (List.mem_append_left created hr), hoccurrence⟩
  only r hr hid := by
    rcases List.mem_append.1 (hperm.mem_iff.1 hr) with hr | hr
    · exact h.only r hr hid
    · exact absurd hid (hcreated r hr)

/-- Since no key is stored twice, neither is an occurrence. -/
theorem covered (h : Holding runs d s g start frontier) (hkeys : (runs.map FlowRun.key).Nodup) :
    Covered runs d s g start frontier where
  once k hle hlt := by
    obtain ⟨r, hr, hoccurrence⟩ := h.exists_run k hle hlt
    refine ⟨r, ?_, hoccurrence⟩
    rw [← hoccurrence.key_eq]
    exact filter_of_nodup_map hkeys hr
  only := h.only
  apart r j k hj hk := Grid.point_inj.1 (hj.instant_eq hk rfl)

section Advance

variable {σ τ κ : Type} [Repository σ τ] {B : Backend σ κ} {w w' : κ} {p : Pass} {limit : UInt64}
  {length : Int}

/-- A pass that begins no later than at the frontier moves it to the first instant it misses. -/
theorem advance (h : Holding (B.runs w) d s g start frontier)
    (hadded : B.Added w p.candidates created w') (htimed : ∀ r ∈ B.runs w', r.Timed)
    (hp : p.Windowed d s g limit length) (hmissed : g.FirstMissed (p.Generated s) p.time missed)
    (hstart : start ≤ p.time) (htime : p.time ≤ frontier) (hfrontier : frontier ≤ missed) :
    Holding (B.runs w') d s g start missed := by
  have honly : ∀ r ∈ B.runs w', r.scheduleId = s.id →
      ∃ k, start ≤ g.point k ∧ g.point k < missed ∧ IsOccurrence d s (g.point k) r := by
    intro r hr hid
    rcases List.mem_append.1 (hadded.perm_runs.mem_iff.1 hr) with hr | hr
    · obtain ⟨k, hle, hlt, hoccurrence⟩ := h.only r hr hid
      exact ⟨k, hle, Int.lt_of_lt_of_le hlt hfrontier, hoccurrence⟩
    · obtain ⟨c, hc, rfl⟩ := hadded.exists_candidate r hr
      obtain ⟨k, hle, hlt, hoccurrence⟩ := hp.exists_point hmissed hc hid
      exact ⟨k, Int.le_trans hstart hle, hlt, hoccurrence⟩
  refine ⟨fun k hle hlt => ?_, honly⟩
  by_cases hold : g.point k < frontier
  · obtain ⟨r, hr, hoccurrence⟩ := h.exists_run k hle hold
    exact ⟨r, hadded.perm_runs.mem_iff.2 (List.mem_append_left created hr), hoccurrence⟩
  · rw [← Instant.not_le, Classical.not_not] at hold
    obtain ⟨c, hc, hid, hat⟩ := hmissed.taken_of_lt k (Int.le_trans htime hold) hlt
    have hoccurrence : IsOccurrence d s (g.point k) c.linkedRun := hat ▸ hp.isOccurrence c hc hid
    -- its key is stored, and whichever run has that key is of this schedule and at this instant
    obtain ⟨r, hr, hkey⟩ := hadded.exists_run c hc
    have hkey : r.key = c.linkedRun.key := hkey
    obtain ⟨u, hu⟩ := htimed r hr
    have hrid : r.scheduleId = s.id := by
      have hparts := congrArg RunKey.idempotencyKey (hkey.trans hoccurrence.key_eq)
      exact (Occurrence.idempotencyKey_eq_iff.1 (hu.symm.trans hparts)).1
    obtain ⟨j, -, -, hoccurrence'⟩ := honly r hr hrid
    rw [← hoccurrence'.instant_eq hoccurrence hkey]
    exact ⟨r, hr, hoccurrence'⟩

end Advance

end Holding

/-! ### One step -/

namespace Backend

variable {σ τ κ : Type} [Repository σ τ] {B : Backend σ κ} {c c' : κ} {d : Deployment}
  {s : Schedule} {g : Grid} {limit : UInt64} {length : Int} {passes : List Pass} {p : Pass}
  {created : List FlowRun}

variable (B) in
/-- How far passes have got: the contents hold the occurrences from the first pass on, up to the
first that the last pass has missed. -/
structure Progress (d : Deployment) (s : Schedule) (g : Grid) (limit : UInt64) (length : Int)
    (passes : List Pass) (c : κ) : Prop where
  healthy : B.Healthy c
  none : passes = [] → ∀ r ∈ B.runs c, r.scheduleId ≠ s.id
  holding : ∀ first ∈ passes.head?, ∀ last ∈ passes.getLast?, first.time ≤ last.time ∧
    last.Windowed d s g limit length ∧ ∃ missed,
      g.FirstMissed (last.Generated s) last.time missed ∧
        Holding (B.runs c) d s g first.time missed

namespace Progress

theorem elsewhere (h : B.Progress d s g limit length passes c) (hc' : B.Healthy c')
    (hperm : (B.runs c').Perm (B.runs c ++ created))
    (hcreated : ∀ r ∈ created, r.scheduleId ≠ s.id) :
    B.Progress d s g limit length passes c' where
  healthy := hc'
  none hnil r hr := by
    rcases List.mem_append.1 (hperm.mem_iff.1 hr) with hr | hr
    · exact h.none hnil r hr
    · exact hcreated r hr
  holding first hfirst last hlast := by
    obtain ⟨hle, hwindowed, missed, hmissed, hholding⟩ := h.holding first hfirst last hlast
    exact ⟨hle, hwindowed, missed, hmissed, hholding.elsewhere hperm hcreated⟩

theorem pass (h : B.Progress d s g limit length passes c)
    (hadded : B.Added c p.candidates created c') (htimed : ∀ r ∈ B.runs c', r.Timed)
    (hp : p.Windowed d s g limit length)
    (hnext : ∀ last ∈ passes.getLast?, last.Before s g p.time) :
    B.Progress d s g limit length (passes ++ [p]) c' where
  healthy := hadded.healthy
  none hnil := by simp at hnil
  holding first hfirst last hlast := by
    obtain ⟨missed, hmissed⟩ := hp.exists_firstMissed
    obtain rfl : p = last := by simpa using hlast
    cases passes with
    | nil =>
      obtain rfl : p = first := by simpa using hfirst
      have hholding := Holding.of_none (d := d) (g := g) (h.none rfl) p.time
      exact ⟨Int.le_refl _, hp, missed, hmissed, hholding.advance hadded htimed hp hmissed
        (Int.le_refl _) (Int.le_refl _) hmissed.start_le⟩
    | cons q passes =>
      obtain rfl : q = first := by simpa using hfirst
      obtain ⟨before, hbefore⟩ : ∃ before, (q :: passes).getLast? = some before :=
        ⟨_, List.getLast?_eq_some_getLast (List.cons_ne_nil q passes)⟩
      obtain ⟨hle, hwindowed, frontier, hfrontier, hholding⟩ := h.holding q rfl before hbefore
      obtain ⟨hlater, missed', hmissed', hreached⟩ := hnext before hbefore
      obtain rfl := hmissed'.unique hfrontier
      exact ⟨Int.le_trans hle hlater, hp, missed, hmissed, hholding.advance hadded htimed hp hmissed
        (Int.le_trans hle hlater) hreached
        (hwindowed.missed_le hp hfrontier hmissed hlater)⟩

end Progress

namespace Catalogue

variable (C : B.Catalogue) {store' : σ} {r : Request} {job : Job} {v : Visit}

theorem found_eq (h : B.Healthy c) (id : String) :
    found (B.resting c) id = .ok (C.deployment c id) := by
  obtain ⟨t, ht⟩ := h.shows
  rw [found, B.run_transact (C.run_findDeployment c id ht)]

theorem listed_eq (h : B.Healthy c) (id : String) :
    listed (B.resting c) id = .ok (C.schedules c id) := by
  obtain ⟨t, ht⟩ := h.shows
  rw [listed, B.run_transact (C.run_listSchedules c id ht)]

theorem stands_iff (h : B.Healthy c) : Stands d s (B.resting c) ↔
    C.deployment c d.id = some d ∧ s ∈ C.schedules c d.id := by
  simp [Stands, C.found_eq h, C.listed_eq h]

/-- What is generated belongs to the deployment and the schedules that are found. -/
theorem exists_ofSchedules (h : B.Healthy c) {now : Instant} {cs : List Candidate}
    (hgenerate : (r.generate now).run (B.busy c c) = (.ok cs, B.busy c c)) : ∃ d,
    C.deployment c r.deploymentId = some d ∧
      r.ofSchedules now d (C.schedules c r.deploymentId) = .ok cs := by
  obtain ⟨t, ht⟩ := h.shows
  have hfind := C.run_findDeployment c r.deploymentId ht
  cases hd : C.deployment c r.deploymentId with
  | none =>
    rw [hd] at hfind
    rw [Request.generate, Action.run_bind_of_ok hfind] at hgenerate
    cases hgenerate
  | some d =>
    rw [hd] at hfind
    rw [run_generate_of_some hfind (C.run_listSchedules c r.deploymentId ht)] at hgenerate
    exact ⟨d, rfl, congrArg Prod.fst hgenerate⟩

/-- Candidates of a schedule that is found with its deployment are its occurrences in the window. -/
theorem windowed (h : B.Healthy c) (hs : s ∈ C.schedules c d.id) (hgrid : s.grid = .ok g)
    (hexact : g.Exact limit.toNat p.time (p.time.addMillis length)) {now : Instant}
    (hcs : Request.ofSchedules ⟨d.id, some p.time, some (p.time.addMillis length), some limit⟩ now d
      (C.schedules c d.id) = .ok p.candidates) : p.Windowed d s g limit length := by
  obtain ⟨t, ht⟩ := h.shows
  -- a candidate with the id of the schedule is one of this schedule
  have hofs : ∀ a ∈ p.candidates, a.run.scheduleId = s.id →
      ∃ u ∈ g.dates limit.toNat p.time (p.time.addMillis length),
        Occurrence.candidate d s now.toWord u = .ok a := by
    intro a ha hid
    obtain ⟨s', hs', g', hgrid', u, hu, hcandidate⟩ := (mem_ofSchedules_iff hcs).1 ha
    obtain rfl : s' = s :=
      C.schedule_eq ht hs' hs ((Occurrence.scheduleId_eq hcandidate).symm.trans hid)
    obtain rfl : g' = g := Except.ok.inj (hgrid'.symm.trans hgrid)
    exact ⟨u, hu, hcandidate⟩
  refine ⟨hexact, fun u => ⟨?_, fun hu => ?_⟩, fun a ha hid => ?_⟩
  · rintro ⟨a, ha, hid, rfl⟩
    obtain ⟨u, hu, hcandidate⟩ := hofs a ha hid
    rw [Occurrence.scheduledAt_eq hcandidate]
    exact hu
  · obtain ⟨a, ha, hcandidate⟩ := exists_candidate hcs hs hgrid hu
    exact ⟨a, ha, Occurrence.scheduleId_eq hcandidate, Occurrence.scheduledAt_eq hcandidate⟩
  · obtain ⟨u, hu, hcandidate⟩ := hofs a ha hid
    rw [Occurrence.scheduledAt_eq hcandidate]
    exact ⟨_, a, hcandidate, rfl⟩

include C in
/-- A request that finds another deployment asks for no occurrence of the schedule. -/
theorem scheduleId_ne (h : B.Healthy c) (hstands : Stands d s (B.resting c))
    (hfound : found (B.resting c) r.deploymentId ≠ .ok (some d)) {now : Instant}
    {cs : List Candidate} (hgenerate : (r.generate now).run (B.busy c c) = (.ok cs, B.busy c c)) :
    ∀ a ∈ cs, a.run.scheduleId ≠ s.id := by
  intro a ha hid
  obtain ⟨t, ht⟩ := h.shows
  obtain ⟨hd, hs⟩ := (C.stands_iff h).1 hstands
  obtain ⟨d', hd', hcs⟩ := C.exists_ofSchedules h hgenerate
  obtain ⟨s', hs', -, -, u, -, hcandidate⟩ := (mem_ofSchedules_iff hcs).1 ha
  -- the schedule would be listed for two deployments
  obtain rfl : s' = s :=
    C.schedule_eq ht hs' hs ((Occurrence.scheduleId_eq hcandidate).symm.trans hid)
  apply hfound
  rw [C.found_eq h, C.deployment_eq ht hs' hs, hd]

include C in
/-- A call elsewhere stores no runs of the schedule. -/
theorem exists_elsewhere (h : B.Healthy c) (hstands : Stands d s (B.resting c))
    (hv : v.Elsewhere d (B.resting c)) : ∃ c' created, storeAfter (B.resting c) [v] = B.resting c' ∧
      B.Healthy c' ∧ (B.runs c').Perm (B.runs c ++ created) ∧
      ∀ r ∈ created, r.scheduleId ≠ s.id := by
  obtain ⟨call, clock⟩ := v
  cases call with
  | change context change =>
    obtain ⟨x, c', hrun, hc', hruns, -⟩ := h.run_demand context change
    have hstore : storeAfter (B.resting c) [⟨.change context change, clock⟩] =
        B.resting (Copying.settled x c c') :=
      congrArg (fun y => y.2.store) (B.run_transact hrun clock [])
    rw [hstore]
    cases x with
    | ok done => exact ⟨c', [], rfl, hc', by simp [hruns], by simp⟩
    | error e => exact ⟨c, [], rfl, h, by simp, by simp⟩
  | scheduleRuns strategy r =>
    obtain ⟨x, c', log, hrun, hstored, hsame⟩ := h.run_scheduleRuns strategy r clock []
    have hstore : storeAfter (B.resting c) [⟨.scheduleRuns strategy r, clock⟩] = B.resting c' := by
      show ((Timetable.scheduleRuns strategy r >>= fun _ => pure ()).run
        ⟨B.resting c, clock, []⟩).2.store = _
      cases x with
      | error e => rw [Action.run_bind_of_error hrun]
      | ok created =>
        rw [Action.run_bind_of_ok hrun]
        rfl
    rw [hstore]
    cases x with
    | error e => exact ⟨c', [], rfl, hsame e rfl ▸ h, by simp [hsame e rfl], by simp⟩
    | ok created =>
      obtain ⟨cs, hgenerate, hadded⟩ := hstored created rfl
      refine ⟨c', created, rfl, hadded.healthy, hadded.perm_runs, fun q hq => ?_⟩
      obtain ⟨a, ha, rfl⟩ := hadded.exists_candidate q hq
      exact C.scheduleId_ne h hstands hv hgenerate a ha
  | sweep strategy o => exact hv.elim

include C in
/-- A call that succeeds has stored what it has generated. -/
theorem exists_pass (h : B.Healthy c) (hstands : Stands d s (B.resting c)) (hgrid : s.grid = .ok g)
    (hrequest : job.request = ⟨d.id, some p.time, some (p.time.addMillis length), some limit⟩)
    (hexact : g.Exact limit.toNat p.time (p.time.addMillis length))
    (hgenerated : generated (B.resting c) job.request job.clock = .ok p.candidates)
    (hperform : job.perform (B.resting c) = (.ok created, store')) : ∃ c',
    store' = B.resting c' ∧ B.Added c p.candidates created c' ∧ p.Windowed d s g limit length := by
  obtain ⟨hd, hs⟩ := (C.stands_iff h).1 hstands
  obtain ⟨x, c', log, hrun, hstored, -⟩ := h.run_scheduleRuns job.strategy job.request job.clock []
  rw [Job.perform, hrun] at hperform
  obtain ⟨rfl, rfl⟩ := Prod.mk.inj hperform
  obtain ⟨cs, hgenerate, hadded⟩ := hstored created rfl
  obtain rfl : cs = p.candidates := by
    rw [generated, B.run_transact hgenerate] at hgenerated
    exact Except.ok.inj hgenerated
  obtain ⟨d', hd', hcs⟩ := C.exists_ofSchedules h hgenerate
  rw [hrequest] at hd' hcs
  obtain rfl : d = d' := Option.some.inj (hd.symm.trans hd')
  exact ⟨c', rfl, hadded, C.windowed h hs hgrid hexact hcs⟩

/-! ### A whole run -/

include C in
/-- However many passes are made, they make progress. -/
theorem progress (htimed : ∀ {c}, B.Healthy c → ∀ r ∈ B.runs c, r.Timed) (h : B.Healthy c)
    (hnone : ∀ r ∈ B.runs c, r.scheduleId ≠ s.id) (hgrid : s.grid = .ok g)
    (hpasses : Passes d s g limit length (B.resting c) passes store') : ∃ c',
    store' = B.resting c' ∧ B.Progress d s g limit length passes c' := by
  induction hpasses with
  | start => exact ⟨c, rfl, h, fun _ => hnone, by simp⟩
  | elsewhere _ hstands hv ih =>
    obtain ⟨a, rfl, ha⟩ := ih
    obtain ⟨b, created, hstore, hb, hperm, hcreated⟩ := C.exists_elsewhere ha.healthy hstands hv
    exact ⟨b, hstore, ha.elsewhere hb hperm hcreated⟩
  | pass _ hstands hnext hrequest hexact hgenerated hperform ih =>
    obtain ⟨a, rfl, ha⟩ := ih
    obtain ⟨b, rfl, hadded, hwindowed⟩ :=
      C.exists_pass ha.healthy hstands hgrid hrequest hexact hgenerated hperform
    exact ⟨b, rfl, ha.pass hadded (htimed hadded.healthy) hwindowed hnext⟩

include C in
theorem noneMissed (htimed : ∀ {c}, B.Healthy c → ∀ r ∈ B.runs c, r.Timed) (h : B.Healthy c)
    {runs : σ → List FlowRun} (hruns : ∀ c, runs (B.resting c) = B.runs c) (origin : List Visit)
    (hgrid : s.grid = .ok g) (limit : UInt64) (length : Int) :
    NoneMissed (storeAfter (B.resting c) origin) runs d s g limit length := by
  obtain ⟨a, hstore, ha⟩ := h.storeAfter_eq origin
  rw [hstore]
  intro hnone passes store hpasses first hfirst last hlast
  rw [hruns] at hnone
  obtain ⟨b, rfl, hb⟩ := C.progress htimed ha.healthy hnone hgrid hpasses
  obtain ⟨-, -, missed, hmissed, hholding⟩ := hb.holding first hfirst last hlast
  refine ⟨missed, hmissed, ?_⟩
  rw [hruns]
  exact hholding.covered hb.healthy.sound.nodup_keys

end Catalogue

end Backend

/-- Whatever has happened before, and whatever happens elsewhere in between, no occurrence is missed
between successive calls that schedule a deployment, in either store: those that are stored are all
from the time of the first call on, up to the first that the last call has not generated. -/
theorem no_occurrence_missed (v : Relational.Version) (origin : List Visit) {d : Deployment}
    {s : Schedule} {g : Grid} (hgrid : s.grid = .ok g) (limit : UInt64) (length : Int) :
    NoneMissed (storeAfter Keyed.Ledger.empty origin) (fun l => l.committed.runs.values) d s g limit
        length ∧
      NoneMissed (storeAfter (Relational.Database.connect v ⟨.none, false⟩) origin)
        (fun db => db.file.tables.runRows) d s g limit length := by
  constructor
  · have hempty : Keyed.Ledger.backend.timed.Healthy Keyed.Tables.empty :=
      Backend.healthy_of_runs_eq_nil ⟨⟨rfl, Keyed.Tables.wellFormed_empty⟩, fun _ hr => nomatch hr⟩
        rfl
    exact Keyed.Ledger.catalogue.noneMissed Backend.Healthy.timed hempty (fun _ => rfl) origin hgrid
      limit length
  · have hempty : (Relational.Database.orderly v).timed.Healthy Relational.Tables.empty :=
      Backend.healthy_of_runs_eq_nil
        ⟨⟨Relational.shows_empty, List.nodup_nil⟩, fun _ hr => nomatch hr⟩ rfl
    exact (Relational.Database.catalogue v).noneMissed Backend.Healthy.timed hempty (fun _ => rfl)
      origin hgrid limit length

/-! ### A pass that is made twice -/

open Keyed.Tables

/-- A call for one occurrence at the start of 1970. -/
def oneHourJob : Job :=
  ⟨.updateJoin, ⟨"known", some ⟨0⟩, some (Instant.addMillis ⟨0⟩ 0), some 1⟩, 0⟩

theorem exists_ofSchedules_oneHour : ∃ c,
    oneHourJob.request.ofSchedules oneHourJob.now plainDeployment [hourly] = .ok [c] ∧
      c.run.scheduleId = hourly.id ∧ c.scheduledAt = ⟨0⟩ := ⟨_, rfl, rfl, by decide⟩

theorem exact_oneHour : hours.Exact 1 ⟨0⟩ (Instant.addMillis ⟨0⟩ 0) := by decide

/-- A call for one occurrence misses the next hour first. -/
theorem firstMissed_oneHour {c : Candidate} (hid : c.run.scheduleId = hourly.id)
    (hat : c.scheduledAt = ⟨0⟩) :
    hours.FirstMissed (Pass.Generated ⟨⟨0⟩, [c]⟩ hourly) ⟨0⟩ ⟨3600000⟩ where
  on_grid := ⟨1, rfl⟩
  start_le := by decide
  not_taken := by
    rintro ⟨a, ha, -, hat'⟩
    rw [List.mem_singleton.1 ha, hat] at hat'
    cases hat'
  taken_of_lt k hle hlt := by
    have hzero : (0 : Int) ≤ 0 + k * 3600000 := hle
    have hhour : 0 + k * 3600000 < 3600000 := hlt
    obtain rfl : k = 0 := by omega
    exact ⟨c, List.mem_singleton_self c, hid, hat⟩

/-- A call for one occurrence goes on with the passes, if the tables take its candidate. -/
theorem Passes.oneHour {start : Keyed.Ledger} {passes : List Pass} {t : Keyed.Tables}
    (h : Passes plainDeployment hourly hours 1 0 start passes ⟨t, false⟩) (ht : t.WellFormed)
    (hdeployments : t.deployments = hourlyTables.deployments)
    (hschedules : t.schedules = hourlyTables.schedules) {c : Candidate} {created : List FlowRun}
    (hc : oneHourJob.request.ofSchedules oneHourJob.now plainDeployment [hourly] = .ok [c])
    (hok : (t.materialize .updateJoin [c]).1 = .ok created)
    (hnext : ∀ last ∈ passes.getLast?, last.Before hourly hours ⟨0⟩) :
    Passes plainDeployment hourly hours 1 0 start (passes ++ [⟨⟨0⟩, [c]⟩])
      ⟨(t.materialize .updateJoin [c]).2, false⟩ := by
  have hfind : t.deployments.get? "known" = some plainDeployment := by rw [hdeployments]; rfl
  have hlist : t.listSchedules "known" = [hourly] := by
    rw [Keyed.Tables.listSchedules, hschedules]
    exact List.mergeSort_singleton hourly
  have hgenerate : t.generate oneHourJob.request oneHourJob.now = .ok [c] :=
    (generate_hourly hdeployments hschedules rfl _).trans hc
  have hstands : Stands plainDeployment hourly (⟨t, false⟩ : Keyed.Ledger) :=
    ⟨congrArg Except.ok hfind, [hourly], congrArg Except.ok hlist, List.mem_singleton_self hourly⟩
  have hperform : oneHourJob.perform (⟨t, false⟩ : Keyed.Ledger) =
      (.ok created, ⟨(t.materialize .updateJoin [c]).2, false⟩) := by
    rw [Keyed.Ledger.perform_eq ht, Keyed.Tables.perform_of_ok hgenerate hok]
    rfl
  refine h.pass hstands hnext rfl exact_oneHour ?_ hperform
  rw [Keyed.Ledger.generated_eq]
  exact hgenerate

/-- The hour is stored once, though it is asked for twice. -/
theorem no_occurrence_missed_first_hour : ∃ passes store,
    Passes plainDeployment hourly hours 1 0 (storeAfter Keyed.Ledger.empty hourlyVisits) passes
        store ∧
      passes.length = 2 ∧
      Covered store.committed.runs.values plainDeployment hourly hours ⟨0⟩ ⟨3600000⟩ := by
  obtain ⟨c, hc, hid, hat⟩ := exists_ofSchedules_oneHour
  have hmissed := firstMissed_oneHour hid hat
  have hbefore : Pass.Before ⟨⟨0⟩, [c]⟩ hourly hours ⟨0⟩ :=
    ⟨Int.le_refl _, ⟨3600000⟩, hmissed, hmissed.start_le⟩
  obtain ⟨created, hok⟩ :=
    exists_materialize_singleton wellFormed_hourlyTables rfl rfl .updateJoin c
  have ht := wellFormed_hourlyTables.materialize hok
  have hagain : ((hourlyTables.materialize .updateJoin [c]).2.materialize .updateJoin [c]).1 =
      .ok [] :=
    congrArg Prod.fst (materialize_of_settled (settled_materialize wellFormed_hourlyTables hok) ht)
  have hu := materialized_of_ok wellFormed_hourlyTables hok
  have hone := Passes.start.oneHour wellFormed_hourlyTables rfl rfl hc hok (by simp)
  have htwo := hone.oneHour ht hu.deployments_eq hu.schedules_eq hc hagain (by simpa using hbefore)
  have hnone : ∀ r ∈ (storeAfter Keyed.Ledger.empty hourlyVisits).committed.runs.values,
      r.scheduleId ≠ hourly.id := fun r hr => nomatch hr
  obtain ⟨missed, hmissed', hcovered⟩ := (no_occurrence_missed .current hourlyVisits grid_hourly 1
    0).1 hnone _ _ htwo _ rfl _ rfl
  obtain rfl := hmissed'.unique hmissed
  exact ⟨_, _, htwo, rfl, hcovered⟩

end Timetable
