import Timetable.Proofs.Texts

/-!
# What is generated

Whatever a request yields is the occurrence of one of the schedules that it was given
(`exists_occurrence`), so its run has the id that its key determines and its first state waits for
its time (`Candidate.Genuine`).
-/

namespace Timetable

open Text

/-- A candidate has the id that its key determines, and it is to be scheduled. -/
structure Candidate.Genuine (c : Candidate) : Prop where
  id_eq : c.run.id = Occurrence.runId c.run.flowId c.run.idempotencyKey
  kind_eq : c.state.kind = RunState.scheduled

theorem Candidate.genuine_of_candidate {d : Deployment} {s : Schedule} {createdAt : UInt64}
    {t : Instant} {c : Candidate} (h : Occurrence.candidate d s createdAt t = .ok c) :
    c.Genuine := by
  unfold Occurrence.candidate at h
  cases hdetails : Occurrence.details s.id t with
  | error e =>
    rw [hdetails] at h
    cases h
  | ok text =>
    rw [hdetails] at h
    cases h
    exact ⟨rfl, rfl⟩

theorem nulFree_candidate {d : Deployment} {s : Schedule} {createdAt : UInt64} {t : Instant}
    {c : Candidate} (hd : ∀ x ∈ d.texts, NulFree x) (hs : ∀ x ∈ s.texts, NulFree x)
    (h : Occurrence.candidate d s createdAt t = .ok c) : ∀ x ∈ c.texts, NulFree x := by
  unfold Occurrence.candidate at h
  cases hdetails : Occurrence.details s.id t with
  | error e =>
    rw [hdetails] at h
    cases h
  | ok text =>
    rw [hdetails] at h
    cases h
    have htext := nulFree_details hdetails
    simp only [Deployment.texts, Schedule.texts, List.forall_mem_cons] at hd hs
    obtain ⟨hdid, -, hflow, -⟩ := hd
    obtain ⟨hsid, -, hparameters, -⟩ := hs
    have hkey : NulFree (Occurrence.idempotencyKey s.id t) := by
      simp only [Occurrence.idempotencyKey, nulFree_append_iff, nulFree_print, hsid]
      decide
    simp only [Candidate.texts, FlowRun.texts, RunState.texts, Option.toList_none, List.append_nil,
      List.cons_append, List.nil_append, List.forall_mem_cons]
    refine ⟨nulFree_uuid _, hflow, hdid, hparameters, hkey, by decide, hsid, nulFree_uuid _,
      nulFree_uuid _, by decide, htext, by simp⟩

/-- To collect from a list is to succeed at each of its elements. -/
theorem mapM_eq_ok_iff {α β ε : Type} {f : α → Except ε β} {as : List α} {bs : List β} :
    as.mapM f = .ok bs ↔ as.map f = bs.map .ok := by
  induction as generalizing bs with
  | nil =>
    cases bs with
    | nil => exact iff_of_true rfl rfl
    | cons b bs => exact iff_of_false (fun h => by cases h) (fun h => by cases h)
  | cons a as ih =>
    rw [List.mapM_cons, List.map_cons]
    cases hfa : f a with
    | error e =>
      refine iff_of_false (fun h => by cases h) fun h => ?_
      cases bs <;> cases h
    | ok b =>
      cases hfas : as.mapM f with
      | error e =>
        refine iff_of_false (fun h => by cases h) fun h => ?_
        cases bs with
        | nil => cases h
        | cons c cs => cases hfas.symm.trans (ih.2 (List.cons.inj h).2)
      | ok cs =>
        rw [ih.1 hfas, ← List.map_cons, List.map_inj_right fun _ _ h => Except.ok.inj h]
        exact ⟨Except.ok.inj, congrArg Except.ok⟩

section Collect

variable {α β ε : Type} {f : α → Except ε β} {as : List α} {bs : List β}

/-- What is collected from a list comes from an element of it. -/
theorem mem_iff_of_mapM (h : as.mapM f = .ok bs) {b : β} : b ∈ bs ↔ ∃ a ∈ as, f a = .ok b := by
  rw [← List.mem_map, mapM_eq_ok_iff.1 h]
  simp

/-- Every element of a list yields something that is collected. -/
theorem exists_of_mapM (h : as.mapM f = .ok bs) {a : α} (ha : a ∈ as) :
    ∃ b ∈ bs, f a = .ok b := by
  have hfa : f a ∈ bs.map Except.ok := mapM_eq_ok_iff.1 h ▸ List.mem_map_of_mem ha
  obtain ⟨b, hb, hfa⟩ := List.mem_map.1 hfa
  exact ⟨b, hb, hfa.symm⟩

end Collect

section Request

variable {r : Request} {now : Instant} {d : Deployment} {s : Schedule} {ss : List Schedule}
  {c : Candidate} {cs : List Candidate}

theorem ofSchedule_eq_ok : r.ofSchedule now d s = .ok cs ↔ ∃ g, s.grid = .ok g ∧
    (g.dates r.limit (r.windowStart now) (r.windowEnd now)).mapM
      (Occurrence.candidate d s now.toWord) = .ok cs := by
  unfold Request.ofSchedule
  cases s.grid with
  | error e => exact iff_of_false (fun h => by cases h) (fun ⟨_, h, _⟩ => by cases h)
  | ok g => exact ⟨fun h => ⟨g, rfl, h⟩, fun ⟨_, hg, h⟩ => Except.ok.inj hg ▸ h⟩

theorem ofSchedules_eq_ok : r.ofSchedules now d ss = .ok cs ↔
    ∃ lists, ss.mapM (r.ofSchedule now d) = .ok lists ∧ lists.flatten = cs := by
  unfold Request.ofSchedules
  cases ss.mapM (r.ofSchedule now d) with
  | error e => exact iff_of_false (fun h => by cases h) (fun ⟨_, h, _⟩ => by cases h)
  | ok lists =>
    refine ⟨fun h => ⟨lists, rfl, Except.ok.inj h⟩, ?_⟩
    rintro ⟨_, hlists, rfl⟩
    cases hlists
    rfl

/-- The candidates of a request are the occurrences of its schedules in its window. -/
theorem mem_ofSchedules_iff (h : r.ofSchedules now d ss = .ok cs) : c ∈ cs ↔
    ∃ s ∈ ss, ∃ g, s.grid = .ok g ∧ ∃ t ∈ g.dates r.limit (r.windowStart now) (r.windowEnd now),
      Occurrence.candidate d s now.toWord t = .ok c := by
  obtain ⟨lists, hlists, rfl⟩ := ofSchedules_eq_ok.1 h
  simp only [List.mem_flatten, mem_iff_of_mapM hlists]
  constructor
  · rintro ⟨l, ⟨s, hs, hl⟩, hc⟩
    obtain ⟨g, hg, hdates⟩ := ofSchedule_eq_ok.1 hl
    exact ⟨s, hs, g, hg, (mem_iff_of_mapM hdates).1 hc⟩
  · rintro ⟨s, hs, g, hg, t, ht, hc⟩
    obtain ⟨l, -, hl⟩ := exists_of_mapM hlists hs
    obtain ⟨g', hg', hdates⟩ := ofSchedule_eq_ok.1 hl
    obtain rfl : g = g' := Except.ok.inj (hg.symm.trans hg')
    exact ⟨l, ⟨s, hs, hl⟩, (mem_iff_of_mapM hdates).2 ⟨t, ht, hc⟩⟩

/-- No occurrence in the window of a request is left out. -/
theorem exists_candidate (h : r.ofSchedules now d ss = .ok cs) (hs : s ∈ ss) {g : Grid}
    (hg : s.grid = .ok g) {t : Instant}
    (ht : t ∈ g.dates r.limit (r.windowStart now) (r.windowEnd now)) :
    ∃ c ∈ cs, Occurrence.candidate d s now.toWord t = .ok c := by
  obtain ⟨lists, hlists, rfl⟩ := ofSchedules_eq_ok.1 h
  obtain ⟨l, hl, hofs⟩ := exists_of_mapM hlists hs
  obtain ⟨g', hg', hdates⟩ := ofSchedule_eq_ok.1 hofs
  obtain rfl : g = g' := Except.ok.inj (hg.symm.trans hg')
  obtain ⟨c, hc, hcandidate⟩ := exists_of_mapM hdates ht
  exact ⟨c, List.mem_flatten.2 ⟨l, hl, hc⟩, hcandidate⟩

end Request

/-- Every candidate of a request is the occurrence of a schedule at an instant. -/
theorem exists_occurrence {r : Request} {now : Instant} {d : Deployment} {ss : List Schedule}
    {cs : List Candidate} (h : r.ofSchedules now d ss = .ok cs) {c : Candidate} (hc : c ∈ cs) :
    ∃ s ∈ ss, ∃ t, Occurrence.candidate d s now.toWord t = .ok c := by
  obtain ⟨s, hs, g, -, t, -, hcandidate⟩ := (mem_ofSchedules_iff h).1 hc
  exact ⟨s, hs, t, hcandidate⟩

/-- Generating reads a deployment and its schedules and changes nothing. What is generated is
genuine and made of the texts that were read. -/
theorem run_generate [Repository σ τ] {r : Request} {s : σ × τ} {d : Option Deployment}
    {ss : List Schedule} (hfind : (Repository.findDeployment r.deploymentId).run s = (.ok d, s))
    (hlist : (Repository.listSchedules r.deploymentId).run s = (.ok ss, s)) (now : Instant) :
    ∃ x, (r.generate now).run s = (x, s) ∧ ∀ cs, x = .ok cs → ∀ c ∈ cs, c.Genuine ∧
      ((∀ d' ∈ d, ∀ x ∈ d'.texts, NulFree x) → (∀ q ∈ ss, ∀ x ∈ q.texts, NulFree x) →
        ∀ x ∈ c.texts, NulFree x) := by
  rw [Request.generate, Action.run_bind_of_ok hfind]
  cases d with
  | none => exact ⟨.error (.deploymentNotFound r.deploymentId), rfl, by simp⟩
  | some d =>
    rw [Action.run_bind_of_ok hlist]
    refine ⟨r.ofSchedules now d ss, rfl, fun cs h c hc => ?_⟩
    obtain ⟨q, hq, t, hcandidate⟩ := exists_occurrence h hc
    refine ⟨Candidate.genuine_of_candidate hcandidate, fun hd hss => ?_⟩
    exact nulFree_candidate (hd d rfl) (hss q hq) hcandidate

end Timetable
