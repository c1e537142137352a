import Timetable.Proofs.Keyed.WellFormed
import Timetable.Proofs.Occurrence
import Timetable.Proofs.Rfc3339

/-!
# What the key of an occurrence tells

The text of an instant holds no blank, so a key falls into the id of a schedule and the text of an
instant in one way only (`idempotencyKey_eq_iff`). Stored schedules have ids of their own, and
whatever is stored of an occurrence besides comes from its schedule, its deployment, that text and
the time of the call: among the occurrences that tables offer at one time, the key decides
everything (`Keyed.Tables.Offers.eq_of_key`).
-/

namespace Timetable

namespace Occurrence

/-- A key falls into a schedule and the text of an instant in one way. -/
theorem idempotencyKey_eq_iff {s s' : String} {t t' : Instant} :
    idempotencyKey s t = idempotencyKey s' t' ↔ s = s' ∧ Rfc3339.print t = Rfc3339.print t' := by
  refine ⟨fun h => ?_, by rintro ⟨rfl, h⟩; rw [idempotencyKey, idempotencyKey, h]⟩
  rw [idempotencyKey, idempotencyKey, ← String.toList_inj] at h
  simp only [String.toList_append, List.append_assoc, List.append_cancel_left_eq] at h
  have hsplit := eq_and_eq_of_append_cons (Rfc3339.blank_notMem_print t)
    (Rfc3339.blank_notMem_print t') h
  exact ⟨String.toList_inj.1 hsplit.1, String.toList_inj.1 hsplit.2⟩

/-- A schedule yields a candidate at every instant that the details of a state can tell. -/
theorem candidate_eq_ok {d : Deployment} {s : Schedule} {createdAt : UInt64} {t : Instant}
    {c : Candidate} : candidate d s createdAt t = .ok c ↔
      ∃ text, details s.id t = .ok text ∧ c = {
        run := {
          id := runId d.flowId (idempotencyKey s.id t), flowId := d.flowId, deploymentId := d.id
          parameters := s.parameters, idempotencyKey := idempotencyKey s.id t, tags
          scheduleId := s.id, autoScheduled := true, stateId := none, createdAt }
        state := {
          id := initialStateId (runId d.flowId (idempotencyKey s.id t))
          runId := runId d.flowId (idempotencyKey s.id t), kind := RunState.scheduled
          message := scheduledMessage, details := text, createdAt }
        scheduledAt := t } := by
  unfold candidate
  cases details s.id t with
  | error e =>
    constructor
    · intro h
      cases h
    · rintro ⟨_, h, -⟩
      cases h
  | ok text =>
    constructor
    · intro h
      cases h
      exact ⟨text, rfl, rfl⟩
    · rintro ⟨_, h, rfl⟩
      cases h
      rfl

/-- The details of a state can tell the years 1 to 9999 only. -/
theorem dated_of_details {scheduleId text : String} {t : Instant}
    (h : details scheduleId t = .ok text) : Calendar.Dated t.day := by
  rw [details_eq] at h
  split at h
  · next hrange =>
    have hfirst : -62135596800000 ≤ t.millis := hrange.1
    have hlast : t.millis ≤ 253402300799999 := hrange.2
    apply Calendar.dated_of_bounds <;> unfold Instant.day Instant.dayLength <;> omega
  · cases h

section Candidate

variable {d : Deployment} {s : Schedule} {createdAt : UInt64} {t : Instant} {c : Candidate}
  (h : candidate d s createdAt t = .ok c)

include h

theorem scheduledAt_eq : c.scheduledAt = t := by
  obtain ⟨text, -, rfl⟩ := candidate_eq_ok.1 h
  rfl

theorem scheduleId_eq : c.run.scheduleId = s.id := by
  obtain ⟨text, -, rfl⟩ := candidate_eq_ok.1 h
  rfl

theorem key_eq : c.run.key = ⟨d.flowId, idempotencyKey s.id t⟩ := by
  obtain ⟨text, -, rfl⟩ := candidate_eq_ok.1 h
  rfl

theorem state_id_eq : c.state.id = initialStateId c.run.id := by
  obtain ⟨text, -, rfl⟩ := candidate_eq_ok.1 h
  rfl

theorem dated_of_candidate : Calendar.Dated t.day := by
  obtain ⟨text, htext, -⟩ := candidate_eq_ok.1 h
  exact dated_of_details htext

end Candidate

/-- The details of a state tell an instant by its text alone. -/
theorem details_eq_of_print_eq {scheduleId text text' : String} {t t' : Instant}
    (h : details scheduleId t = .ok text) (h' : details scheduleId t' = .ok text')
    (hprint : Rfc3339.print t = Rfc3339.print t') : text = text' := by
  rw [details_eq] at h h'
  split at h
  · split at h'
    · rw [Rfc3339.printZulu_eq_of_print_eq hprint] at h
      exact Except.ok.inj (h.symm.trans h')
    · cases h'
  · cases h

end Occurrence

namespace Keyed.Tables

open OrderedMap

variable {t : Tables} {r : Request} {now : Instant} {cs : List Candidate} {c c' : Candidate}

/-- The candidates that a request asks for. -/
def generate (t : Tables) (r : Request) (now : Instant) : Except Failure (List Candidate) :=
  match t.deployments.get? r.deploymentId with
  | none => .error (.deploymentNotFound r.deploymentId)
  | some d => r.ofSchedules now d (t.listSchedules r.deploymentId)

/-- A candidate is an occurrence of a stored schedule, generated at some time. -/
def Offers (t : Tables) (now : Instant) (c : Candidate) : Prop :=
  ∃ s ∈ t.schedules.values, ∃ d, t.deployments.get? s.deploymentId = some d ∧
    ∃ time, Occurrence.candidate d s now.toWord time = .ok c

theorem mem_listSchedules {s : Schedule} {deploymentId : String} :
    s ∈ t.listSchedules deploymentId ↔ s ∈ t.schedules.values ∧ s.deploymentId = deploymentId := by
  rw [listSchedules, List.mem_mergeSort, List.mem_filter, beq_iff_eq]

/-- Whatever is generated, the tables offer. -/
theorem offers_of_generate (h : t.generate r now = .ok cs) (hc : c ∈ cs) : t.Offers now c := by
  unfold generate at h
  cases hd : t.deployments.get? r.deploymentId with
  | none =>
    rw [hd] at h
    cases h
  | some d =>
    rw [hd] at h
    obtain ⟨s, hs, time, hcandidate⟩ := exists_occurrence h hc
    obtain ⟨hs, hid⟩ := mem_listSchedules.1 hs
    exact ⟨s, hs, d, hid ▸ hd, time, hcandidate⟩

theorem Offers.genuine (h : t.Offers now c) : c.Genuine := by
  obtain ⟨s, -, d, -, time, hcandidate⟩ := h
  exact Candidate.genuine_of_candidate hcandidate

/-- The id of the first state is made from the id of the run. -/
theorem Offers.state_id (h : t.Offers now c) : c.state.id = Occurrence.initialStateId c.run.id := by
  obtain ⟨s, -, d, -, time, hcandidate⟩ := h
  exact Occurrence.state_id_eq hcandidate

theorem WellFormed.schedule_eq (ht : t.WellFormed) {s s' : Schedule} (hs : s ∈ t.schedules.values)
    (hs' : s' ∈ t.schedules.values) (hid : s.id = s'.id) : s = s' := by
  obtain ⟨id, hget⟩ := mem_values.1 hs
  obtain ⟨id', hget'⟩ := mem_values.1 hs'
  have heq : id = id' := by rw [← ht.schedule_id hget, ← ht.schedule_id hget', hid]
  rw [heq, hget'] at hget
  exact (Option.some.inj hget).symm

/-- What tables offer at one time with the same key is stored as the same. -/
theorem Offers.eq_of_key (ht : t.WellFormed) (h : t.Offers now c) (h' : t.Offers now c')
    (hkey : c.run.key = c'.run.key) : c.run = c'.run ∧ c.state = c'.state := by
  obtain ⟨s, hs, d, hd, time, hcandidate⟩ := h
  obtain ⟨s', hs', d', hd', time', hcandidate'⟩ := h'
  obtain ⟨text, htext, rfl⟩ := Occurrence.candidate_eq_ok.1 hcandidate
  obtain ⟨text', htext', rfl⟩ := Occurrence.candidate_eq_ok.1 hcandidate'
  have hparts := Occurrence.idempotencyKey_eq_iff.1 (congrArg RunKey.idempotencyKey hkey)
  obtain rfl := ht.schedule_eq hs hs' hparts.1
  obtain rfl := Option.some.inj (hd.symm.trans hd')
  obtain rfl := Occurrence.details_eq_of_print_eq htext htext' hparts.2
  have hsame : Occurrence.idempotencyKey s.id time = Occurrence.idempotencyKey s.id time' :=
    Occurrence.idempotencyKey_eq_iff.2 ⟨rfl, hparts.2⟩
  simp only [hsame, and_self]

end Keyed.Tables

end Timetable
