import Timetable.Proofs.Keyed.Batches
import Timetable.Proofs.Keyed.Links

/-!
# Times that fit a signed word

Keyed tables order records by the times at which they were made, read as numbers without a sign. As
long as only times below 2^63 come in (`Tables.Timely`), a store that reads them as signed numbers
orders the records in the same way.
-/

namespace Timetable

/-- A word that is the same number with a sign and without: it is below 2^63. -/
def SignFree (n : UInt64) : Prop := n.toNat < 9223372036854775808

instance (n : UInt64) : Decidable (SignFree n) :=
  inferInstanceAs (Decidable (n.toNat < 9223372036854775808))

namespace Keyed

open OrderedMap

namespace Tables

/-- The times of what is stored fit a signed word. -/
structure Timely (t : Tables) : Prop where
  schedules : ∀ s ∈ t.schedules.values, SignFree s.createdAt
  runs : ∀ r ∈ t.runs.values, SignFree r.createdAt
  states : ∀ s ∈ t.states.values, SignFree s.createdAt

theorem timely_empty : empty.Timely := by
  constructor <;> simp [empty]

namespace Timely

variable {t u : Tables}

theorem insertDeployment (ht : t.Timely) {d : Deployment} (h : t.insertDeployment d = .ok u) :
    u.Timely := by
  obtain ⟨-, -, rfl⟩ := insertDeployment_eq_ok.1 h
  exact { ht with }

theorem deleteDeployment (ht : t.Timely) {id : String} (h : t.deleteDeployment id = .ok u) :
    u.Timely := by
  obtain ⟨d, -, rfl⟩ := deleteDeployment_eq_ok.1 h
  exact { ht with schedules := fun s hs => ht.schedules s (mem_values_filter.1 hs).1 }

theorem insertSchedule (ht : t.Timely) {s : Schedule} (hs : SignFree s.createdAt)
    (h : t.insertSchedule s = .ok u) : u.Timely := by
  obtain ⟨-, hid, -, rfl⟩ := insertSchedule_eq_ok.1 h
  refine { ht with schedules := fun q hq => ?_ }
  rcases (mem_values_insert hid).1 hq with hq | rfl
  · exact ht.schedules q hq
  · exact hs

theorem deleteSchedule (ht : t.Timely) {id : String} (h : t.deleteSchedule id = .ok u) :
    u.Timely := by
  obtain ⟨-, rfl⟩ := deleteSchedule_eq_ok.1 h
  exact { ht with schedules := fun s hs => ht.schedules s (mem_values_of_erase hs) }

theorem insertRun (ht : t.Timely) {r : FlowRun} (hr : SignFree r.createdAt)
    (h : t.insertRun r = .ok u) : u.Timely := by
  rcases insertRun_eq_ok.1 h with ⟨-, rfl⟩ | ⟨-, hid, rfl⟩
  · exact ht
  · refine { ht with runs := fun q hq => ?_ }
    rcases (mem_values_insert hid).1 hq with hq | rfl
    · exact ht.runs q hq
    · exact hr

theorem insertState (ht : t.Timely) {s : RunState} (hs : SignFree s.createdAt)
    (h : t.insertState s = .ok u) : u.Timely := by
  obtain ⟨-, hid, rfl⟩ := insertState_eq_ok.1 h
  refine { ht with states := fun q hq => ?_ }
  rcases (mem_values_insert hid).1 hq with hq | rfl
  · exact ht.states q hq
  · exact hs

theorem insertRuns (ht : t.Timely) {rs : List FlowRun}
    (hrs : ∀ r ∈ rs, SignFree r.createdAt) : (t.insertRuns rs).2.Timely :=
  insertRuns_keeps (fun r hr ht h => ht.insertRun (hrs r hr) h) ht

theorem insertStates (ht : t.Timely) {ss : List RunState}
    (hss : ∀ s ∈ ss, SignFree s.createdAt) : (t.insertStates ss).2.Timely :=
  insertStates_keeps (fun s hs ht h => ht.insertState (hss s hs) h) ht

theorem linkStates (ht : t.Timely) (strategy : LinkStrategy) (ids : List String) :
    (t.linkStates strategy ids).Timely := by
  refine linkStates_keeps (fun runId stateId ht => ?_) strategy ids ht
  refine { ht with runs := fun r hr => ?_ }
  obtain ⟨q, hq, rfl | rfl⟩ := mem_values_modify hr
  · exact ht.runs r hq
  · exact ht.runs q hq

end Timely

end Tables

end Keyed

end Timetable
