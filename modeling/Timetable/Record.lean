import Timetable.Instant
import Timetable.OrderedMap

/-!
# What is stored

A deployment of a flow has schedules; a schedule yields flow runs; a flow run passes through states.
`FlowRun.stateId` names the state that a run is in. Runs of one flow are told apart by their
idempotency keys, so `FlowRun.key` is what makes a run this run and no other.
-/

namespace Timetable

/-- A flow made ready to run under a name. -/
structure Deployment where
  id : String
  name : String
  flowId : String
  createdAt : UInt64
deriving DecidableEq, Repr, Inhabited

/-- A recurrence at which a deployment runs, and the parameters of those runs. -/
structure Schedule where
  id : String
  deploymentId : String
  intervalSeconds : UInt64
  anchor : Instant
  parameters : String
  createdAt : UInt64
deriving DecidableEq, Repr, Inhabited

/-- The flow and the idempotency key of a run. -/
structure RunKey where
  flowId : String
  idempotencyKey : String
deriving DecidableEq, Repr, Inhabited

namespace RunKey

/-- Keys are ordered by flow and then by idempotency key. -/
instance : LT RunKey :=
  ⟨fun a b => a.flowId < b.flowId ∨ a.flowId = b.flowId ∧ a.idempotencyKey < b.idempotencyKey⟩

instance : DecidableLT RunKey := fun a b =>
  inferInstanceAs (Decidable (a.flowId < b.flowId ∨
    a.flowId = b.flowId ∧ a.idempotencyKey < b.idempotencyKey))

instance : KeyOrder RunKey where
  irrefl a h := by
    rcases h with h | ⟨_, h⟩
    · exact KeyOrder.irrefl _ h
    · exact KeyOrder.irrefl _ h
  trans {a b c} h h' := by
    rcases h with h | ⟨e, h⟩ <;> rcases h' with h' | ⟨e', h'⟩
    · exact .inl (KeyOrder.trans h h')
    · exact .inl (e' ▸ h)
    · exact .inl (e ▸ h')
    · exact .inr ⟨e.trans e', KeyOrder.trans h h'⟩
  eq_of_not_lt {a b} h h' := by
    have hflow : a.flowId = b.flowId :=
      KeyOrder.eq_of_not_lt (fun l => h (.inl l)) (fun l => h' (.inl l))
    have hkey : a.idempotencyKey = b.idempotencyKey :=
      KeyOrder.eq_of_not_lt (fun l => h (.inr ⟨hflow, l⟩)) (fun l => h' (.inr ⟨hflow.symm, l⟩))
    cases a
    cases b
    simp_all

end RunKey

/-- One run of a flow. -/
structure FlowRun where
  id : String
  flowId : String
  deploymentId : String
  parameters : String
  idempotencyKey : String
  tags : String
  scheduleId : String
  autoScheduled : Bool
  stateId : Option String
  createdAt : UInt64
deriving DecidableEq, Repr, Inhabited

/-- What no two stored runs share. -/
def FlowRun.key (r : FlowRun) : RunKey := ⟨r.flowId, r.idempotencyKey⟩

/-- A state that a run has been in. -/
structure RunState where
  id : String
  runId : String
  kind : Int
  message : String
  details : String
  createdAt : UInt64
deriving DecidableEq, Repr, Inhabited

/-- The kind of a state in which a run waits for its time. -/
def RunState.scheduled : Int := 1

/-- A run that may come to be stored, with its first state and the time it stands for. -/
structure Candidate where
  run : FlowRun
  state : RunState
  scheduledAt : Instant
deriving DecidableEq, Repr, Inhabited

namespace Candidate

/-- The run of a candidate before it has a state. -/
def unlinkedRun (c : Candidate) : FlowRun := { c.run with stateId := none }

/-- The first state of a candidate, owned by its run. -/
def firstState (c : Candidate) : RunState := { c.state with runId := c.run.id }

/-- The run of a candidate in its first state. -/
def linkedRun (c : Candidate) : FlowRun := { c.run with stateId := some c.state.id }

end Candidate

end Timetable
