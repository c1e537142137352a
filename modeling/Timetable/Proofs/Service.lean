import Timetable.Proofs.Keyed.Ledger
import Timetable.Proofs.Relational.Backend
import Timetable.Proofs.Scheduling

/-!
# A store that serves calls for as long as it likes

Clients change the catalogue of deployments and schedules, schedule runs and sweep, in any order and
at any times, and any of these calls may fail. What is committed stays sound and never shrinks:
`runs_and_states_always_sound`. A call is a series of transactions, each of which leaves contents that
are later than those before (`Backend.Later`); so do the transactions of a sweep among themselves.
What a sweep has committed half-way is what calls that schedule single deployments leave.
-/

namespace Timetable

/-! ### What an action keeps -/

/-- Whatever an action does, something stays true. -/
def Keeps (I : σ → Prop) (x : Action σ α) : Prop := ∀ s, I s → I (x.run s).2

namespace Keeps

variable {I : σ → Prop}

theorem pure (a : α) : Keeps I (Pure.pure a : Action σ α) := fun _ hs => hs

theorem bind {x : Action σ α} {f : α → Action σ β} (hx : Keeps I x) (hf : ∀ a, Keeps I (f a)) :
    Keeps I (x >>= f) := by
  intro s hs
  have hmid := hx s hs
  rcases hrun : x.run s with ⟨e | a, s'⟩
  · rw [Action.run_bind_of_error hrun]
    rw [hrun] at hmid
    exact hmid
  · rw [Action.run_bind_of_ok hrun]
    rw [hrun] at hmid
    exact hf a s' hmid

theorem attempt {x : Action σ α} (hx : Keeps I x) : Keeps I x.attempt := hx

theorem foldlM {f : β → α → Action σ β} (hf : ∀ b a, Keeps I (f b a)) :
    ∀ (as : List α) (b : β), Keeps I (as.foldlM f b)
  | [], b => pure b
  | a :: as, b => by
    rw [List.foldlM_cons]
    exact bind (hf b a) fun b' => foldlM hf as b'

end Keeps

section Sweep

variable {σ τ : Type} [Repository σ τ] {I : World σ → Prop}
  (hnote : ∀ level message fields, Keeps I (World.note level message fields))
  (hpage : ∀ offset limit,
    Keeps I (World.transact (Repository.listDeployments offset limit : Action (σ × τ) _)))
  (hschedule : ∀ strategy r, Keeps I (scheduleRuns strategy r))

include hnote hschedule in
theorem keeps_sweepDeployment (strategy : LinkStrategy) (o : SweepOptions) (now : Instant) (t : Tally)
    (d : Deployment) : Keeps I (sweepDeployment strategy o now t d) := by
  refine .bind (hschedule strategy _).attempt fun result => ?_
  cases result with
  | ok runs => exact .pure _
  | error e => exact .bind (hnote _ _ _) fun _ => .pure _

include hnote hpage hschedule in
theorem keeps_sweepPages (strategy : LinkStrategy) (o : SweepOptions) (now : Instant) (pages : Nat)
    (offset : UInt64) (t : Tally) : Keeps I (sweepPages strategy o now pages offset t) := by
  induction pages generalizing offset t with
  | zero => exact .pure t
  | succ pages ih =>
    refine .bind (hpage _ _) fun page => ?_
    refine .bind (.foldlM (keeps_sweepDeployment hnote hschedule strategy o now) page t) fun t => ?_
    show Keeps I (if _ then _ else _)
    split
    · exact .pure t
    · exact ih _ _

include hnote hpage hschedule in
/-- What reading pages and scheduling single deployments keep, a sweep keeps. -/
theorem keeps_sweep (strategy : LinkStrategy) (o : SweepOptions) :
    Keeps I (sweep strategy o) := by
  refine .bind (fun _ hw => hw) fun w => ?_
  refine .bind (keeps_sweepPages hnote hpage hschedule strategy o w.now _ 0 _) fun t => ?_
  exact .bind (hnote _ _ _) fun _ => .pure t

end Sweep

/-! ### Contents that get later -/

namespace Backend

variable {σ τ κ : Type} [Repository σ τ] (B : Backend σ κ) {a b c : κ}

/-- Contents are healthy and have every run and every state that others have. -/
structure Later (a b : κ) : Prop where
  healthy : B.Healthy b
  runs_subset : B.runs a ⊆ B.runs b
  states_subset : B.states a ⊆ B.states b

variable {B}

theorem Healthy.later (h : B.Healthy a) : B.Later a a := ⟨h, fun _ hr => hr, fun _ hs => hs⟩

theorem Later.trans (h : B.Later a b) (h' : B.Later b c) : B.Later a c where
  healthy := h'.healthy
  runs_subset := fun _ hr => h'.runs_subset (h.runs_subset hr)
  states_subset := fun _ hs => h'.states_subset (h.states_subset hs)

theorem Grown.later {created : List FlowRun} (h : B.Grown a created b) : B.Later a b where
  healthy := h.healthy
  runs_subset := fun _ hr => h.perm_runs.symm.subset (List.mem_append_left created hr)
  states_subset := h.states_subset

variable (B)

/-- The store is at rest over contents that are later than the given ones. -/
def Since (a : κ) (w : World σ) : Prop := ∃ b, w.store = B.resting b ∧ B.Later a b

variable {B}

/-- A transaction keeps contents late if whatever its body succeeds with does. -/
theorem keeps_transact {body : Action (σ × τ) α}
    (h : ∀ b, B.Healthy b → ∃ x b', body.run (B.busy b b) = (x, B.busy b b') ∧ B.Later b b') :
    Keeps (B.Since a) (World.transact body) := by
  rintro ⟨_, clock, log⟩ ⟨b, rfl, hb⟩
  obtain ⟨x, b', hrun, hb'⟩ := h b hb.healthy
  rw [B.run_transact hrun]
  cases x with
  | ok result => exact ⟨b', rfl, hb.trans hb'⟩
  | error e =>
    -- what the body has done is rolled back
    exact ⟨b, rfl, hb⟩

theorem keeps_note (level : Log.Level) (message : String) (fields : List Log.Field) :
    Keeps (B.Since a) (World.note level message fields) := fun _ hw => hw

theorem keeps_listDeployments (offset : UInt64) (limit : Option UInt64) :
    Keeps (B.Since a) (World.transact (Repository.listDeployments offset limit)) := by
  refine keeps_transact fun b hb => ?_
  obtain ⟨t, ht⟩ := hb.shows
  obtain ⟨page, hrun⟩ := B.run_listDeployments b offset limit ht
  exact ⟨page, b, hrun, hb.later⟩

/-- A change to the catalogue leaves runs and states alone, whether it is refused or not. -/
theorem Healthy.run_demand {b : κ} (hb : B.Healthy b) (context : String) (change : Change) :
    ∃ x b', (demand context change.request).run (B.busy b b) = (x, B.busy b b') ∧ B.Healthy b' ∧
      B.runs b' = B.runs b ∧ B.states b' = B.states b := by
  obtain ⟨t, ht⟩ := hb.shows
  obtain ⟨o, b', t', hrun, ht', hruns, hstates⟩ := B.run_change b change ht
  have hb' : B.Healthy b' := ⟨⟨t', ht'⟩, by rw [hruns, hstates]; exact hb.sound, hruns ▸ hb.named⟩
  cases o with
  | ok done => exact ⟨_, b', run_demand_of_ok hrun, hb', hruns, hstates⟩
  | error e => exact ⟨_, b', run_demand_of_refused hrun, hb', hruns, hstates⟩

theorem keeps_change (context : String) (change : Change) :
    Keeps (B.Since a) (World.transact (demand context change.request)) := by
  refine keeps_transact fun b hb => ?_
  obtain ⟨x, b', hrun, hb', hruns, hstates⟩ := hb.run_demand context change
  exact ⟨x, b', hrun, hb', fun r hr => hruns ▸ hr, fun s hs => hstates ▸ hs⟩

theorem keeps_scheduleRuns (strategy : LinkStrategy) (r : Request) :
    Keeps (B.Since a) (scheduleRuns strategy r) := by
  rintro ⟨_, clock, log⟩ ⟨b, rfl, hb⟩
  obtain ⟨x, b', log', hrun, hstored, hsame⟩ := hb.healthy.run_scheduleRuns strategy r clock log
  rw [hrun]
  cases x with
  | ok created =>
    obtain ⟨cs, -, hadded⟩ := hstored created rfl
    exact ⟨b', rfl, hb.trans hadded.toGrown.later⟩
  | error e => exact ⟨b', rfl, hsame e rfl ▸ hb⟩

end Backend

/-! ### Calls -/

/-- What a client may ask of the service. -/
inductive Call
  | change (context : String) (c : Change)
  | scheduleRuns (strategy : LinkStrategy) (r : Request)
  | sweep (strategy : LinkStrategy) (o : SweepOptions)

/-- Does what a client asks for. -/
def Call.perform [Repository σ τ] : Call → Action (World σ) Unit
  | change context c => World.transact (demand context c.request)
  | scheduleRuns strategy r => do
    let _ ← Timetable.scheduleRuns strategy r
  | sweep strategy o => do
    let _ ← Timetable.sweep strategy o

/-- A call and what the clock reads then. -/
structure Visit where
  call : Call
  clock : Int

/-- Serves a call, which may fail. -/
def serve [Repository σ τ] (w : World σ) (v : Visit) : World σ :=
  (v.call.perform.run { w with clock := v.clock }).2

/-- The store after serving calls one after the other. -/
def storeAfter [Repository σ τ] (start : σ) (visits : List Visit) : σ :=
  (visits.foldl serve ⟨start, 0, []⟩).store

/-- After any calls the runs and states are sound, and further calls take none of them away. -/
def AlwaysSound [Repository σ τ] (start : σ) (runs : σ → List FlowRun)
    (states : σ → List RunState) : Prop :=
  ∀ earlier later : List Visit,
    Sound (runs (storeAfter start earlier)) (states (storeAfter start earlier)) ∧
      runs (storeAfter start earlier) ⊆ runs (storeAfter start (earlier ++ later)) ∧
      states (storeAfter start earlier) ⊆ states (storeAfter start (earlier ++ later))

namespace Backend

variable {σ τ κ : Type} [Repository σ τ] {B : Backend σ κ} {a : κ}

theorem keeps_perform (call : Call) : Keeps (B.Since a) call.perform := by
  cases call with
  | change context c => exact keeps_change context c
  | scheduleRuns strategy r => exact .bind (keeps_scheduleRuns strategy r) fun _ => .pure ()
  | sweep strategy o =>
    have hsweep : Keeps (B.Since a) (Timetable.sweep strategy o) :=
      keeps_sweep keeps_note keeps_listDeployments keeps_scheduleRuns strategy o
    exact .bind hsweep fun _ => .pure ()

theorem Since.foldl_serve {w : World σ} (h : B.Since a w) (visits : List Visit) :
    B.Since a (visits.foldl serve w) := by
  induction visits generalizing w with
  | nil => exact h
  | cons v visits ih =>
    apply ih
    exact keeps_perform v.call _ h

/-- After any calls the store is at rest over later contents. -/
theorem Healthy.storeAfter_eq (h : B.Healthy a) (visits : List Visit) :
    ∃ b, storeAfter (B.resting a) visits = B.resting b ∧ B.Later a b := by
  have hstart : B.Since a ⟨B.resting a, 0, []⟩ := ⟨a, rfl, h.later⟩
  exact hstart.foldl_serve visits

/-- A backend that starts from sound contents is always sound. -/
theorem Healthy.alwaysSound (h : B.Healthy a) {runs : σ → List FlowRun}
    {states : σ → List RunState} (hruns : ∀ b, runs (B.resting b) = B.runs b)
    (hstates : ∀ b, states (B.resting b) = B.states b) :
    AlwaysSound (B.resting a) runs states := by
  intro earlier later
  have hstart : B.Since a ⟨B.resting a, 0, []⟩ := ⟨a, rfl, h.later⟩
  obtain ⟨b, hb, hlater⟩ := hstart.foldl_serve earlier
  -- the later calls start over from what the earlier ones have left
  have hmid : B.Since b (earlier.foldl serve ⟨B.resting a, 0, []⟩) :=
    ⟨b, hb, hlater.healthy.later⟩
  obtain ⟨c, hc, hlater'⟩ := hmid.foldl_serve later
  rw [storeAfter, storeAfter, List.foldl_append, hb, hc, hruns, hstates, hruns, hstates]
  exact ⟨hlater.healthy.sound, hlater'.runs_subset, hlater'.states_subset⟩

end Backend

/-- From an empty store on, whatever is asked of the service, no two runs ever share a key, each run
waits in the one state that it owns, no state is left without its run, and nothing that has been
committed is lost or changed. -/
theorem runs_and_states_always_sound (v : Relational.Version) :
    AlwaysSound Keyed.Ledger.empty (fun l => l.committed.runs.values)
        (fun l => l.committed.states.values) ∧
      AlwaysSound (Relational.Database.connect v ⟨.none, false⟩)
        (fun db => db.file.tables.runRows) (fun db => db.file.tables.stateRows) := by
  constructor
  · have hempty : Keyed.Ledger.backend.Healthy Keyed.Tables.empty :=
      Backend.healthy_of_runs_eq_nil ⟨rfl, Keyed.Tables.wellFormed_empty⟩ rfl
    exact hempty.alwaysSound (fun _ => rfl) fun _ => rfl
  · have hempty : (Relational.Database.backend v).Healthy Relational.Tables.empty :=
      Backend.healthy_of_runs_eq_nil Relational.shows_empty rfl
    exact hempty.alwaysSound (fun _ => rfl) fun _ => rfl

end Timetable
