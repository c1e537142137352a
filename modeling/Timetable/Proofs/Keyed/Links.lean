import Timetable.Proofs.Keyed.WellFormed

/-!
# Runs pointed at their states

Linking points each owner of a listed state at that state and does nothing else. If no run owns two
of the listed states (`Tables.OnePerRun`), both strategies do the same, whatever the order and the
number of times in which states are listed: `get?_runs_linkStates`. One strategy goes through the
listed states and writes to their owners, the other goes through the owners and searches the states
of each; the two searches meet in `Tables.listedState`.
-/

namespace Timetable

/-- A run pointed at a state, or left alone if there is none. -/
def FlowRun.pointAt (r : FlowRun) : Option String → FlowRun
  | some id => { r with stateId := some id }
  | none => r

theorem FlowRun.pointAt_pointAt (r : FlowRun) (a b : Option String) :
    (r.pointAt a).pointAt b = r.pointAt (b.or a) := by
  cases a <;> cases b <;> rfl

@[simp] theorem FlowRun.id_pointAt (r : FlowRun) (a : Option String) : (r.pointAt a).id = r.id := by
  cases a <;> rfl

namespace Keyed.Tables

open OrderedMap

variable {t : Tables}

/-- No run owns two different ones of the listed states. -/
def OnePerRun (t : Tables) (ids : List String) : Prop :=
  ∀ a ∈ ids, ∀ b ∈ ids, ∀ s q, t.states.get? a = some s → t.states.get? b = some q →
    s.runId = q.runId → a = b

/-- The state of a run that is listed; of several, the oldest. -/
def listedState (t : Tables) (ids : List String) (runId : String) : Option String :=
  (t.stateIds runId).find? (· ∈ ids)

/-- Whether a run owns a state. -/
def owns (t : Tables) (runId id : String) : Bool := (t.states.get? id).any (·.runId == runId)

theorem owns_iff {runId id : String} :
    t.owns runId id = true ↔ ∃ s, t.states.get? id = some s ∧ s.runId = runId := by
  rw [owns, Option.any_eq_true]
  simp

theorem WellFormed.owns_iff (ht : t.WellFormed) {runId id : String} :
    t.owns runId id = true ↔ id ∈ t.stateIds runId := by
  rw [Tables.owns_iff, ht.mem_stateIds]

theorem OnePerRun.eq_of_owns {ids : List String} (h : t.OnePerRun ids) {runId a b : String}
    (ha : a ∈ ids) (hb : b ∈ ids) (hra : t.owns runId a = true) (hrb : t.owns runId b = true) :
    a = b := by
  obtain ⟨s, hs, hsr⟩ := Tables.owns_iff.1 hra
  obtain ⟨q, hq, hqr⟩ := Tables.owns_iff.1 hrb
  exact h a ha b hb s q hs hq (hsr.trans hqr.symm)

/-- A state is found for a run as soon as one of the run's states is listed. -/
theorem listedState_eq_none_iff (ht : t.WellFormed) {ids : List String} {runId : String} :
    t.listedState ids runId = none ↔ ∀ a ∈ ids, t.owns runId a = false := by
  rw [listedState, List.find?_eq_none]
  simp only [decide_eq_true_eq, ← ht.owns_iff, ← Bool.not_eq_true]
  exact ⟨fun h a ha hr => h a hr ha, fun h a hr ha => h a ha hr⟩

theorem listedState_eq_some_iff (ht : t.WellFormed) {ids : List String} (h : t.OnePerRun ids)
    {runId a : String} :
    t.listedState ids runId = some a ↔ a ∈ ids ∧ t.owns runId a = true := by
  constructor
  · intro ha
    refine ⟨by simpa using List.find?_some ha, ?_⟩
    rw [ht.owns_iff]
    exact List.mem_of_find?_eq_some ha
  · rintro ⟨ha, hr⟩
    cases hb : t.listedState ids runId with
    | none =>
      rw [(listedState_eq_none_iff ht).1 hb a ha] at hr
      cases hr
    | some b =>
      have hb' : b ∈ ids := by simpa using List.find?_some hb
      have hrb : t.owns runId b = true := ht.owns_iff.2 (List.mem_of_find?_eq_some hb)
      rw [h.eq_of_owns hb' ha hrb hr]

/-! ### One run at a time -/

theorem get?_runs_setState (t : Tables) (runId id : String) (stateId : Option String) :
    (t.setState runId stateId).runs.get? id =
      if id = runId then (t.runs.get? id).map fun r => { r with stateId } else t.runs.get? id :=
  get?_modify _ _ _ _

/-- What setting the state of one run keeps, linking keeps. -/
theorem linkStates_keeps {P : Tables → Prop}
    (hstep : ∀ {t : Tables} runId stateId, P t → P (t.setState runId stateId))
    (strategy : LinkStrategy) (ids : List String) (ht : P t) : P (t.linkStates strategy ids) := by
  -- either strategy is a fold that sets the state of a run or does nothing
  have hfold : ∀ (f : Tables → String → Tables) (l : List String), (∀ u a, P u → P (f u a)) →
      ∀ u, P u → P (l.foldl f u) := by
    intro f l hf
    induction l with
    | nil => exact fun u hu => hu
    | cons a l ih => exact fun u hu => ih _ (hf u a hu)
  cases strategy with
  | updateJoin =>
    refine hfold linkOwner ids (fun u a hu => ?_) t ht
    unfold linkOwner
    split
    · exact hstep _ _ hu
    · exact hu
  | correlatedSubquery =>
    exact hfold (linkRun ids) (t.owners ids) (fun u a hu => hstep _ _ hu) t ht

theorem WellFormed.linkStates (ht : t.WellFormed) (strategy : LinkStrategy) (ids : List String) :
    (t.linkStates strategy ids).WellFormed :=
  linkStates_keeps (fun runId stateId ht => ht.setState runId stateId) strategy ids ht

/-- Linking changes nothing but the runs. -/
theorem linkStates_frame (t : Tables) (strategy : LinkStrategy) (ids : List String) :
    ∃ runs, t.linkStates strategy ids = { t with runs } := by
  refine linkStates_keeps (P := fun u => ∃ runs, u = { t with runs }) ?_ strategy ids ⟨_, rfl⟩
  rintro _ runId stateId ⟨runs, rfl⟩
  exact ⟨_, rfl⟩

/-! ### From the states to their owners -/

theorem get?_runs_linkOwner (t : Tables) (a id : String) :
    (t.linkOwner a).runs.get? id =
      (t.runs.get? id).map (·.pointAt (if t.owns id a then some a else none)) := by
  rw [linkOwner, owns]
  cases hs : t.states.get? a with
  | none => simp [FlowRun.pointAt]
  | some s =>
    simp only [get?_runs_setState, Option.any_some, beq_iff_eq]
    by_cases h : id = s.runId
    · simp [h, FlowRun.pointAt]
    · simp [h, Ne.symm h, FlowRun.pointAt]

theorem owns_linkOwner (t : Tables) (a id b : String) : (t.linkOwner a).owns id b = t.owns id b := by
  unfold linkOwner
  split <;> rfl

/-- Of the listed states of a run, the last one stays. -/
theorem get?_runs_foldl_linkOwner (t : Tables) (ids : List String) (id : String) :
    (ids.foldl linkOwner t).runs.get? id =
      (t.runs.get? id).map (·.pointAt (ids.filter (t.owns id)).getLast?) := by
  induction ids generalizing t with
  | nil => simp [FlowRun.pointAt]
  | cons a ids ih =>
    have howns : (t.linkOwner a).owns id = t.owns id := funext (owns_linkOwner t a id)
    rw [List.foldl_cons, ih, get?_runs_linkOwner, Option.map_map, howns]
    congr 1
    funext r
    rw [Function.comp_apply, FlowRun.pointAt_pointAt, List.filter_cons]
    split
    · rw [List.getLast?_cons]
      cases (ids.filter (t.owns id)).getLast? <;> rfl
    · rw [Option.or_none]

/-! ### From the owners to their states -/

theorem mem_owners {ids : List String} {id : String} :
    id ∈ t.owners ids ↔ ∃ a ∈ ids, t.owns id a = true := by
  rw [owners, mem_keys, contains_foldl (p := fun a => t.owns id a = true)]
  · simp
  · intro m a
    rw [owns]
    cases t.states.get? a with
    | none => simp
    | some s => simp [contains_insert, or_comm, @eq_comm _ id]

theorem get?_runs_foldl_linkRun (t : Tables) (ids os : List String) (id : String) :
    (os.foldl (linkRun ids) t).runs.get? id =
      if id ∈ os then (t.runs.get? id).map fun r => { r with stateId := t.listedState ids id }
      else t.runs.get? id := by
  induction os generalizing t with
  | nil => simp
  | cons o os ih =>
    -- setting the state of a run changes no state, so each owner finds the same state at its turn
    have hlisted : (linkRun ids t o).listedState ids id = t.listedState ids id := rfl
    rw [List.foldl_cons, ih, hlisted, linkRun, get?_runs_setState]
    by_cases ho : id = o
    · subst ho
      by_cases hos : id ∈ os
      · cases t.runs.get? id <;> simp [hos, listedState]
      · simp [hos, listedState]
    · simp [ho]

/-! ### Both strategies -/

/-- Linking points every run at the listed state that it owns, and leaves the others alone. -/
theorem get?_runs_linkStates (ht : t.WellFormed) {ids : List String} (h : t.OnePerRun ids)
    (strategy : LinkStrategy) (id : String) :
    (t.linkStates strategy ids).runs.get? id =
      (t.runs.get? id).map (·.pointAt (t.listedState ids id)) := by
  cases strategy with
  | updateJoin =>
    -- all listed states of the run are one, so it does not matter that the last one stays
    have hlast : (ids.filter (t.owns id)).getLast? = t.listedState ids id := by
      ext a
      rw [listedState_eq_some_iff ht h]
      refine ⟨fun ha => List.mem_filter.1 (List.mem_of_getLast? ha), ?_⟩
      rintro ⟨ha, hr⟩
      cases hb : (ids.filter (t.owns id)).getLast? with
      | none =>
        rw [List.getLast?_eq_none_iff, List.filter_eq_nil_iff] at hb
        exact absurd hr (hb a ha)
      | some b =>
        obtain ⟨hb', hrb⟩ := List.mem_filter.1 (List.mem_of_getLast? hb)
        rw [h.eq_of_owns hb' ha hrb hr]
    rw [linkStates, get?_runs_foldl_linkOwner, hlast]
  | correlatedSubquery =>
    rw [linkStates, get?_runs_foldl_linkRun]
    cases hs : t.listedState ids id with
    | none =>
      rw [listedState_eq_none_iff ht] at hs
      rw [if_neg]
      · simp [FlowRun.pointAt]
      · rw [mem_owners]
        rintro ⟨a, ha, hr⟩
        rw [hs a ha] at hr
        cases hr
    | some a =>
      obtain ⟨ha, hr⟩ := (listedState_eq_some_iff ht h).1 hs
      rw [if_pos (mem_owners.2 ⟨a, ha, hr⟩)]
      rfl

theorem OnePerRun.of_subset {ids others : List String} (h : t.OnePerRun ids)
    (hsub : others ⊆ ids) : t.OnePerRun others :=
  fun a ha b hb => h a (hsub ha) b (hsub hb)

/-- The listed state of a run stands in one of the two parts of the list. -/
theorem listedState_append (ht : t.WellFormed) {as bs : List String}
    (h : t.OnePerRun (as ++ bs)) (runId : String) :
    t.listedState (as ++ bs) runId = (t.listedState bs runId).or (t.listedState as runId) := by
  have has : t.OnePerRun as := h.of_subset (List.subset_append_left as bs)
  have hbs : t.OnePerRun bs := h.of_subset (List.subset_append_right as bs)
  ext a
  rw [listedState_eq_some_iff ht h, List.mem_append, Option.or_eq_some_iff,
    listedState_eq_some_iff ht hbs, listedState_eq_some_iff ht has, listedState_eq_none_iff ht]
  constructor
  · rintro ⟨ha | ha, hr⟩
    · -- the later part goes first, but what it lists for the run can only be the same state
      by_cases hb : ∃ b ∈ bs, t.owns runId b = true
      · obtain ⟨b, hb, hrb⟩ := hb
        have hab : a = b := h.eq_of_owns (List.mem_append_left _ ha) (List.mem_append_right _ hb)
          hr hrb
        exact .inl ⟨hab ▸ hb, hr⟩
      · refine .inr ⟨fun b hb' => ?_, ha, hr⟩
        rw [← Bool.not_eq_true]
        exact fun hrb => hb ⟨b, hb', hrb⟩
    · exact .inl ⟨ha, hr⟩
  · rintro (⟨hb, hr⟩ | ⟨-, ha, hr⟩)
    · exact ⟨.inr hb, hr⟩
    · exact ⟨.inl ha, hr⟩

/-- Linking some states and then others is linking all of them. -/
theorem linkStates_append (ht : t.WellFormed) {as bs : List String} (h : t.OnePerRun (as ++ bs))
    (strategy : LinkStrategy) :
    (t.linkStates strategy as).linkStates strategy bs = t.linkStates strategy (as ++ bs) := by
  have has : t.OnePerRun as := h.of_subset (List.subset_append_left as bs)
  have hbs : t.OnePerRun bs := h.of_subset (List.subset_append_right as bs)
  have hfirst := get?_runs_linkStates ht has strategy
  have hwf := ht.linkStates strategy as
  obtain ⟨runs₁, h₁⟩ := linkStates_frame t strategy as
  rw [h₁] at hfirst hwf ⊢
  have hbs' : Tables.OnePerRun { t with runs := runs₁ } bs := hbs
  have hsecond := get?_runs_linkStates hwf hbs' strategy
  obtain ⟨runs₂, h₂⟩ := linkStates_frame { t with runs := runs₁ } strategy bs
  have hboth := get?_runs_linkStates ht h strategy
  obtain ⟨runs₃, h₃⟩ := linkStates_frame t strategy (as ++ bs)
  -- all that is linked differs from `t` in the runs alone
  rw [h₂] at hsecond ⊢
  rw [h₃] at hboth ⊢
  have hruns : runs₂ = runs₃ := by
    refine ext_get? fun id => ?_
    rw [hsecond, hfirst, hboth, listedState_append ht h, Option.map_map]
    congr 1
    funext r
    exact r.pointAt_pointAt _ _
  rw [hruns]

end Keyed.Tables

end Timetable
