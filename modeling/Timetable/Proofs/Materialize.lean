import Timetable.Proofs.Keyed.Materialize

/-!
# Storing candidates in a store that follows keyed tables

`Tracks` says that a store does what keyed tables do in each of the steps of which `materialize`
consists. Then it does so in all of them together: `Tracks.run_materialize`. What the steps have in
common is that the tables tell how they end, so nothing has to be known about the store itself. Only
the last step may end otherwise: a store refuses to link by a strategy that it does not know, and so
it stores nothing (`Ending`).
-/

namespace Timetable

open Keyed.Tables

/-- A store and the tables that it follows do the same; if they refuse, then for causes that belong
together. -/
inductive Alike (E : Refusal → Refusal → Prop) : Outcome → Outcome → Prop
  | done : Alike E (.ok ()) (.ok ())
  | refused {e e' : Refusal} (h : E e e') : Alike E (.error e) (.error e')

/-- Two results are the same, or failures to do the same thing for causes that belong together. -/
inductive AlikeResult (E : Refusal → Refusal → Prop) :
    Except Failure α → Except Failure α → Prop
  | done (a : α) : AlikeResult E (.ok a) (.ok a)
  | refused (context : String) {e e' : Refusal} (h : E e e') :
    AlikeResult E (.error (.refused context e)) (.error (.refused context e'))

theorem AlikeResult.eq {r r' : Except Failure α} (h : AlikeResult Eq r r') : r = r' := by
  cases h with
  | done => rfl
  | refused context h => rw [h]

theorem AlikeResult.mono {E E' : Refusal → Refusal → Prop} (hE : ∀ e e', E e e' → E' e e')
    {r r' : Except Failure α} (h : AlikeResult E r r') : AlikeResult E' r r' := by
  cases h with
  | done a => exact .done a
  | refused context h => exact .refused context (hE _ _ h)

theorem AlikeResult.eq_ok {E : Refusal → Refusal → Prop} {r r' : Except Failure α} {a : α}
    (h : AlikeResult E r r') : r = .ok a ↔ r' = .ok a := by
  cases h with
  | done => exact Iff.rfl
  | refused => simp

/-- How storing candidates ends for a store if it ends as `told` for the tables that the store
follows: alike, or with a refusal to link what the tables have stored. A store that knows how to
link does not refuse, and without runs there is nothing to refuse. -/
inductive Ending (R : β → Keyed.Tables → Prop) (E : Refusal → Refusal → Prop) (knows : Prop)
    (told : Except Failure (List FlowRun) × Keyed.Tables) :
    Except Failure (List FlowRun) → β → Prop
  | alike {r s} (h : AlikeResult E r told.1) (hR : R s told.2)
    (hlinks : knows ∨ ∀ created, told.1 = .ok created → created = []) : Ending R E knows told r s
  | unlinked {s created} (hknows : ¬ knows) (htold : told.1 = .ok created) (hsome : created ≠ [])
    (e : Refusal) : Ending R E knows told (.error (.refused "link initial states" e)) s

namespace Ending

variable {R : β → Keyed.Tables → Prop} {R' : γ → Keyed.Tables → Prop}
  {E E' : Refusal → Refusal → Prop} {knows : Prop}
  {told : Except Failure (List FlowRun) × Keyed.Tables} {r : Except Failure (List FlowRun)}
  {s : β} {s' : γ}

theorem mono (h : Ending R E knows told r s) (hE : ∀ e e', E e e' → E' e e')
    (hR : R s told.2 → R' s' told.2) : Ending R' E' knows told r s' := by
  cases h with
  | alike h hs hlinks => exact .alike (h.mono hE) (hR hs) hlinks
  | unlinked hknows htold hsome e => exact .unlinked hknows htold hsome e

/-- What a store returns is what the tables return, and it has not linked it without knowing how. -/
theorem of_ok {created : List FlowRun} (h : Ending R E knows told (.ok created) s) :
    told.1 = .ok created ∧ R s told.2 ∧ (knows ∨ created = []) := by
  cases h with
  | alike h hR hlinks =>
    have htold : told.1 = .ok created := by
      generalize told.1 = result at h
      cases h
      rfl
    exact ⟨htold, hR, hlinks.imp_right fun hnil => hnil created htold⟩

/-- A store that can link whatever is new ends as the tables do. -/
theorem of_links (h : Ending R E knows told r s)
    (hlinks : knows ∨ ∀ created, told.1 = .ok created → created = []) :
    AlikeResult E r told.1 ∧ R s told.2 := by
  cases h with
  | alike h hR => exact ⟨h, hR⟩
  | unlinked hknows htold hsome =>
    rcases hlinks with hlinks | hnil
    · exact absurd hlinks hknows
    · exact absurd (hnil _ htold) hsome

end Ending

/-- A store follows keyed tables: while `R` relates the two, each step of storing candidates that
`fits` accepts ends alike for both, and `R` relates what the step has made of them. It links by the
strategies that it knows and refuses to link by others. -/
structure Tracks [Repository σ τ] (R : σ × τ → Keyed.Tables → Prop)
    (E : Refusal → Refusal → Prop) (fits : Candidate → Prop) (knows : LinkStrategy → Prop) :
    Prop where
  wellFormed : ∀ {s t}, R s t → t.WellFormed
  insertRuns : ∀ {s t} {cs : List Candidate}, R s t → (∀ c ∈ cs, fits c) → ∃ o s',
    (Repository.insertRuns (submitted cs)).run s = (.ok o, s') ∧
      Alike E o (t.insertRuns (submitted cs)).1 ∧ R s' (t.insertRuns (submitted cs)).2
  statelessRunIds : ∀ {s t} {cs : List Candidate}, R s t → (∀ c ∈ cs, fits c) → ∃ ids,
    (Repository.statelessRunIds (cs.map fun c => c.run.id)).run s = (.ok (.ok (), ids), s) ∧
      ∀ id, id ∈ ids ↔ id ∈ t.statelessRunIds (cs.map fun c => c.run.id)
  insertStates : ∀ {s t} {cs : List Candidate}, R s t → (∀ c ∈ cs, fits c) → ∃ o s',
    (Repository.insertStates (cs.map Candidate.firstState)).run s = (.ok o, s') ∧
      Alike E o (t.insertStates (cs.map Candidate.firstState)).1 ∧
      R s' (t.insertStates (cs.map Candidate.firstState)).2
  linkStates : ∀ {s t} {cs : List Candidate} {strategy}, knows strategy → R s t →
    (∀ c ∈ cs, fits c) → t.OnePerRun (cs.map fun c => c.state.id) → ∃ s',
    (Repository.linkStates strategy (cs.map fun c => c.state.id)).run s = (.ok (.ok ()), s') ∧
      R s' (t.linkStates strategy (cs.map fun c => c.state.id))
  linkStates_refused : ∀ {s t strategy} ids, ¬ knows strategy → R s t → ∃ e,
    (Repository.linkStates strategy ids).run s = (.ok (.error e), s)

section Demand

variable {context : String} {x : Action σ Outcome} {s s' : σ}

theorem run_demand_of_ok (h : x.run s = (.ok (.ok ()), s')) :
    (demand context x).run s = (.ok (), s') := by
  rw [demand, Action.run_bind_of_ok h]
  rfl

theorem run_demand_of_refused {e : Refusal} (h : x.run s = (.ok (.error e), s')) :
    (demand context x).run s = (.error (.refused context e), s') := by
  rw [demand, Action.run_bind_of_ok h]
  rfl

/-- What is demanded is done if that succeeds. -/
theorem run_demand_eq_ok (h : (demand context x).run s = (.ok (), s')) :
    x.run s = (.ok (.ok ()), s') := by
  obtain ⟨e | ⟨⟨⟩⟩, m, hx, h⟩ := Action.run_bind_eq_ok h
  · cases h
  · cases h
    exact hx

end Demand

/-- Looking for first candidates depends only on which runs are looked for. -/
theorem firstCandidates_congr {ids ids' : List String} (h : ∀ id, id ∈ ids ↔ id ∈ ids')
    (cs : List Candidate) : firstCandidates ids cs = firstCandidates ids' cs := by
  simp only [firstCandidates_eq, h]

/-- No candidates are found only if no runs are looked for, of those that candidates have. -/
theorem firstCandidates_eq_nil_iff {ids : List String} {cs : List Candidate}
    (hids : ∀ id ∈ ids, id ∈ cs.map fun c => c.run.id) :
    firstCandidates ids cs = [] ↔ ids = [] := by
  rw [firstCandidates_eq, List.filter_eq_nil_iff]
  constructor
  · intro hnone
    rw [List.eq_nil_iff_forall_not_mem]
    intro id hid
    obtain ⟨c, hc, rfl⟩ := List.mem_map.1 (hids id hid)
    obtain ⟨d, hd, hdc⟩ := exists_mem_firsts hc
    exact hnone d hd (by simpa [hdc] using hid)
  · rintro rfl c -
    simp

namespace Keyed.Tables

variable {t : Tables}

/-- With no states to link, linking does nothing. -/
theorem linkStates_nil (t : Tables) (strategy : LinkStrategy) : t.linkStates strategy [] = t := by
  cases strategy <;> rfl

/-- With no candidates, nothing happens. -/
theorem materialize_nil (t : Tables) (strategy : LinkStrategy) :
    t.materialize strategy [] = (.ok [], t) := by
  simp only [materialize, submitted, List.map_nil, insertRuns, firstCandidates, insertStates,
    linkStates_nil]

end Keyed.Tables

/-- Storing candidates ends alike for a store and for the tables that it follows, unless the store
refuses to link. -/
theorem Tracks.run_materialize [Repository σ τ] {R : σ × τ → Keyed.Tables → Prop}
    {E : Refusal → Refusal → Prop} {fits : Candidate → Prop} {knows : LinkStrategy → Prop}
    (h : Tracks R E fits knows) {s : σ × τ} {t : Keyed.Tables} (hR : R s t) {cs : List Candidate}
    (hcs : ∀ c ∈ cs, fits c) (strategy : LinkStrategy) : ∃ r s',
    (materialize strategy cs).run s = (r, s') ∧ (∃ u, R s' u) ∧
      Ending R E (knows strategy) (t.materialize strategy cs) r s' := by
  have ht : t.WellFormed := h.wellFormed hR
  unfold materialize
  split
  · next hnil =>
    rw [List.isEmpty_iff.1 hnil, materialize_nil]
    exact ⟨.ok [], s, rfl, ⟨t, hR⟩, .alike (.done _) hR (.inr fun _ h => (Except.ok.inj h).symm)⟩
  -- The tables say how each step ends, so the cases are split on what they say.
  obtain ⟨o, s₁, hrun₁, halike₁, hR₁⟩ := h.insertRuns hR hcs
  have hfirst : (t.insertRuns (submitted cs)).1 = .ok () → _ := firstCandidates_statelessRunIds ht
  rw [materialize_eq ht]
  rcases hu : t.insertRuns (submitted cs) with ⟨o', u⟩
  rw [hu] at halike₁ hR₁ hfirst
  cases halike₁ with
  | refused hE =>
    rw [Action.run_bind_of_error (run_demand_of_refused hrun₁)]
    exact ⟨_, s₁, rfl, ⟨_, hR₁⟩, .alike (.refused _ hE) hR₁ (.inr nofun)⟩
  | done =>
    rw [Action.run_bind_of_ok (run_demand_of_ok hrun₁)]
    obtain ⟨ids, hrun₂, hids⟩ := h.statelessRunIds hR₁ hcs
    rw [Action.run_bind_of_ok hrun₂]
    have hnew : firstCandidates ids cs = t.newCandidates cs := by
      rw [firstCandidates_congr hids, hfirst rfl]
    have hnewfits : ∀ c ∈ t.newCandidates cs, fits c := fun c hc =>
      hcs c (mem_of_mem_newCandidates hc)
    have hnil : t.newCandidates cs = [] ↔ ids = [] := by
      rw [← hnew]
      exact firstCandidates_eq_nil_iff fun id hid => (List.mem_filter.1 ((hids id).1 hid)).1
    show ∃ r s', (if ids.isEmpty then _ else _ : Action _ _).run s₁ = (r, s') ∧ _
    split
    -- The tables have no such shortcut, but with nothing new their last two steps do nothing.
    · next hempty =>
      simp only [newStates, hnil.2 (List.isEmpty_iff.1 hempty), List.map_nil, linkStates_nil]
      exact ⟨.ok [], s₁, rfl, ⟨_, hR₁⟩,
        .alike (.done _) hR₁ (.inr fun _ h => (Except.ok.inj h).symm)⟩
    next hsome =>
    obtain ⟨o, s₂, hrun₃, halike₂, hR₂⟩ := h.insertStates hR₁ hnewfits
    have hone : (u.insertStates (t.newStates cs)).1 = .ok () →
        (u.insertStates (t.newStates cs)).2.OnePerRun (t.newStateIds cs) := by
      intro hstates
      rw [← show (t.insertRuns (submitted cs)).2 = u by rw [hu]] at hstates ⊢
      exact onePerRun_newStateIds hstates
    rw [hnew]
    rcases hv : u.insertStates (t.newStates cs) with ⟨o', v⟩
    rw [hv] at halike₂ hR₂ hone
    simp only [hv]
    cases halike₂ with
    | refused hE =>
      rw [Action.run_bind_of_error (run_demand_of_refused hrun₃)]
      exact ⟨_, s₂, rfl, ⟨_, hR₂⟩, .alike (.refused _ hE) hR₂ (.inr nofun)⟩
    | done =>
      rw [Action.run_bind_of_ok (run_demand_of_ok hrun₃)]
      by_cases hknows : knows strategy
      · obtain ⟨s₃, hrun₄, hR₃⟩ := h.linkStates hknows hR₂ hnewfits (hone rfl)
        rw [Action.run_bind_of_ok (run_demand_of_ok hrun₄)]
        exact ⟨_, s₃, rfl, ⟨_, hR₃⟩, .alike (.done _) hR₃ (.inl hknows)⟩
      · obtain ⟨e, hrun₄⟩ := h.linkStates_refused (t.newStateIds cs) hknows hR₂
        rw [Action.run_bind_of_error (run_demand_of_refused hrun₄)]
        have hcreated : (t.newCandidates cs).map Candidate.linkedRun ≠ [] := by
          rw [ne_eq, List.map_eq_nil_iff, hnil, ← List.isEmpty_iff]
          exact hsome
        exact ⟨_, s₂, rfl, ⟨_, hR₂⟩, .unlinked hknows rfl hcreated e⟩

/-- What the tables accept is stored, if the store knows how to link. -/
theorem Tracks.run_materialize_of_ok [Repository σ τ] {R : σ × τ → Keyed.Tables → Prop}
    {E : Refusal → Refusal → Prop} {fits : Candidate → Prop} {knows : LinkStrategy → Prop}
    (h : Tracks R E fits knows) {s : σ × τ} {t : Keyed.Tables} (hR : R s t) {cs : List Candidate}
    (hcs : ∀ c ∈ cs, fits c) {strategy : LinkStrategy} (hknows : knows strategy)
    {created : List FlowRun} (hok : (t.materialize strategy cs).1 = .ok created) : ∃ s',
    (materialize strategy cs).run s = (.ok created, s') ∧ R s' (t.materialize strategy cs).2 := by
  obtain ⟨r, s', hrun, -, hending⟩ := h.run_materialize hR hcs strategy
  obtain ⟨halike, hR'⟩ := hending.of_links (.inl hknows)
  obtain rfl := halike.eq_ok.2 hok
  exact ⟨s', hrun, hR'⟩

end Timetable
