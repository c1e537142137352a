import Timetable.Proofs.OrderedMap
import Timetable.Occurrence

/-!
# Texts without U+0000

A text that holds no U+0000 is the same before and after it is bound to a statement. The texts of a
candidate hold none if those of its deployment and its schedule hold none: identifiers are digits,
times are digits and signs, and whatever is quoted is escaped.
-/

namespace Timetable

/-- A text holds no U+0000. -/
def Text.NulFree (s : String) : Prop := '\x00' ∉ s.toList

open Text

namespace Text

instance (s : String) : Decidable (NulFree s) := inferInstanceAs (Decidable ('\x00' ∉ s.toList))

theorem untilNul_of_nulFree {s : String} (h : NulFree s) : untilNul s = s :=
  untilNul_eq_self_iff.2 h

theorem nulFree_untilNul (s : String) : NulFree (untilNul s) := nul_notMem_untilNul s

theorem nulFree_append_iff {s t : String} : NulFree (s ++ t) ↔ NulFree s ∧ NulFree t := by
  simp [NulFree]

theorem nulFree_ofList_iff {cs : List Char} : NulFree (String.ofList cs) ↔ '\x00' ∉ cs := by
  simp [NulFree]

end Text

/-! ### The texts of a record -/

/-- The texts of a deployment. -/
def Deployment.texts (d : Deployment) : List String := [d.id, d.name, d.flowId]

/-- The texts of a schedule. -/
def Schedule.texts (s : Schedule) : List String := [s.id, s.deploymentId, s.parameters]

/-- The texts of a run. -/
def FlowRun.texts (r : FlowRun) : List String :=
  [r.id, r.flowId, r.deploymentId, r.parameters, r.idempotencyKey, r.tags, r.scheduleId] ++
    r.stateId.toList

/-- The texts of a state. -/
def RunState.texts (s : RunState) : List String := [s.id, s.runId, s.message, s.details]

/-- A deployment with its texts changed. -/
def Deployment.mapTexts (f : String → String) (d : Deployment) : Deployment :=
  { d with id := f d.id, name := f d.name, flowId := f d.flowId }

/-- A schedule with its texts changed. -/
def Schedule.mapTexts (f : String → String) (s : Schedule) : Schedule :=
  { s with id := f s.id, deploymentId := f s.deploymentId, parameters := f s.parameters }

/-- A run with its texts changed. -/
def FlowRun.mapTexts (f : String → String) (r : FlowRun) : FlowRun :=
  { r with
    id := f r.id, flowId := f r.flowId, deploymentId := f r.deploymentId
    parameters := f r.parameters, idempotencyKey := f r.idempotencyKey, tags := f r.tags
    scheduleId := f r.scheduleId, stateId := r.stateId.map f }

/-- A state with its texts changed. -/
def RunState.mapTexts (f : String → String) (s : RunState) : RunState :=
  { s with id := f s.id, runId := f s.runId, message := f s.message, details := f s.details }

section

variable {f : String → String}

theorem Deployment.texts_mapTexts (d : Deployment) : (d.mapTexts f).texts = d.texts.map f := rfl

theorem Schedule.texts_mapTexts (s : Schedule) : (s.mapTexts f).texts = s.texts.map f := rfl

/-- A record is left alone by what leaves its texts alone. -/
theorem Deployment.mapTexts_eq_self_iff {d : Deployment} :
    d.mapTexts f = d ↔ ∀ x ∈ d.texts, f x = x := by
  cases d
  simp [mapTexts, texts]

@[inherit_doc Deployment.mapTexts_eq_self_iff]
theorem Schedule.mapTexts_eq_self_iff {s : Schedule} :
    s.mapTexts f = s ↔ ∀ x ∈ s.texts, f x = x := by
  cases s
  simp [mapTexts, texts]

@[inherit_doc Deployment.mapTexts_eq_self_iff]
theorem FlowRun.mapTexts_eq_self_iff {r : FlowRun} :
    r.mapTexts f = r ↔ ∀ x ∈ r.texts, f x = x := by
  obtain ⟨id, flowId, deploymentId, parameters, idempotencyKey, tags, scheduleId, autoScheduled,
    stateId, createdAt⟩ := r
  cases stateId <;> simp [mapTexts, texts]

@[inherit_doc Deployment.mapTexts_eq_self_iff]
theorem RunState.mapTexts_eq_self_iff {s : RunState} :
    s.mapTexts f = s ↔ ∀ x ∈ s.texts, f x = x := by
  cases s
  simp [mapTexts, texts]

end

/-- The texts of a candidate. -/
def Candidate.texts (c : Candidate) : List String := c.run.texts ++ c.state.texts

theorem Candidate.texts_unlinkedRun {c : Candidate} {s : String} (h : s ∈ c.unlinkedRun.texts) :
    s ∈ c.texts := by
  simp only [unlinkedRun, FlowRun.texts, Option.toList_none, List.append_nil] at h
  simp only [texts, FlowRun.texts, List.mem_append]
  exact .inl (.inl h)

theorem Candidate.texts_firstState {c : Candidate} {s : String} (h : s ∈ c.firstState.texts) :
    s ∈ c.texts := by
  simp only [firstState, RunState.texts, texts, FlowRun.texts, List.mem_append, List.mem_cons]
    at h ⊢
  tauto

/-! ### Generated texts -/

theorem nul_ne_digit {n : Nat} (h : n < 16) : Hex.digit n ≠ '\x00' :=
  (by decide : ∀ n < 16, Hex.digit n ≠ '\x00') n h

theorem nul_notMem_byteDigits (b : UInt8) : '\x00' ∉ Hex.byteDigits b := by
  have hb : b.toNat < 256 := b.toNat_lt
  have hhigh := nul_ne_digit (show b.toNat / 16 < 16 by omega)
  have hlow := nul_ne_digit (show b.toNat % 16 < 16 by omega)
  simp only [Hex.byteDigits, List.mem_cons, List.not_mem_nil, or_false, not_or]
  exact ⟨hhigh.symm, hlow.symm⟩

theorem nulFree_uuid (u : Uuid) : NulFree u.toString := by
  have hhex : ∀ bs, '\x00' ∉ Uuid.hex bs := by
    intro bs h
    obtain ⟨b, -, hb⟩ := List.mem_flatMap.1 h
    exact nul_notMem_byteDigits b hb
  rw [Uuid.toString, nulFree_ofList_iff, Uuid.toText]
  simp only [List.mem_append, List.mem_cons, not_or]
  simp [hhex]

/-- A number is written in digits only. -/
theorem notMem_padded {c : Char} (hc : c.isDigit = false) (width n : Nat) :
    c ∉ Numeral.padded width n := by
  rw [Numeral.padded, List.mem_append, not_or]
  constructor
  · intro h
    rw [(List.mem_replicate.1 h).2] at hc
    revert hc
    decide
  · intro h
    rw [Numeral.isDigit_of_mem_digits h] at hc
    cases hc

theorem notMem_paddedInt {c : Char} (hc : c.isDigit = false) (hsign : c ≠ '-') (width : Nat)
    (n : Int) : c ∉ Numeral.paddedInt width n := by
  cases n with
  | ofNat n => exact notMem_padded hc width n
  | negSucc n => simp [Numeral.paddedInt, notMem_padded hc, hsign]

/-- A time is written in digits and the marks between them. -/
theorem notMem_civilText {c : Char} (hc : c.isDigit = false) (hmarks : c ∉ ['-', 'T', ':', '.'])
    (t : Instant) : c ∉ Rfc3339.civilText t := by
  simp only [List.mem_cons, List.not_mem_nil, or_false, not_or] at hmarks
  simp only [Rfc3339.civilText, List.mem_append, List.mem_cons, notMem_padded hc,
    notMem_paddedInt hc hmarks.1, hmarks, not_or]
  split <;> simp [notMem_padded hc, hmarks]

theorem nul_notMem_spell (c : Char) : '\x00' ∉ Occurrence.spell c := by
  have hunit (n : Nat) : '\x00' ∉ Occurrence.spellUnit n := by
    simp [Occurrence.spellUnit, nul_notMem_byteDigits]
  simp only [Occurrence.spell]
  split
  · exact hunit _
  · exact List.not_mem_append (hunit _) (hunit _)

theorem nul_notMem_quoteChar (c : Char) : '\x00' ∉ Occurrence.quoteChar c := by
  unfold Occurrence.quoteChar
  repeat' split
  all_goals try decide
  · exact nul_notMem_spell c
  · next h =>
    rw [List.mem_singleton]
    rintro rfl
    exact h (by decide)

theorem nulFree_quote (s : String) : NulFree (Occurrence.quote s) := by
  rw [Occurrence.quote, nulFree_ofList_iff]
  simp only [List.cons_append, List.mem_cons, List.mem_append, List.mem_flatMap, not_or]
  refine ⟨by decide, ?_, by decide⟩
  rintro ⟨c, -, hc⟩
  exact nul_notMem_quoteChar c hc

theorem nulFree_print (t : Instant) : NulFree (Rfc3339.print t) := by
  rw [Rfc3339.print, nulFree_ofList_iff, List.mem_append, not_or]
  exact ⟨notMem_civilText (by decide) (by decide) t, by decide⟩

theorem nulFree_details {scheduleId text : String} {t : Instant}
    (h : Occurrence.details scheduleId t = .ok text) : NulFree text := by
  rw [Occurrence.details_eq] at h
  split at h
  · cases h
    split <;> simp only [List.append_nil, List.cons_append, List.nil_append,
      String.intercalate_cons_cons, String.intercalate_singleton, nulFree_append_iff,
      nulFree_quote] <;> decide
  · cases h

end Timetable
