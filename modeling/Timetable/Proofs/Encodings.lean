import Timetable.Proofs.Catalogue
import Timetable.Proofs.Retry
import Timetable.Proofs.Strict

/-!
# The two texts of a candidate's time

A candidate tells its time twice: at the end of its run's key, with the offset from UTC spelt out,
and at the front of its state's details, which a message has written from seconds and nanoseconds.
Both texts are read back as the time of the candidate, before 1970 and with milliseconds as well,
and no instant is lost between words of milliseconds and seconds and nanoseconds:
`both_times_are_read`.
-/

namespace Timetable

/-! ### Quotes -/

theorem Rfc3339.isDigit_or_mem_of_mem_civilText {t : Instant} {c : Char} (h : c ∈ civilText t) :
    c.isDigit = true ∨ c ∈ ['-', 'T', ':', '.'] := by
  by_contra hother
  obtain ⟨hdigit, hmark⟩ := not_or.1 hother
  exact notMem_civilText (Bool.eq_false_iff.2 hdigit) hmark t h

namespace Occurrence

theorem quoteChar_of_isDigit {c : Char} (h : c.isDigit = true) : quoteChar c = [c] := by
  have hne : ∀ d : Char, d.isDigit = false → c ≠ d := by
    rintro d hd rfl
    rw [hd] at h
    cases h
  have hcode : 48 ≤ c.toNat ∧ c.toNat ≤ 57 := Char.isDigit_iff_toNat.1 h
  unfold quoteChar
  rw [if_neg (hne _ rfl), if_neg (hne _ rfl), if_neg (hne _ rfl), if_neg (hne _ rfl),
    if_neg (hne _ rfl), if_neg (hne _ rfl), if_neg (hne _ rfl), if_neg]
  intro hspelled
  obtain ⟨r, hr, hle⟩ := List.any_eq_true.1 hspelled
  simp only [Bool.and_eq_true, decide_eq_true_eq] at hle
  have hoff : ∀ r ∈ spelledOut, r.2 < 48 ∨ 57 < r.1 := by decide
  have hr := hoff r hr
  omega

/-- Nothing in the text of a time is escaped. -/
theorem quote_printZulu (t : Instant) :
    quote (Rfc3339.printZulu t) = "\"" ++ Rfc3339.printZulu t ++ "\"" := by
  have hchars : ∀ c ∈ Rfc3339.civilText t ++ ['Z'], quoteChar c = [c] := by
    intro c hc
    rcases List.mem_append.1 hc with hc | hc
    · rcases Rfc3339.isDigit_or_mem_of_mem_civilText hc with hdigit | hmark
      · exact quoteChar_of_isDigit hdigit
      · simp only [List.mem_cons, List.not_mem_nil, or_false] at hmark
        rcases hmark with rfl | rfl | rfl | rfl <;> rfl
    · obtain rfl : c = 'Z' := by simpa using hc
      rfl
  rw [quote, Rfc3339.printZulu, String.toList_ofList, List.flatMap_congr hchars,
    List.flatMap_singleton', ← String.toList_inj]
  simp

theorem quotes_notMem_printZulu (t : Instant) : '"' ∉ (Rfc3339.printZulu t).toList := by
  rw [Rfc3339.printZulu, String.toList_ofList, List.mem_append, not_or]
  exact ⟨notMem_civilText (by decide) (by decide) t, by decide⟩

/-- Details begin with the time. -/
theorem exists_details_eq {scheduleId text : String} {t : Instant}
    (h : details scheduleId t = .ok text) : t.InYears ∧ ∃ rest,
      text = "\x7b\"scheduledTime\":\"" ++ Rfc3339.printZulu t ++ "\"" ++ rest := by
  rw [details_eq] at h
  split at h
  · next hrange =>
    refine ⟨Instant.inYears_iff.2 hrange, ?_⟩
    cases h
    rw [quote_printZulu]
    split
    · refine ⟨",\"autoScheduled\":true\x7d", ?_⟩
      simp only [List.cons_append, List.nil_append, String.intercalate_cons_cons,
        String.intercalate_singleton, ← String.toList_inj, String.toList_append]
      simp
    · refine ⟨",\"scheduleId\":" ++ quote scheduleId ++ ",\"autoScheduled\":true\x7d", ?_⟩
      simp only [List.cons_append, List.nil_append, String.intercalate_cons_cons,
        String.intercalate_singleton, ← String.toList_inj, String.toList_append]
      simp
  · cases h

end Occurrence

/-- The two texts that a candidate tells its time by: what stands behind the last blank of its run's
key, and the first quoted value of its state's details. -/
structure Candidate.Times (c : Candidate) (key details : String) : Prop where
  key_eq : c.run.idempotencyKey = "scheduled " ++ c.run.scheduleId ++ " " ++ key
  blank_notMem : ' ' ∉ key.toList
  details_eq : ∃ rest, c.state.details = "\x7b\"scheduledTime\":\"" ++ details ++ "\"" ++ rest
  quotes_notMem : '"' ∉ details.toList

theorem Occurrence.times_of_candidate {d : Deployment} {s : Schedule} {createdAt : UInt64}
    {t : Instant} {c : Candidate} (h : candidate d s createdAt t = .ok c) :
    c.scheduledAt = t ∧ t.InYears ∧ c.Times (Rfc3339.print t) (Rfc3339.printZulu t) := by
  obtain ⟨text, htext, rfl⟩ := candidate_eq_ok.1 h
  obtain ⟨hyears, hbegins⟩ := exists_details_eq htext
  exact ⟨rfl, hyears, rfl, Rfc3339.blank_notMem_print t, hbegins, quotes_notMem_printZulu t⟩

open Rfc3339 Instant

/-- A message writes the instants of the years 1 to 9999. -/
theorem Instant.InYears.printTimestamp? {t : Instant} (h : t.InYears) :
    Rfc3339.printTimestamp? t.toTimestamp = some (printZulu t) := by
  obtain ⟨hfirst, hlast⟩ := inYears_iff.1 h
  simp only [le_iff, Occurrence.firstWritable, Occurrence.lastWritable] at hfirst hlast
  rw [printTimestamp?_toTimestamp, if_pos]
  unfold firstSecond lastSecond
  omega

/-- Whatever is generated tells its time by two texts that are both read as this time. Any count of
milliseconds that a word holds is found again in its seconds and nanoseconds. -/
theorem both_times_are_read :
    (∀ {σ τ : Type} [Repository σ τ] (r : Request) (now : Instant) (s s' : σ × τ)
      (cs : List Candidate), (r.generate now).run s = (.ok cs, s') → ∀ c ∈ cs, ∃ key details,
        c.Times key details ∧ parse? key = some c.scheduledAt ∧
          printTimestamp? c.scheduledAt.toTimestamp = some details ∧
          parse? details = some c.scheduledAt) ∧
    ∀ t : Instant, FitsWord t.millis → 0 ≤ t.toTimestamp.nanos ∧
      t.toTimestamp.nanos < 1000000000 ∧ ofTimestamp t.toTimestamp = t := by
  constructor
  · intro σ τ _ r now s s' cs hgenerate c hc
    obtain ⟨d, ss, hcandidates⟩ := exists_ofSchedules_of_generate hgenerate
    obtain ⟨schedule, -, t, hcandidate⟩ := exists_occurrence hcandidates hc
    obtain ⟨rfl, hyears, htimes⟩ := Occurrence.times_of_candidate hcandidate
    have hfirst : -999 ≤ c.scheduledAt.year := Int.le_trans (by decide) hyears.1
    exact ⟨_, _, htimes, parse?_print hfirst hyears.2, hyears.printTimestamp?,
      parse?_printZulu hfirst hyears.2⟩
  · intro t ht
    have hmod : 0 ≤ t.millis % 1000 ∧ t.millis % 1000 < 1000 := by omega
    refine ⟨?_, ?_, ofTimestamp_toTimestamp ht⟩ <;> rw [toTimestamp_eq]
    · exact Int.mul_nonneg hmod.1 (by decide)
    · show t.millis % 1000 * 1000000 < 1000000000
      omega

theorem both_times_are_read_first_hour :
    (∃ c, ((firstHour.generate (.ofNanos 0)).run
        (Keyed.Ledger.copying.busy hourlyTables hourlyTables)).1 = .ok [c] ∧ ∃ key details,
      c.Times key details ∧ parse? key = some c.scheduledAt ∧
        parse? details = some c.scheduledAt) ∧
    ofTimestamp (toTimestamp ⟨-1⟩) = ⟨-1⟩ := by
  refine ⟨?_, (both_times_are_read.2 ⟨-1⟩ (by decide)).2.2⟩
  obtain ⟨c, hgenerate⟩ := exists_generate_firstHour
  obtain ⟨key, details, htimes, hkey, -, hdetails⟩ :=
    both_times_are_read.1 firstHour (.ofNanos 0) _ _ [c] hgenerate c (by simp)
  exact ⟨c, congrArg Prod.fst hgenerate, key, details, htimes, hkey, hdetails⟩

end Timetable
